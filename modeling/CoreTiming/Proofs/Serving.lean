import Mathlib.Algebra.GroupWithZero.Nat
import Mathlib.Data.List.Sort
import CoreTiming.Proofs.Occupancy

/-!
# A pool of units is a queue of servers

In a queue of `n` servers a request begins as soon as fewer than `n` of those before it are not over, which is when the
`n`-th largest of their completion times has come.  A pool of units knows less: a unit that is free may have been so for
long, and its time is overwritten.  But of the requests that are not over, it knows all that matter: as many units are
busy as there are such requests, or all of them (`UnitPool.Mirrors`).  So a pool serves requests that come in the order
of their times as the queue does (`UnitPool.serves_as_queue`).
-/

namespace CoreTiming

/-! ## Section 1: The n-th largest time -/

/-- The `n`-th largest of some times, if there are that many. -/
def nthLargest (n : Nat) (l : List Time) : Option Time := (l.insertionSort (· ≥ ·))[n - 1]?

/-- In a list that falls, the times later than `t` come first. -/
theorem lt_getElem?_iff {l : List Time} {t : Time} (falls : l.Pairwise (· ≥ ·)) (k : Nat) :
    (∃ x, l[k]? = some x ∧ t < x) ↔ k < l.countP (t < ·) := by
  induction l generalizing k with
  | nil => simp
  | cons x rest ih =>
    obtain ⟨below, falls⟩ := List.pairwise_cons.mp falls
    by_cases later : t < x
    · rw [List.countP_cons, if_pos (decide_eq_true later)]
      cases k with
      | zero => exact iff_of_true ⟨x, rfl, later⟩ (Nat.succ_pos _)
      | succ k => exact (ih falls k).trans Nat.succ_lt_succ_iff.symm
    · have none : ∀ y ∈ x :: rest, ¬ t < y := by
        intro y mem
        rcases List.mem_cons.mp mem with rfl | mem
        · exact later
        · exact fun lt => later (lt.trans_le (below y mem))
      have zero : (x :: rest).countP (t < ·) = 0 := by
        rw [List.countP_eq_zero]
        exact fun y mem lt => none y mem (of_decide_eq_true lt)
      rw [zero]
      refine iff_of_false ?_ (Nat.not_lt_zero k)
      rintro ⟨y, at_k, lt⟩
      exact none y (List.mem_of_getElem? at_k) lt

/-- The `n`-th largest time is later than `t` if `n` of the times are. -/
theorem lt_nthLargest_iff {n : Nat} (pos : 0 < n) {l : List Time} {t : Time} :
    (∃ x, nthLargest n l = some x ∧ t < x) ↔ n ≤ l.countP (t < ·) := by
  unfold nthLargest
  rw [lt_getElem?_iff (List.pairwise_insertionSort _ l), (List.perm_insertionSort _ l).countP_eq]
  omega

/-! ## Section 2: Queues of servers -/

/-- When a request is served: from `start` on, before `stop`. -/
structure Service where
  /-- When it begins. -/
  start : Time
  /-- When it is over. -/
  stop : Time

/-- Whether the request is served at `t`. -/
def Service.covers (t : Time) (s : Service) : Bool := s.start ≤ t && t < s.stop

namespace Fifo

variable {n : Nat} {stops : List Time} {served : List Service} {rs : List Request} {start t : Time}

/-- When the turn of a request comes that has arrived at `start`, if those before it are over at `stops`: when the
`n`-th largest of these times has come, or at once if they are fewer. -/
def turn (n : Nat) (stops : List Time) (start : Time) : Time :=
  match nthLargest n stops with
  | some t => max start t
  | none => start

/-- How a request is served after others. -/
def enter (n : Nat) (served : List Service) (r : Request) : Service :=
  let begun := turn n (served.map Service.stop) r.start
  ⟨begun, begun + r.duration⟩

/-- How a queue of `n` servers serves requests, each in its turn. -/
def services (n : Nat) (rs : List Request) : List Service :=
  rs.foldl (fun served r => served ++ [enter n served r]) []

theorem services_concat (n : Nat) (rs : List Request) (r : Request) :
    services n (rs ++ [r]) = services n rs ++ [enter n (services n rs) r] := by
  unfold services
  rw [List.foldl_concat]

@[simp] theorem length_services (n : Nat) (rs : List Request) : (services n rs).length = rs.length := by
  induction rs using List.reverseRecOn with
  | nil => rfl
  | append_singleton rs r ih => rw [services_concat, List.length_append, List.length_append, ih]; rfl

/-- A request waits until fewer than `n` of those before it are not over. -/
theorem lt_turn_iff (pos : 0 < n) : t < turn n stops start ↔ t < start ∨ n ≤ stops.countP (t < ·) := by
  rw [← lt_nthLargest_iff pos]
  unfold turn
  cases nthLargest n stops with
  | some x => simp
  | none => simp

/-- At no time are more than `n` requests served. -/
theorem countP_covers_le (pos : 0 < n) (rs : List Request) (t : Time) :
    (services n rs).countP (Service.covers t) ≤ n := by
  induction rs using List.reverseRecOn with
  | nil => exact Nat.zero_le n
  | append_singleton rs r ih =>
    rw [services_concat, List.countP_append, List.countP_singleton]
    by_cases begun : (enter n (services n rs) r).start ≤ t
    · -- the turn of the request has come, so that fewer of the others are not over
      have few : ¬ n ≤ ((services n rs).map Service.stop).countP (t < ·) := fun many =>
        begun.not_gt ((lt_turn_iff pos).mpr (.inr many))
      have fewer : (services n rs).countP (Service.covers t) ≤ ((services n rs).map Service.stop).countP (t < ·) := by
        rw [List.countP_map]
        exact List.countP_mono_left fun s _ covers => (Bool.and_eq_true_iff.mp covers).2
      split <;> omega
    · have later : Service.covers t (enter n (services n rs) r) = false := by
        simp [Service.covers, begun]
      rw [later]
      exact ih

end Fifo

/-! ## Section 3: What a pool knows of the requests that are not over -/

namespace Slots

variable {freeAt : List Time} {start stop t : Time} {many : Nat}

/-- When an occupant moves in: not as long as all slots are occupied. -/
theorem lt_assign_iff (slots : freeAt ≠ []) (after : start ≤ t) :
    t < (assign freeAt start).2 ↔ freeAt.countP (t < ·) = freeAt.length := by
  obtain ⟨u, there, moved, least⟩ := assign_spec slots start
  rw [moved, lt_max_iff, or_iff_right after.not_gt, List.countP_eq_length]
  constructor
  · intro late v mem
    exact decide_eq_true (late.trans_le (least (after.trans_lt late) v mem))
  · intro busy
    exact of_decide_eq_true (busy u (List.mem_of_getElem? there))

/-- If as many slots are occupied as there are occupants, or all, then it is so with one more. -/
theorem countP_set_assign (slots : freeAt ≠ []) (after : start ≤ t) (moves : (assign freeAt start).2 ≤ stop)
    (occupied : freeAt.countP (t < ·) = min freeAt.length many) :
    (freeAt.set (assign freeAt start).1 stop).countP (t < ·) =
      min freeAt.length (many + if t < stop then 1 else 0) := by
  have full := lt_assign_iff slots after
  obtain ⟨u, there, moved, -⟩ := assign_spec slots start
  obtain ⟨inside, same⟩ := List.getElem?_eq_some_iff.mp there
  have within : freeAt.countP (t < ·) ≤ freeAt.length := List.countP_le_length
  have busy : t < u ↔ freeAt.countP (t < ·) = freeAt.length := by
    rw [← full, moved, lt_max_iff, or_iff_right after.not_gt]
  rw [List.countP_set inside, same]
  by_cases late : t < u
  · -- all are occupied, and the slot is not left before `t`
    have lasts : t < stop := (full.mpr (busy.mp late)).trans_le moves
    have all := busy.mp late
    simp only [late, lasts, decide_true, if_true]
    omega
  · have some_free : freeAt.countP (t < ·) ≠ freeAt.length := fun all => late (busy.mpr all)
    simp only [late, decide_false, Bool.false_eq_true, if_false, decide_eq_true_eq]
    split <;> omega

end Slots

namespace UnitPool

variable {n : Nat} {p : UnitPool} {rs : List Request} {r : Request} {stops : List Time} {start t : Time}

theorem hasFree_iff (units : p.freeAt ≠ []) : p.hasFree t = true ↔ p.numBusy t ≠ p.numUnits := by
  have some_free : p.hasFree t = true ↔ ∃ u ∈ p.freeAt, u ≤ t := by
    simp [hasFree, units]
  unfold numBusy numUnits
  rw [some_free, ne_eq, List.countP_eq_length]
  simp

/-- From `start` on, as many units of the pool are busy as there are `stops` to come, or all of them. -/
def Mirrors (p : UnitPool) (stops : List Time) (start : Time) : Prop :=
  ∀ t, start ≤ t → p.numBusy t = min p.numUnits (stops.countP (t < ·))

theorem Mirrors.assign_eq (h : p.Mirrors stops start) (units : p.freeAt ≠ []) :
    (Slots.assign p.freeAt start).2 = Fifo.turn p.numUnits stops start := by
  have pos : 0 < p.numUnits := List.length_pos_iff.mpr units
  refine eq_of_forall_lt_iff fun t => ?_
  rw [Fifo.lt_turn_iff pos]
  rcases lt_or_ge t start with before | after
  · exact iff_of_true (before.trans_le (Slots.le_assign units start)) (.inl before)
  · have busy := h t after
    unfold numBusy numUnits at *
    rw [Slots.lt_assign_iff units after, or_iff_right after.not_gt, busy]
    omega

/-- A pool that is asked for one more unit still knows of all requests that are not over. -/
theorem Mirrors.serve {p' : UnitPool} {stop : Time} (h : p.Mirrors stops start) (units : p.freeAt ≠ [])
    (moves : (Slots.assign p.freeAt start).2 ≤ stop)
    (taken : p'.freeAt = p.freeAt.set (Slots.assign p.freeAt start).1 stop) : p'.Mirrors (stops ++ [stop]) start := by
  intro t after
  have busy := Slots.countP_set_assign units after moves (h t after)
  unfold numBusy numUnits
  rw [taken, List.length_set, busy, List.countP_append, List.countP_singleton]
  simp only [decide_eq_true_eq]

theorem Mirrors.mono {start' : Time} (h : p.Mirrors stops start) (later : start ≤ start') : p.Mirrors stops start' :=
  fun t after => h t (later.trans after)

/-- Where the pool knows of all requests that are not over, the next one begins when its turn comes. -/
theorem Mirrors.begins (pos : 0 < n) (h : (after n rs).Mirrors ((Fifo.services n rs).map Service.stop) r.start) :
    (Slots.assign (after n rs).freeAt r.start).2 = (Fifo.enter n (Fifo.services n rs) r).start := by
  rw [h.assign_eq (units_after pos rs), numUnits_after]
  rfl

/-- A pool of `n` units completes requests when a queue of `n` servers does, and knows which of them are not over. -/
theorem mirrors_after (pos : 0 < n) (ordered : InTimeOrder rs) :
    completions n rs = (Fifo.services n rs).map Service.stop ∧
      ∀ start, (∀ r ∈ rs, r.start ≤ start) → (after n rs).Mirrors ((Fifo.services n rs).map Service.stop) start := by
  induction rs using List.reverseRecOn with
  | nil =>
    refine ⟨rfl, fun start _ t _ => ?_⟩
    have idle : (new n).numBusy t = 0 := by
      refine List.countP_eq_zero.mpr fun u mem busy => ?_
      rw [List.eq_of_mem_replicate mem] at busy
      exact (Time.zero_le t).not_gt (of_decide_eq_true busy)
    exact idle.trans (Nat.min_zero _).symm
  | append_singleton rs r ih =>
    obtain ⟨front, before⟩ := ordered.of_concat
    obtain ⟨answers, mirrors⟩ := ih front
    obtain ⟨completed, occupied, -⟩ := complete_after pos ordered
    have begins := (mirrors r.start before).begins pos
    have stop : (Slots.assign (after n rs).freeAt r.start).2 + r.duration =
        (Fifo.enter n (Fifo.services n rs) r).stop := by
      rw [begins]
      rfl
    rw [stop] at completed occupied
    rw [completions_concat, after_concat, Fifo.services_concat, List.map_append, List.map_singleton, answers, completed]
    refine ⟨rfl, fun start later => ?_⟩
    refine ((mirrors r.start before).serve (units_after pos rs) ?_ occupied).mono
      (later r (List.mem_append_right _ List.mem_cons_self))
    exact stop ▸ Time.le_add_right _ _

/-- Requests begin when their turns come. -/
theorem assign_after (pos : 0 < n) (ordered : InTimeOrder (rs ++ [r])) :
    (Slots.assign (after n rs).freeAt r.start).2 = (Fifo.enter n (Fifo.services n rs) r).start := by
  obtain ⟨front, before⟩ := ordered.of_concat
  exact ((mirrors_after pos front).2 r.start before).begins pos

/-- How long requests have waited until they were served. -/
def delays (rs : List Request) (served : List Service) : List Nat :=
  List.zipWith (fun r s => s.start.toNat - r.start.toNat) rs served

/-- A pool adds up how long requests have waited. -/
theorem totalDelay_after (pos : 0 < n) (ordered : InTimeOrder rs) :
    (after n rs).stats.totalDelay.toNat = min (delays rs (Fifo.services n rs)).sum Time.limit := by
  induction rs using List.reverseRecOn with
  | nil => rfl
  | append_singleton rs r ih =>
    have before := ih ordered.of_concat.1
    obtain ⟨-, -, delay⟩ := complete_after pos ordered
    have sum : (delays (rs ++ [r]) (Fifo.services n (rs ++ [r]))).sum = (delays rs (Fifo.services n rs)).sum +
        ((Fifo.enter n (Fifo.services n rs) r).start.toNat - r.start.toNat) := by
      unfold delays
      rw [Fifo.services_concat, List.zipWith_append (Fifo.length_services n rs).symm, List.sum_append]
      rfl
    rw [after_concat, delay, assign_after pos ordered, Time.toNat_add, Time.toNat_sub, sum, before]
    omega

/-- A pool of `n` units serves requests that come in the order of their times as a queue of `n` servers does: each
begins when the `n`-th largest of the completion times before it has come, or at once if there are fewer, and is
completed when its duration is over.  The pool adds up how long requests wait; at no time are more than `n` served; and
there is a free unit for a request exactly if its turn comes at once. -/
theorem serves_as_queue (pos : 0 < n) (ordered : InTimeOrder rs) :
    completions n rs = (Fifo.services n rs).map Service.stop ∧
      (after n rs).stats.totalDelay.toNat = min (delays rs (Fifo.services n rs)).sum Time.limit ∧
      (∀ t, (Fifo.services n rs).countP (Service.covers t) ≤ n) ∧
      ∀ r, InTimeOrder (rs ++ [r]) →
        ((after n rs).hasFree r.start = true ↔ (Fifo.enter n (Fifo.services n rs) r).start = r.start) := by
  refine ⟨(mirrors_after pos ordered).1, totalDelay_after pos ordered, Fifo.countP_covers_le pos rs, ?_⟩
  intro r comes
  have units := units_after pos rs
  rw [hasFree_iff units, ← assign_after pos comes]
  have waits := Slots.lt_assign_iff units (le_refl r.start)
  have begins := Slots.le_assign units r.start
  constructor
  · intro free
    exact le_antisymm (not_lt.mp fun late => free (waits.mp late)) begins
  · intro prompt all
    exact (waits.mpr all).ne' prompt

/-- Five requests to two units, three of which come together. -/
def fiveRequests : List Request :=
  [⟨.ofNat 0, .ofNat 10⟩, ⟨.ofNat 0, .ofNat 4⟩, ⟨.ofNat 0, .ofNat 3⟩, ⟨.ofNat 8, .ofNat 0⟩, ⟨.ofNat 9, .ofNat 5⟩]

/-- The third of them waits for four units of time, and a sixth would find no unit free before the first is over. -/
theorem serves_as_queue_of_two :
    0 < 2 ∧ InTimeOrder fiveRequests ∧ InTimeOrder (fiveRequests ++ [⟨.ofNat 9, .ofNat 1⟩]) ∧
      completions 2 fiveRequests = [.ofNat 10, .ofNat 4, .ofNat 7, .ofNat 8, .ofNat 14] ∧
      (after 2 fiveRequests).stats.totalDelay.toNat = 4 ∧
      (∀ t, (Fifo.services 2 fiveRequests).countP (Service.covers t) ≤ 2) ∧
      (after 2 fiveRequests).hasFree (.ofNat 9) = false := by
  have ordered : InTimeOrder fiveRequests := by decide
  have comes : InTimeOrder (fiveRequests ++ [⟨.ofNat 9, .ofNat 1⟩]) := by decide
  obtain ⟨completed, delayed, bounded, free⟩ := serves_as_queue Nat.two_pos ordered
  refine ⟨Nat.two_pos, ordered, comes, completed.trans (by decide), delayed.trans (by decide), bounded, ?_⟩
  refine Bool.eq_false_iff.mpr fun found => ?_
  exact absurd ((free _ comes).mp found) (by decide)

end UnitPool

end CoreTiming
