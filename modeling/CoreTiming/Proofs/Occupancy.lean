import Mathlib.Data.List.Induction
import Mathlib.Data.List.Nodup
import CoreTiming.InOrder.StoreBuffer
import CoreTiming.Proofs.TimeOrder
import CoreTiming.UnitPool

/-!
# Which slot an occupant takes

Pools of units, load units and the store buffer keep the times at which their slots fall free, and give an occupant
the first slot that is free when it comes, or else the first of those that fall free earliest.  `Slots.assign_spec` says
what an occupant gets, and `Slots.assign_of_alike` that slots which are free when it comes may have fallen free at any
time before.

Two of the three look for the slot in ways of their own: a pool in one pass over its units, and the store buffer only
for addresses that it does not hold.  They agree with the load units all the same (`UnitPool.units_and_slots_agree`).
-/

namespace CoreTiming

/-! ## Section 1: The slot that is assigned -/

namespace Slots

variable {freeAt freeAt' : List Time} {start floor t : Time}

/-- The earliest slot is there, and none falls free before it. -/
theorem earliest_spec (slots : freeAt ≠ []) :
    ∃ u, freeAt[earliest freeAt]? = some u ∧ freeAt.foldl min .never = u ∧ ∀ v ∈ freeAt, u ≤ v := by
  obtain ⟨u, least⟩ := Option.isSome_iff_exists.mp (List.isSome_min?_of_ne_nil slots)
  have first : freeAt.foldl min .never = u := by
    rw [List.foldl_min, least]
    exact min_eq_right u.le_never
  obtain ⟨mem, le⟩ := List.min?_eq_some_iff.mp least
  refine ⟨u, ?_, first, le⟩
  unfold earliest
  rw [first, List.getElem?_idxOf mem]

/-- An occupant gets a slot that is free when it comes; or else it waits, but no other slot falls free before. -/
theorem assign_spec (slots : freeAt ≠ []) (start : Time) :
    ∃ u, freeAt[(assign freeAt start).1]? = some u ∧ (assign freeAt start).2 = max start u ∧
      (start < u → ∀ v ∈ freeAt, u ≤ v) := by
  unfold assign
  cases found : freeAt.findIdx? (· ≤ start) with
  | some i =>
    obtain ⟨inside, free, -⟩ := List.findIdx?_eq_some_iff_getElem.mp found
    have early : freeAt[i] ≤ start := of_decide_eq_true free
    exact ⟨freeAt[i], List.getElem?_eq_getElem inside, (max_eq_left early).symm, fun late => absurd early late.not_ge⟩
  | none =>
    obtain ⟨u, there, -, least⟩ := earliest_spec slots
    have late : start < u := by
      have busy := List.findIdx?_eq_none_iff.mp found u (List.mem_of_getElem? there)
      exact lt_of_not_ge (of_decide_eq_false busy)
    refine ⟨u, there, ?_, fun _ => least⟩
    rw [max_eq_right late.le]
    exact List.getD_eq_getElem?_getD.trans (by rw [there, Option.getD_some])

theorem le_assign (slots : freeAt ≠ []) (start : Time) : start ≤ (assign freeAt start).2 := by
  obtain ⟨u, -, moved, -⟩ := assign_spec slots start
  exact moved ▸ le_max_left _ _

/-- Slots that have fallen free by `floor` may have done so at any time before. -/
theorem assign_map_max (early : floor ≤ start) : assign (freeAt.map (max floor)) start = assign freeAt start := by
  have same : freeAt.findIdx? ((fun u => decide (u ≤ start)) ∘ max floor) = freeAt.findIdx? (· ≤ start) := by
    congr 1
    funext u
    exact decide_eq_decide.mpr (max_le_iff.trans (and_iff_right early))
  unfold assign
  rw [List.findIdx?_map, same]
  cases found : freeAt.findIdx? (· ≤ start) with
  | some i => rfl
  | none =>
    have unchanged : freeAt.map (max floor) = freeAt := by
      rw [List.map_congr_left (g := id), List.map_id]
      intro u mem
      have busy := of_decide_eq_false (List.findIdx?_eq_none_iff.mp found u mem)
      exact max_eq_right (early.trans (le_of_not_ge busy))
    rw [unchanged]

/-- The slots of two lists fall free at the same times, apart from those that have done so by `floor`. -/
def Alike (floor : Time) (freeAt freeAt' : List Time) : Prop := freeAt.map (max floor) = freeAt'.map (max floor)

theorem assign_of_alike (alike : Alike floor freeAt freeAt') (early : floor ≤ start) :
    assign freeAt start = assign freeAt' start := by
  rw [← assign_map_max early, alike, assign_map_max early]

theorem Alike.set (alike : Alike floor freeAt freeAt') (i : Nat) (t : Time) :
    Alike floor (freeAt.set i t) (freeAt'.set i t) := by
  unfold Alike at *
  rw [List.map_set, List.map_set, alike]

end Slots

/-! ## Section 2: The unit that a pool chooses -/

namespace UnitPool

variable {p : UnitPool} {l : List Time} {start duration : Time}

/-- The pass over the units stops at the first that is free. -/
theorem scan_of_free {k : Nat} (found : l.findIdx? (· ≤ start) = some k) (i best : Nat) (bestTime : Time) :
    ∃ u, l[k]? = some u ∧ u ≤ start ∧ scan start l i best bestTime = (i + k, u) := by
  induction l generalizing i best bestTime k with
  | nil => cases found
  | cons u rest ih =>
    unfold scan
    rw [List.findIdx?_cons] at found
    by_cases free : u ≤ start
    · rw [if_pos (decide_eq_true free)] at found
      obtain rfl := Option.some.inj found
      exact ⟨u, rfl, free, by rw [if_pos free, Nat.add_zero]⟩
    · rw [if_neg (by simpa using free)] at found
      obtain ⟨j, later, rfl⟩ := Option.map_eq_some_iff.mp found
      rw [if_neg free]
      split
      · obtain ⟨v, at_j, early, chosen⟩ := ih later (i + 1) i u
        exact ⟨v, at_j, early, by rw [chosen, Nat.add_right_comm, Nat.add_assoc]⟩
      · obtain ⟨v, at_j, early, chosen⟩ := ih later (i + 1) best bestTime
        exact ⟨v, at_j, early, by rw [chosen, Nat.add_right_comm, Nat.add_assoc]⟩

/-- If none is free, it ends with the first that becomes free earliest. -/
theorem scan_of_busy (busy : ∀ u ∈ l, start < u) (i best : Nat) (bestTime : Time) :
    scan start l i best bestTime = if l.foldl min bestTime < bestTime then
      (i + l.idxOf (l.foldl min bestTime), l.foldl min bestTime) else (best, bestTime) := by
  induction l generalizing i best bestTime with
  | nil => rw [List.foldl_nil, if_neg (lt_irrefl _)]; rfl
  | cons u rest ih =>
    have later := fun v mem => busy v (List.mem_cons_of_mem _ mem)
    unfold scan
    rw [if_neg (busy u List.mem_cons_self).not_ge, List.foldl_cons]
    split
    · rename_i earlier
      have least : rest.foldl min u ≤ u := by
        rw [List.foldl_min]
        exact min_le_left _ _
      rw [ih later, min_eq_right earlier.le, if_pos (least.trans_lt earlier)]
      split
      · rename_i further
        rw [List.idxOf_cons_ne rest further.ne', Nat.add_right_comm, Nat.add_assoc]
      · rename_i here
        rw [le_antisymm least (not_lt.mp here), List.idxOf_cons_self, Nat.add_zero]
    · rename_i later'
      have best_le := not_lt.mp later'
      rw [ih later, min_eq_left best_le]
      split
      · rename_i further
        rw [List.idxOf_cons_ne rest (further.trans_le best_le).ne', Nat.add_right_comm, Nat.add_assoc]
      · rfl

/-- A pool looks for a unit in its own way, and finds the one that a slot would be assigned of. -/
theorem choose_eq_assign (units : p.freeAt ≠ []) (start : Time) :
    (p.choose start).1 = (Slots.assign p.freeAt start).1 ∧
      max start (p.choose start).2 = (Slots.assign p.freeAt start).2 := by
  unfold choose Slots.assign
  cases found : p.freeAt.findIdx? (· ≤ start) with
  | some i =>
    obtain ⟨u, -, early, chosen⟩ := scan_of_free found 0 0 (p.freeAt.headD 0)
    rw [chosen]
    exact ⟨Nat.zero_add i, max_eq_left early⟩
  | none =>
    have busy : ∀ u ∈ p.freeAt, start < u := fun u mem =>
      lt_of_not_ge (of_decide_eq_false (List.findIdx?_eq_none_iff.mp found u mem))
    obtain ⟨u, there, first, least⟩ := Slots.earliest_spec units
    have chosen : scan start p.freeAt 0 0 (p.freeAt.headD 0) = (Slots.earliest p.freeAt, u) := by
      unfold Slots.earliest
      rw [scan_of_busy busy, first]
      obtain ⟨v, rest, split⟩ := List.exists_cons_of_ne_nil units
      rw [split] at first least ⊢
      have same : (v :: rest).foldl min v = u := by
        rw [← first, List.foldl_cons, List.foldl_cons, min_self, min_eq_right v.le_never]
      rw [List.headD_cons, same, Nat.zero_add]
      rcases (least v List.mem_cons_self).lt_or_eq with further | rfl
      · rw [if_pos further]
      · rw [if_neg (lt_irrefl _), List.idxOf_cons_self]
    have begins : p.freeAt.getD (Slots.earliest p.freeAt) 0 = u := by
      rw [List.getD_eq_getElem?_getD, there, Option.getD_some]
    rw [chosen, begins]
    exact ⟨rfl, max_eq_right (busy u (List.mem_of_getElem? there)).le⟩

/-- Serving a request that comes in time occupies a slot. -/
theorem serve_eq (units : p.freeAt ≠ []) (later : p.lastStart ≤ start) (duration : Time) :
    ∃ stats, p.serve start duration = ((Slots.assign p.freeAt start).2 + duration,
        { freeAt := p.freeAt.set (Slots.assign p.freeAt start).1 ((Slots.assign p.freeAt start).2 + duration)
          lastStart := start, stats }) ∧
      stats.totalDelay = p.stats.totalDelay + ((Slots.assign p.freeAt start).2 - start) ∧
      stats.outOfOrder = p.stats.outOfOrder := by
  obtain ⟨unit, begins⟩ := choose_eq_assign units start
  unfold serve
  rw [if_neg (by simpa using units), if_neg later.not_gt, ← unit, ← begins]
  exact ⟨_, rfl, rfl, rfl⟩

end UnitPool

/-! ## Section 3: Requests one after the other -/

/-- A request for a unit. -/
structure Request where
  /-- When it comes. -/
  start : Time
  /-- How long it keeps its unit. -/
  duration : Time
  deriving DecidableEq

/-- A store, which requests a slot of the store buffer. -/
structure Store extends Request where
  /-- The address that is stored to. -/
  address : Address
  deriving DecidableEq

/-- The requests come in the order of their times. -/
def InTimeOrder (rs : List Request) : Prop := rs.Pairwise fun r s => r.start ≤ s.start

instance (rs : List Request) : Decidable (InTimeOrder rs) := inferInstanceAs (Decidable (rs.Pairwise _))

/-- Gives inputs to a machine one after the other: what it answers, and what has become of it. -/
def replay {σ α β : Type} (step : σ → α → β × σ) (s : σ) (inputs : List α) : List β × σ :=
  inputs.foldl (fun (answers, s) a => (answers ++ [(step s a).1], (step s a).2)) ([], s)

theorem replay_concat {σ α β : Type} (step : σ → α → β × σ) (s : σ) (inputs : List α) (a : α) :
    replay step s (inputs ++ [a]) = ((replay step s inputs).1 ++ [(step (replay step s inputs).2 a).1],
      (step (replay step s inputs).2 a).2) := by
  unfold replay
  rw [List.foldl_concat]

theorem InTimeOrder.of_concat {rs : List Request} {r : Request} (h : InTimeOrder (rs ++ [r])) :
    InTimeOrder rs ∧ ∀ s ∈ rs, s.start ≤ r.start := by
  obtain ⟨front, -, all⟩ := List.pairwise_append.mp h
  exact ⟨front, fun s mem => all s mem r List.mem_cons_self⟩

namespace UnitPool

variable {n : Nat} {rs : List Request} {p : UnitPool} {start : Time}

/-- Serves a request and says when it is completed. -/
def complete (p : UnitPool) (r : Request) : Time × UnitPool := p.serve r.start r.duration

/-- The pool of `n` units after the requests. -/
def after (n : Nat) (rs : List Request) : UnitPool := (replay complete (new n) rs).2

/-- When the requests to a pool of `n` units are completed. -/
def completions (n : Nat) (rs : List Request) : List Time := (replay complete (new n) rs).1

theorem after_concat (n : Nat) (rs : List Request) (r : Request) :
    after n (rs ++ [r]) = ((after n rs).complete r).2 := by
  unfold after
  rw [replay_concat]

theorem completions_concat (n : Nat) (rs : List Request) (r : Request) :
    completions n (rs ++ [r]) = completions n rs ++ [((after n rs).complete r).1] := by
  unfold completions after
  rw [replay_concat]

/-- A request comes no later than it begins. -/
theorem lastStart_serve_le (later : p.lastStart ≤ start) (duration : Time) :
    (p.serve start duration).2.lastStart ≤ start := by
  unfold serve
  split
  · exact later
  · split
    · exact later
    · exact le_refl _

/-- The last request that a pool has served is one of those that have come. -/
theorem lastStart_after_le (ordered : InTimeOrder rs) (later : ∀ r ∈ rs, r.start ≤ start) :
    (after n rs).lastStart ≤ start := by
  induction rs using List.reverseRecOn generalizing start with
  | nil => exact Time.zero_le start
  | append_singleton rs r ih =>
    obtain ⟨front, before⟩ := ordered.of_concat
    rw [after_concat]
    exact (lastStart_serve_le (ih front before) _).trans (later r (List.mem_append_right _ List.mem_cons_self))

@[simp] theorem numUnits_after (n : Nat) (rs : List Request) : (after n rs).numUnits = n := by
  induction rs using List.reverseRecOn with
  | nil => exact numUnits_new n
  | append_singleton rs r ih => rw [after_concat, complete, numUnits_serve, ih]

theorem units_after (pos : 0 < n) (rs : List Request) : (after n rs).freeAt ≠ [] := by
  have number := numUnits_after n rs
  unfold numUnits at number
  rw [← List.length_pos_iff, number]
  exact pos

/-- A request that comes in time occupies the slot that is assigned to it. -/
theorem complete_after (pos : 0 < n) {r : Request} (ordered : InTimeOrder (rs ++ [r])) :
    ((after n rs).complete r).1 = (Slots.assign (after n rs).freeAt r.start).2 + r.duration ∧
      ((after n rs).complete r).2.freeAt = (after n rs).freeAt.set (Slots.assign (after n rs).freeAt r.start).1
        ((Slots.assign (after n rs).freeAt r.start).2 + r.duration) ∧
      ((after n rs).complete r).2.stats.totalDelay =
        (after n rs).stats.totalDelay + ((Slots.assign (after n rs).freeAt r.start).2 - r.start) := by
  obtain ⟨front, before⟩ := ordered.of_concat
  obtain ⟨stats, served, delay, -⟩ := serve_eq (units_after pos rs) (lastStart_after_le front before) r.duration
  unfold complete
  rw [served]
  exact ⟨rfl, rfl, delay⟩

end UnitPool

/-! ## Section 4: Load units and the store buffer serve as a pool does -/

/-- Executes a load and says when it is completed. -/
def LoadUnits.complete (u : LoadUnits) (r : Request) : Time × LoadUnits :=
  ((u.execute r.start r.duration).1 + r.duration, (u.execute r.start r.duration).2)

/-- Buffers a store and says when it is completed. -/
def StoreBuffer.complete (b : StoreBuffer) (s : Store) : Time × StoreBuffer :=
  ((b.execute s.start s.duration s.address).1 + s.duration, (b.execute s.start s.duration s.address).2)

namespace UnitPool

variable {n : Nat} {rs : List Request} {stores : List Store}

/-- Load units fall free when the units of a pool do. -/
theorem loadUnits_agree (pos : 0 < n) (ordered : InTimeOrder rs) :
    (replay LoadUnits.complete (.new n) rs).1 = completions n rs ∧
      (replay LoadUnits.complete (.new n) rs).2.freeAt = (after n rs).freeAt := by
  induction rs using List.reverseRecOn with
  | nil =>
    refine ⟨rfl, ?_⟩
    show List.replicate (max n 1) (0 : Time) = List.replicate n 0
    rw [max_eq_left (Nat.succ_le_of_lt pos)]
  | append_singleton rs r ih =>
    obtain ⟨answers, freeAt⟩ := ih ordered.of_concat.1
    obtain ⟨completed, occupied, -⟩ := complete_after pos ordered
    rw [replay_concat, completions_concat, after_concat, answers, completed, occupied, ← freeAt]
    exact ⟨rfl, rfl⟩

end UnitPool

namespace StoreBuffer

variable {b : StoreBuffer} {start duration : Time} {address : Address}

/-- The times at which the slots fall free. -/
def freeAt (b : StoreBuffer) : List Time := b.slots.map (·.freeAt)

theorem freeAt_place (i : Nat) : (b.place i start duration address).freeAt = b.freeAt.set i (start + duration) := by
  unfold freeAt place
  rw [List.map_set]

theorem find?_eq_none_iff : b.find? address = none ↔ ∀ s ∈ b.slots, s.address ≠ some address := by
  unfold find?
  rw [List.findIdx?_eq_none_iff]
  simp only [beq_eq_false_iff_ne, ne_eq]

/-- A store to an address that is not in the buffer occupies the slot that is assigned to it. -/
theorem complete_of_absent {s : Store} (absent : b.find? s.address = none) :
    b.complete s = ((Slots.assign b.freeAt s.start).2 + s.duration,
      b.place (Slots.assign b.freeAt s.start).1 (Slots.assign b.freeAt s.start).2 s.duration s.address) := by
  unfold complete execute
  rw [absent]
  rfl

/-- A placed store is all that is new. -/
theorem mem_place {i : Nat} {s : StoreSlot} (mem : s ∈ (b.place i start duration address).slots) :
    s ∈ b.slots ∨ s.address = some address := by
  rcases List.mem_or_eq_of_mem_set mem with mem | rfl
  · exact .inl mem
  · exact .inr rfl

end StoreBuffer

namespace UnitPool

variable {n : Nat} {stores : List Store}

/-- The slots of the store buffer fall free when the units of a pool do, as long as no address comes twice. -/
theorem storeBuffer_agrees (pos : 0 < n) (ordered : InTimeOrder (stores.map Store.toRequest))
    (distinct : (stores.map Store.address).Nodup) :
    (replay StoreBuffer.complete (.new n) stores).1 = completions n (stores.map Store.toRequest) ∧
      (replay StoreBuffer.complete (.new n) stores).2.freeAt = (after n (stores.map Store.toRequest)).freeAt ∧
      ∀ s ∈ (replay StoreBuffer.complete (.new n) stores).2.slots, ∀ a, s.address = some a →
        a ∈ stores.map Store.address := by
  induction stores using List.reverseRecOn with
  | nil =>
    refine ⟨rfl, ?_, ?_⟩
    · show (List.replicate (max n 1) ({} : StoreSlot)).map (·.freeAt) = List.replicate n 0
      rw [List.map_replicate, max_eq_left (Nat.succ_le_of_lt pos)]
    · intro s mem a tagged
      rw [List.eq_of_mem_replicate mem] at tagged
      cases tagged
  | append_singleton stores s ih =>
    rw [List.map_append, List.map_singleton] at ordered distinct ⊢
    obtain ⟨answers, freeAt, known⟩ := ih ordered.of_concat.1 (List.nodup_append.mp distinct).1
    obtain ⟨completed, occupied, -⟩ := complete_after pos ordered
    have absent : (replay StoreBuffer.complete (.new n) stores).2.find? s.address = none := by
      refine StoreBuffer.find?_eq_none_iff.mpr fun slot mem tagged => ?_
      exact (List.nodup_append.mp distinct).2.2 _ (known slot mem _ tagged) _ List.mem_cons_self rfl
    rw [replay_concat, completions_concat, after_concat, answers, completed, occupied, ← freeAt,
      StoreBuffer.complete_of_absent absent]
    refine ⟨rfl, StoreBuffer.freeAt_place _, fun slot mem a tagged => ?_⟩
    rw [List.map_append]
    rcases StoreBuffer.mem_place mem with old | new
    · exact List.mem_append_left _ (known slot old a tagged)
    · rw [new] at tagged
      rw [← Option.some.inj tagged]
      exact List.mem_append_right _ List.mem_cons_self

/-- A pool, load units and the store buffer, of equally many units or slots, complete requests that come in the order
of their times at the same times, if no two stores are to one address. -/
theorem units_and_slots_agree (pos : 0 < n) {rs : List Request} (ordered : InTimeOrder rs) :
    (replay LoadUnits.complete (.new n) rs).1 = (replay complete (new n) rs).1 ∧
      ∀ stores : List Store, stores.map Store.toRequest = rs → (stores.map Store.address).Nodup →
        (replay StoreBuffer.complete (.new n) stores).1 = (replay complete (new n) rs).1 := by
  refine ⟨(loadUnits_agree pos ordered).1, ?_⟩
  rintro stores rfl distinct
  exact (storeBuffer_agrees pos ordered distinct).1

/-- Four requests to two units.  The third waits for the unit of the second. -/
def fourStores : List Store :=
  [{ start := .ofNat 0, duration := .ofNat 10, address := 64 },
    { start := .ofNat 0, duration := .ofNat 4, address := 128 },
    { start := .ofNat 1, duration := .ofNat 3, address := 192 },
    { start := .ofNat 7, duration := .ofNat 0, address := 256 }]

/-- Two units of each kind serve them alike. -/
theorem units_and_slots_agree_on_four :
    0 < 2 ∧ InTimeOrder (fourStores.map Store.toRequest) ∧
      (replay complete (new 2) (fourStores.map Store.toRequest)).1 = [.ofNat 10, .ofNat 4, .ofNat 7, .ofNat 7] ∧
      (replay LoadUnits.complete (.new 2) (fourStores.map Store.toRequest)).1 =
        [.ofNat 10, .ofNat 4, .ofNat 7, .ofNat 7] ∧
      (replay StoreBuffer.complete (.new 2) fourStores).1 = [.ofNat 10, .ofNat 4, .ofNat 7, .ofNat 7] := by
  have ordered : InTimeOrder (fourStores.map Store.toRequest) := by decide
  have served : (replay complete (new 2) (fourStores.map Store.toRequest)).1 =
      [.ofNat 10, .ofNat 4, .ofNat 7, .ofNat 7] := by decide
  obtain ⟨loads, stores⟩ := units_and_slots_agree Nat.two_pos ordered
  refine ⟨Nat.two_pos, ordered, served, loads.trans served, (stores fourStores rfl ?_).trans served⟩
  decide

end UnitPool

end CoreTiming
