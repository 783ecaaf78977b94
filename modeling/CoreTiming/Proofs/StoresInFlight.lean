import CoreTiming.Proofs.LastWriters
import CoreTiming.Proofs.Room
import Mathlib.Data.List.Nodup
import Mathlib.Data.List.Perm.Subperm

/-!
# The stores in flight and the latest barrier

The plain meaning of the store table is a filter on the whole history: the stores in flight are those that have come and
whose numbers are not below the window, the youngest of a kind is the one with the greatest number.  The table itself
remembers much less.  It forgets stores at its front only, and a barrier never, but passes over one that is not above
the lowest number in the window.  While numbers grow and the window moves forward only, this makes no difference
(`StoreTable.Tracks`), and the table never needs more room than the widest window has (`StoreTable.Tracks.room`).

It follows that after each of any number of arrivals the table lists exactly the stores in flight, and that the arrival
has got exactly the producers that the history names (`StoreTable.tracks_stores_in_flight`).  The only thing that can go
wrong is that the list of producers which a micro-op has brought along is too long already.
-/

namespace CoreTiming

/-! ## Section 1: Room in a list and in a ring -/

theorem eraseDups_eq_self {qs : List Nat} (nodup : qs.Nodup) : qs.eraseDups = qs := by
  induction qs using List.reverseRecOn with
  | nil => rfl
  | append_singleton qs q ih =>
    have new : q ∉ qs := fun old => (List.nodup_append.mp nodup).2.2 q old q (List.mem_singleton_self q) rfl
    rw [eraseDups_concat, if_neg new, ih (List.nodup_append.mp nodup).1]

theorem Ring.exists_of_push {α : Type} {r : Ring α} (room : r.length < r.capacity) (x : α) :
    ∃ s, r.push x = .ok s := by
  unfold push isFull
  rw [if_neg (by simpa using room)]
  exact ⟨_, rfl⟩

namespace StoreTable

open RegisterTable (Arrival)

variable {t t' : StoreTable} {u : OpInstance} {a : Arrival} {as before : List Arrival} {capacity lowest later : Nat}
  {p : OpInstance → Bool} {q : Nat}

/-! ## Section 2: What happens when a micro-op is linked -/

theorem await_eq (u : OpInstance) (producer : Option Nat) :
    await u producer = producer.toList.foldlM (fun u q => u.addProducer q) u := by
  cases producer with
  | none => rfl
  | some q =>
    show u.addProducer q = (u.addProducer q >>= pure)
    rw [bind_pure]

/-- The stores that are left, and behind them `u` if it is one. -/
def recorded (t : StoreTable) (lowest : Nat) (u : OpInstance) : Except Fault (Ring StoreRecord) :=
  if u.op.isStore then (t.clean lowest).stores.push { seq := u.seq, address := u.address }
  else .ok (t.clean lowest).stores

/-- A store is recorded first; then the micro-op waits for what it has to wait for. -/
theorem link_eq (u : OpInstance) (lowest : Nat) (t : StoreTable) :
    link u lowest t = (do
      let stores ← t.recorded lowest u
      let u' ← (t.sought lowest u).foldlM (fun u q => u.addProducer q) u
      pure (u', { stores, fence := t.fenceAfter u })) := by
  have fence : (t.clean lowest).liveFence? lowest = t.liveFence? lowest := rfl
  unfold link sought fenceAfter recorded MicroOp.isBarrier
  simp only [await_eq, fence]
  by_cases load : u.op.isLoad
  · have store : u.op.isStore = false := by
      simp only [MicroOp.isLoad, MicroOp.isStore, beq_iff_eq] at load ⊢
      simp [load]
    simp only [load, store, if_true, List.foldlM_append, bind_assoc, Bool.not_true, Bool.and_false, Bool.false_and,
      Bool.false_eq_true, if_false]
    rfl
  · by_cases store : u.op.isStore
    · simp only [load, store, if_true, if_false, Bool.true_or, Bool.not_true, Bool.and_false, Bool.false_eq_true]
      rfl
    · by_cases isFence : u.op.fence
      · simp only [load, store, isFence, if_true, if_false, Bool.or_true, Bool.not_false, Bool.and_true,
          Bool.false_eq_true]
        rfl
      · simp only [load, store, isFence, if_false, Bool.or_false, Bool.false_and, Bool.false_eq_true]
        rfl

/-- If there is room for a store, a micro-op is linked, unless it waits for too many. -/
theorem link_cases (nodup : (t.sought lowest u).Nodup) (room : (t.clean lowest).stores.length < t.stores.capacity) :
    (∃ producers t', link u lowest t = .ok ({ u with producers }, t') ∧
      producers.toList = u.producers.toList ++ (t.sought lowest u).filter (· ∉ u.producers.toList)) ∨
    (maxProducers < u.producers.toList.length + ((t.sought lowest u).filter (· ∉ u.producers.toList)).length ∧
      ∃ q, link u lowest t = .error (.listFull "micro-op dependency list" maxProducers q)) := by
  have recorded : ∃ stores, t.recorded lowest u = .ok stores := by
    unfold recorded
    split
    · exact Ring.exists_of_push (by rw [capacity_clean]; exact room) _
    · exact ⟨_, rfl⟩
  obtain ⟨stores, recorded⟩ := recorded
  rw [link_eq, recorded]
  have outcome := u.addProducers_cases (t.sought lowest u)
  rw [eraseDups_eq_self (nodup.filter _)] at outcome
  rcases outcome with ⟨producers, went, list⟩ | ⟨many, q, stopped⟩
  · refine .inl ⟨producers, { stores, fence := t.fenceAfter u }, ?_, list⟩
    simp only [went]
    rfl
  · refine .inr ⟨many, q, ?_⟩
    simp only [stopped]
    rfl

/-! ## Section 3: What the history says -/

/-- The greatest number among those of `as` that satisfy `p`. -/
def youngest (p : OpInstance → Bool) (as : List Arrival) : Option Nat := ((as.filter (p ·.op)).map (·.op.seq)).max?

/-- The stores among `as` whose numbers are not below `lowest`. -/
def inFlight (lowest : Nat) (as : List Arrival) : List StoreRecord :=
  (as.filter fun a => a.op.op.isStore && lowest ≤ a.op.seq).map fun a => { seq := a.op.seq, address := a.op.address }

/-- The youngest store to `address` that is in flight. -/
def youngestStore (lowest : Nat) (address : Address) (as : List Arrival) : Option Nat :=
  youngest (fun u => (u.op.isStore && lowest ≤ u.seq) && u.address = address) as

/-- The latest barrier, if its number is above `lowest`. -/
def latestBarrier (lowest : Nat) (as : List Arrival) : Option Nat :=
  (youngest (·.op.isBarrier) as).filter (lowest < ·)

/-- What `a` has to wait for when it comes behind `before`: a load for the youngest store to its address and for the
latest barrier, a store or a barrier for the latest barrier only. -/
def gained (before : List Arrival) (a : Arrival) : List Nat :=
  if a.op.op.isLoad then
    (youngestStore a.lowest a.op.address before).toList ++ (latestBarrier a.lowest before).toList
  else if a.op.op.isStore || a.op.op.isBarrier then (latestBarrier a.lowest before).toList
  else []

/-- What `a` has to wait for fits beside what it waits for already. -/
def HasRoom (before : List Arrival) (a : Arrival) : Prop :=
  a.op.producers.toList.length + ((gained before a).filter (· ∉ a.op.producers.toList)).length ≤ maxProducers

instance (before : List Arrival) (a : Arrival) : Decidable (HasRoom before a) := inferInstanceAs (Decidable (_ ≤ _))

/-- Micro-ops arrive in the order of their numbers, the window moves forward only and never beyond the one that arrives,
and it is never wider than `capacity`. -/
structure InOrder (capacity : Nat) (as : List Arrival) : Prop where
  /-- Numbers grow. -/
  increasing : as.Pairwise (·.op.seq < ·.op.seq)
  /-- The window does not move back. -/
  forward : as.Pairwise (·.lowest ≤ ·.lowest)
  /-- Who arrives is in the window. -/
  inside : ∀ a ∈ as, a.lowest ≤ a.op.seq
  /-- Numbers are machine words. -/
  word : ∀ a ∈ as, a.op.seq ≤ Word.max
  /-- The table has room for a whole window. -/
  wide : ∀ a ∈ as, a.op.seq - a.lowest + 1 ≤ capacity

instance (capacity : Nat) (as : List Arrival) : Decidable (InOrder capacity as) :=
  decidable_of_iff (as.Pairwise (·.op.seq < ·.op.seq) ∧ as.Pairwise (·.lowest ≤ ·.lowest) ∧
      (∀ a ∈ as, a.lowest ≤ a.op.seq) ∧ (∀ a ∈ as, a.op.seq ≤ Word.max) ∧ ∀ a ∈ as, a.op.seq - a.lowest + 1 ≤ capacity)
    ⟨fun ⟨increasing, forward, inside, word, wide⟩ => ⟨increasing, forward, inside, word, wide⟩,
      fun h => ⟨h.increasing, h.forward, h.inside, h.word, h.wide⟩⟩

/-- What holds of a sequence holds of its beginning. -/
theorem InOrder.init (h : InOrder capacity (before ++ as)) : InOrder capacity before where
  increasing := (List.pairwise_append.mp h.increasing).1
  forward := (List.pairwise_append.mp h.forward).1
  inside := fun b hb => h.inside b (List.mem_append_left _ hb)
  word := fun b hb => h.word b (List.mem_append_left _ hb)
  wide := fun b hb => h.wide b (List.mem_append_left _ hb)

/-- Who has come before has a smaller number. -/
theorem InOrder.lt_last (h : InOrder capacity (before ++ [a])) {b : Arrival} (hb : b ∈ before) :
    b.op.seq < a.op.seq :=
  (List.pairwise_append.mp h.increasing).2.2 b hb a (List.mem_singleton_self a)

theorem exists_of_youngest (h : youngest p as = some q) : ∃ a ∈ as, p a.op = true ∧ a.op.seq = q := by
  obtain ⟨a, listed, number⟩ := List.mem_map.mp (List.max?_mem h)
  obtain ⟨mem, holds⟩ := List.mem_filter.mp listed
  exact ⟨a, mem, holds, number⟩

/-- The last of several numbers that grow is the greatest. -/
theorem youngest_concat (increasing : (as ++ [a]).Pairwise (·.op.seq < ·.op.seq)) :
    youngest p (as ++ [a]) = if p a.op then some a.op.seq else youngest p as := by
  unfold youngest
  rw [List.filter_append, List.map_append]
  by_cases holds : p a.op
  · rw [if_pos holds, List.filter_cons_of_pos (by simpa using holds)]
    apply List.max?_eq_some_iff.mpr
    refine ⟨by simp, ?_⟩
    intro n hn
    rcases List.mem_append.mp hn with old | last
    · obtain ⟨b, hb, rfl⟩ := List.mem_map.mp old
      have earlier := (List.pairwise_append.mp increasing).2.2 b (List.mem_of_mem_filter hb) a (by simp)
      exact Nat.le_of_lt earlier
    · rw [List.mem_singleton.mp last]
  · rw [if_neg holds, List.filter_cons_of_neg (by simpa using holds)]
    simp

/-- So the youngest is the first that is met from the end. -/
theorem youngest_eq (increasing : as.Pairwise (·.op.seq < ·.op.seq)) (p : OpInstance → Bool) :
    youngest p as = (as.reverse.find? (p ·.op)).map (·.op.seq) := by
  induction as using List.reverseRecOn with
  | nil => rfl
  | append_singleton as a ih =>
    rw [youngest_concat increasing, List.reverse_append, List.reverse_singleton, List.singleton_append,
      List.find?_cons, ih (List.pairwise_append.mp increasing).1]
    cases p a.op <;> rfl

/-- Only the largest number stands for nobody, and it has nothing behind it. -/
theorem InOrder.bind_seq? (h : InOrder capacity (before ++ [a])) (p : OpInstance → Bool) :
    (youngest p before).bind seq? = youngest p before := by
  cases found : youngest p before with
  | none => rfl
  | some q =>
    obtain ⟨b, hb, -, rfl⟩ := exists_of_youngest found
    have earlier := h.lt_last hb
    have word := h.word a (by simp)
    have proper : b.op.seq ≠ noSeq := by
      unfold noSeq
      omega
    simp [seq?, proper]

theorem inFlight_concat (inside : lowest ≤ a.op.seq) :
    inFlight lowest (as ++ [a]) =
      inFlight lowest as ++ if a.op.op.isStore then [{ seq := a.op.seq, address := a.op.address }] else [] := by
  unfold inFlight
  rw [List.filter_append, List.map_append]
  cases store : a.op.op.isStore <;> simp [store, inside]

theorem pairwise_inFlight (increasing : as.Pairwise (·.op.seq < ·.op.seq)) (lowest : Nat) :
    (inFlight lowest as).Pairwise (·.seq < ·.seq) :=
  List.pairwise_map.mpr (increasing.sublist List.filter_sublist)

/-- Stores that have left a window do not come back into a later one. -/
theorem inFlight_of_le (forward : lowest ≤ later) (as : List Arrival) :
    inFlight later as = (inFlight lowest as).filter (later ≤ ·.seq) := by
  unfold inFlight
  rw [List.filter_map, List.filter_filter]
  apply congrArg
  apply List.filter_congr
  intro b _
  by_cases within : later ≤ b.op.seq
  · simp [within, Nat.le_trans forward within]
  · simp [within]

/-- Among numbers that grow, those that are too small come first. -/
theorem dropWhile_eq_filter {stores : List StoreRecord} (increasing : stores.Pairwise (·.seq < ·.seq)) (lowest : Nat) :
    stores.dropWhile (·.seq < lowest) = stores.filter (lowest ≤ ·.seq) := by
  induction stores with
  | nil => rfl
  | cons s stores ih =>
    obtain ⟨least, increasing⟩ := List.pairwise_cons.mp increasing
    by_cases old : s.seq < lowest
    · rw [List.dropWhile_cons_of_pos (by simpa using old), List.filter_cons_of_neg (by simpa using old), ih increasing]
    · rw [List.dropWhile_cons_of_neg (by simpa using old)]
      apply Eq.symm
      apply List.filter_eq_self.mpr
      intro s' hs'
      rcases List.mem_cons.mp hs' with rfl | hs'
      · simpa using old
      · have := least s' hs'
        simp only [decide_eq_true_eq]
        omega

/-- Before `a` comes, fewer stores are in flight than its window is wide. -/
theorem InOrder.length_inFlight_lt (h : InOrder capacity (before ++ [a])) :
    (inFlight a.lowest before).length < capacity := by
  have nodup : ((inFlight a.lowest before).map (·.seq)).Nodup := by
    apply List.pairwise_map.mpr
    exact (pairwise_inFlight h.init.increasing a.lowest).imp Nat.ne_of_lt
  have within : (inFlight a.lowest before).map (·.seq) ⊆ List.range' a.lowest (a.op.seq - a.lowest) := by
    intro n hn
    obtain ⟨s, hs, rfl⟩ := List.mem_map.mp hn
    obtain ⟨b, hb, rfl⟩ := List.mem_map.mp hs
    obtain ⟨mem, live⟩ := List.mem_filter.mp hb
    have earlier := h.lt_last mem
    simp only [Bool.and_eq_true, decide_eq_true_eq] at live
    apply List.mem_range'_1.mpr
    show a.lowest ≤ b.op.seq ∧ b.op.seq < _
    omega
  -- as many different numbers as the window is wide, at most
  have few := (nodup.subperm within).length_le
  rw [List.length_map, List.length_range'] at few
  have wide := h.wide a (by simp)
  omega

/-! ## Section 4: What the table and the history agree on -/

/-- The table has seen `as`, and `lowest` is the lowest number in the window. -/
structure Tracks (t : StoreTable) (capacity lowest : Nat) (as : List Arrival) : Prop where
  /-- There is room for a window. -/
  capacity_eq : t.stores.capacity = capacity
  /-- Exactly the stores in flight are listed. -/
  stores_eq : t.stores.toList = inFlight lowest as
  /-- The fence is the latest barrier, in flight or not. -/
  fence_eq : t.fence = (youngest (·.op.isBarrier) as).bind seq?

theorem tracks_new (capacity : Nat) : (new capacity).Tracks capacity 0 [] := ⟨rfl, rfl, rfl⟩

/-- Only stores that the window has left behind are forgotten. -/
theorem Tracks.clean (h : t.Tracks capacity lowest as) (increasing : as.Pairwise (·.op.seq < ·.op.seq))
    (forward : lowest ≤ later) : (t.clean later).Tracks capacity later as where
  capacity_eq := by rw [capacity_clean, h.capacity_eq]
  stores_eq := by
    rw [toList_clean, h.stores_eq, dropWhile_eq_filter (pairwise_inFlight increasing lowest), inFlight_of_le forward]
  fence_eq := h.fence_eq

/-- A look-up finds the youngest store in flight to an address. -/
theorem Tracks.find?_eq (h : t.Tracks capacity lowest as) (increasing : as.Pairwise (·.op.seq < ·.op.seq))
    (address : Address) : t.find? address = (youngestStore lowest address as).bind seq? := by
  rw [StoreTable.find?_eq, h.stores_eq, youngestStore, youngest_eq increasing]
  unfold inFlight
  rw [← List.map_reverse, List.find?_map, ← List.filter_reverse, List.find?_filter, Option.bind_map, Option.bind_map]
  simp only [Bool.decide_and, Bool.decide_eq_true]
  rfl

theorem Tracks.sought_eq (h : t.Tracks capacity lowest before) (order : InOrder capacity (before ++ [a]))
    (forward : lowest ≤ a.lowest) : t.sought a.lowest a.op = gained before a := by
  have store : (t.clean a.lowest).find? a.op.address = youngestStore a.lowest a.op.address before := by
    rw [(h.clean order.init.increasing forward).find?_eq order.init.increasing]
    exact order.bind_seq? _
  have barrier : t.liveFence? a.lowest = latestBarrier a.lowest before := by
    unfold liveFence? latestBarrier
    rw [h.fence_eq, order.bind_seq?]
  unfold sought gained MicroOp.isBarrier
  rw [store, barrier]
  by_cases load : a.op.op.isLoad
  · rw [if_pos load, if_pos load]
  · rw [if_neg load, if_neg load]
    cases a.op.op.isStore <;> cases a.op.op.fence <;> simp [load]

/-- A store and a barrier are two. -/
theorem InOrder.nodup_gained (order : InOrder capacity (before ++ [a])) : (gained before a).Nodup := by
  have two : ∀ q ∈ youngestStore a.lowest a.op.address before, ∀ r ∈ latestBarrier a.lowest before, q ≠ r := by
    rintro q store r barrier rfl
    obtain ⟨b, hb, isStore, rfl⟩ := exists_of_youngest store
    obtain ⟨c, hc, isBarrier, same⟩ := exists_of_youngest (Option.filter_eq_some_iff.mp barrier).1
    have numbers : (before.map (·.op.seq)).Nodup :=
      List.pairwise_map.mpr (order.init.increasing.imp Nat.ne_of_lt)
    -- with one number they would be one micro-op, and a barrier is no store
    cases List.inj_on_of_nodup_map numbers hc hb same
    simp only [Bool.and_eq_true] at isStore
    simp [MicroOp.isBarrier, isStore.1.1] at isBarrier
  unfold gained
  split
  · apply List.nodup_append.mpr
    refine ⟨Option.toList_nodup _, Option.toList_nodup _, ?_⟩
    intro q store r barrier
    exact two q (Option.mem_toList.mp store) r (Option.mem_toList.mp barrier)
  split
  · exact Option.toList_nodup _
  · exact List.nodup_nil

/-- The table and the history still agree when a micro-op has been linked. -/
theorem Tracks.of_link (h : t.Tracks capacity lowest before) (order : InOrder capacity (before ++ [a]))
    (forward : lowest ≤ a.lowest) {u' : OpInstance} (linked : link a.op a.lowest t = .ok (u', t')) :
    t'.Tracks capacity a.lowest (before ++ [a]) := by
  obtain ⟨-, stores, fence⟩ := link_eq_ok linked
  refine ⟨by rw [capacity_link linked, h.capacity_eq], ?_, ?_⟩
  · rw [stores, storesAfter, (h.clean order.init.increasing forward).stores_eq,
      inFlight_concat (order.inside a (by simp))]
  · rw [fence, fenceAfter, youngest_concat order.increasing, h.fence_eq]
    split <;> rfl

/-- There is room for another store once those that have left the window are forgotten. -/
theorem Tracks.room (h : t.Tracks capacity lowest before) (order : InOrder capacity (before ++ [a]))
    (forward : lowest ≤ a.lowest) : (t.clean a.lowest).stores.length < t.stores.capacity := by
  rw [← Ring.length_toList, (h.clean order.init.increasing forward).stores_eq, h.capacity_eq]
  exact order.length_inFlight_lt

/-- What has become of `a`, which came behind `before`: the micro-op and the table. -/
structure Linked (capacity : Nat) (before : List Arrival) (a : Arrival) (result : OpInstance × StoreTable) : Prop where
  /-- It has got exactly the producers that it has to wait for. -/
  gains : ∃ producers, result.1 = { a.op with producers } ∧
    producers.toList = a.op.producers.toList ++ (gained before a).filter (· ∉ a.op.producers.toList)
  /-- The table has seen it. -/
  tracks : result.2.Tracks capacity a.lowest (before ++ [a])

theorem Tracks.link_cases (h : t.Tracks capacity lowest before) (order : InOrder capacity (before ++ [a]))
    (forward : lowest ≤ a.lowest) :
    (∃ result, link a.op a.lowest t = .ok result ∧ Linked capacity before a result) ∨
    (¬HasRoom before a ∧
      ∃ q, link a.op a.lowest t = .error (.listFull "micro-op dependency list" maxProducers q)) := by
  have sought := h.sought_eq order forward
  have nodup : (t.sought a.lowest a.op).Nodup := by
    rw [sought]
    exact order.nodup_gained
  rcases StoreTable.link_cases nodup (h.room order forward) with ⟨producers, t', linked, listed⟩ | ⟨many, stopped⟩
  · rw [sought] at listed
    exact .inl ⟨_, linked, ⟨producers, rfl, listed⟩, h.of_link order forward linked⟩
  · rw [sought] at many
    exact .inr ⟨Nat.not_le_of_lt many, stopped⟩

/-- Whoever has got its producers had room for them. -/
theorem Linked.hasRoom {result : OpInstance × StoreTable} (h : Linked capacity before a result) : HasRoom before a := by
  obtain ⟨producers, -, listed⟩ := h.gains
  have fits := producers.length_le
  rw [listed, List.length_append] at fits
  exact fits

/-- There are at most a store and a barrier to wait for. -/
theorem hasRoom_of_few (before : List Arrival) (few : a.op.producers.toList.length + 2 ≤ maxProducers) :
    HasRoom before a := by
  have two : (gained before a).length ≤ 2 := by
    have one : ∀ o : Option Nat, o.toList.length ≤ 1 := by
      intro o
      cases o <;> simp
    have := one (youngestStore a.lowest a.op.address before)
    have := one (latestBarrier a.lowest before)
    unfold gained
    split
    · rw [List.length_append]
      omega
    split
    · omega
    · exact Nat.zero_le 2
  have new := List.length_filter_le (· ∉ a.op.producers.toList) (gained before a)
  unfold HasRoom
  omega

/-! ## Section 5: Any number of arrivals -/

/-- Links one micro-op after the other, and keeps each with the table as it is afterwards. -/
def linkAll (t : StoreTable) : List Arrival → Except Fault (List (OpInstance × StoreTable))
  | [] => .ok []
  | a :: as => do
    let linked ← link a.op a.lowest t
    let rest ← linkAll linked.2 as
    pure (linked :: rest)

theorem linkAll_cons {first : OpInstance × StoreTable} (linked : link a.op a.lowest t = .ok first) (as : List Arrival) :
    linkAll t (a :: as) = (linkAll first.2 as).map (first :: ·) := by
  rw [linkAll, linked]
  rfl

/-- All are linked, or one has no room for what it has to wait for. -/
theorem Tracks.linkAll_cases (h : t.Tracks capacity lowest before) (order : InOrder capacity (before ++ as))
    (forward : ∀ a ∈ as, lowest ≤ a.lowest) :
    (∃ done, linkAll t as = .ok done ∧ done.length = as.length ∧ ∀ k (_ : k < as.length), ∃ result,
      done[k]? = some result ∧ Linked capacity (before ++ as.take k) as[k] result) ∨
    ((∃ k, ∃ _ : k < as.length, ¬HasRoom (before ++ as.take k) as[k]) ∧
      ∃ q, linkAll t as = .error (.listFull "micro-op dependency list" maxProducers q)) := by
  -- on those that are still to come; the table has seen those that came before
  induction as generalizing t lowest before with
  | nil => exact .inl ⟨[], rfl, rfl, fun k none => absurd none (Nat.not_lt_zero k)⟩
  | cons a as ih =>
    rw [← List.singleton_append, ← List.append_assoc] at order
    rcases h.link_cases order.init (forward a List.mem_cons_self) with ⟨first, linked, has⟩ | ⟨full, q, stopped⟩
    · have onward : ∀ b ∈ as, a.lowest ≤ b.lowest := by
        intro b hb
        exact (List.pairwise_append.mp order.forward).2.2 a (by simp) b hb
      rcases ih has.tracks order onward with ⟨rest, went, length, each⟩ | ⟨⟨k, inside, full⟩, q, stopped⟩
      · refine .inl ⟨first :: rest, ?_, by rw [List.length_cons, List.length_cons, length], ?_⟩
        · rw [linkAll_cons linked, went]
          rfl
        · intro k inside
          cases k with
          | zero => exact ⟨first, rfl, by simpa using has⟩
          | succ k =>
            have := each k (Nat.lt_of_succ_lt_succ inside)
            rw [List.append_assoc, List.singleton_append] at this
            exact this
      · refine .inr ⟨⟨k + 1, Nat.succ_lt_succ inside, ?_⟩, q, ?_⟩
        · rw [List.append_assoc, List.singleton_append] at full
          exact full
        · rw [linkAll_cons linked, stopped]
          rfl
    · refine .inr ⟨⟨0, Nat.succ_pos _, by simpa using full⟩, q, ?_⟩
      rw [linkAll, stopped]
      rfl

theorem getD_bind_seq? (o : Option Nat) : (o.bind seq?).getD noSeq = o.getD noSeq := by
  cases o with
  | none => rfl
  | some q => by_cases largest : q = noSeq <;> simp [seq?, largest]

/-- However many micro-ops arrive: after each of them the table lists exactly the stores in flight, in the order of
their numbers; a look-up finds the youngest of them to an address; and what the micro-op has been given to wait for is,
each once, what the history names and it has not waited for already.  Nothing stops this but a micro-op that waits for so
many already that the list of its producers overflows, which cannot happen to one that waits for at most twelve. -/
theorem tracks_stores_in_flight (capacity : Nat) (as : List Arrival) (order : InOrder capacity as) :
    ((∀ k (_ : k < as.length), HasRoom (as.take k) as[k]) →
      ∃ done, linkAll (new capacity) as = .ok done ∧ done.length = as.length ∧
        ∀ k (_ : k < as.length), ∃ producers t, done[k]? = some ({ as[k].op with producers }, t) ∧
          producers.toList = as[k].op.producers.toList ++
            (gained (as.take k) as[k]).filter (· ∉ as[k].op.producers.toList) ∧
          t.stores.toList = inFlight as[k].lowest (as.take (k + 1)) ∧
          t.stores.toList.Pairwise (·.seq < ·.seq) ∧
          ∀ address, (t.find? address).getD noSeq =
            (youngestStore as[k].lowest address (as.take (k + 1))).getD noSeq) ∧
    ((∃ k, ∃ _ : k < as.length, ¬HasRoom (as.take k) as[k]) →
      ∃ q, linkAll (new capacity) as = .error (.listFull "micro-op dependency list" maxProducers q)) ∧
    ∀ before (a : Arrival), a.op.producers.toList.length + 2 ≤ maxProducers → HasRoom before a := by
  have outcome := (tracks_new capacity).linkAll_cases order fun a _ => Nat.zero_le a.lowest
  simp only [List.nil_append] at outcome
  refine ⟨?_, ?_, fun before a => hasRoom_of_few before⟩
  · intro room
    rcases outcome with ⟨done, went, length, each⟩ | ⟨⟨k, inside, full⟩, -⟩
    · refine ⟨done, went, length, ?_⟩
      intro k inside
      obtain ⟨⟨u, t⟩, at_k, ⟨producers, rfl, listed⟩, tracks⟩ := each k inside
      rw [← List.take_succ_eq_append_getElem inside] at tracks
      have increasing : (as.take (k + 1)).Pairwise (·.op.seq < ·.op.seq) :=
        order.increasing.sublist (List.take_sublist _ _)
      refine ⟨producers, t, at_k, listed, tracks.stores_eq, ?_, ?_⟩
      · rw [tracks.stores_eq]
        exact pairwise_inFlight increasing _
      · intro address
        rw [tracks.find?_eq increasing, getD_bind_seq?]
    · exact absurd (room k inside) full
  · rintro ⟨k, inside, full⟩
    rcases outcome with ⟨done, -, -, each⟩ | ⟨-, stopped⟩
    · obtain ⟨result, -, linked⟩ := each k inside
      exact absurd linked.hasRoom full
    · exact stopped

/-- The arrival of a micro-op that accesses `address`, and waits for `producers` already. -/
def arrival (seq lowest : Nat) (kind : OpKind) (fence : Bool) (address : Address)
    (producers : BoundedList maxProducers) : Arrival where
  op := { op := { kind, fence }, seq, address, producers }
  lowest := lowest

/-- Two barriers, stores to one address of which one is a fence as well, and loads from it while the window moves on;
the second load waits for the second barrier already. -/
def fencedArrivals : List Arrival :=
  [arrival 2 0 .execute true 0 .empty, arrival 3 0 .store false 64 .empty, arrival 5 2 .store true 64 .empty,
    arrival 6 2 .load true 64 .empty, arrival 8 3 .branch true 0 .empty, arrival 9 5 .load false 64 ⟨[8], by decide⟩,
    arrival 10 6 .load false 64 .empty]

theorem tracks_fencedArrivals :
    InOrder 6 fencedArrivals ∧ ∃ done, linkAll (new 6) fencedArrivals = .ok done ∧
      (∃ u t, done[3]? = some (u, t) ∧ u.producers.toList = [5] ∧ t.stores.toList = [⟨3, 64⟩, ⟨5, 64⟩]) ∧
      (∃ u t, done[5]? = some (u, t) ∧ u.producers.toList = [8, 5] ∧ (t.find? 64).getD noSeq = 5) ∧
      ∃ u t, done[6]? = some (u, t) ∧ u.producers.toList = [8] ∧ (t.find? 64).getD noSeq = noSeq := by
  have order : InOrder 6 fencedArrivals := by decide
  apply And.intro order
  obtain ⟨linked, -⟩ := tracks_stores_in_flight 6 fencedArrivals order
  obtain ⟨done, went, -, each⟩ := linked (by decide)
  refine ⟨done, went, ?_, ?_, ?_⟩
  · obtain ⟨producers, t, at_3, listed, stores, -⟩ := each 3 (by decide)
    exact ⟨_, t, at_3, listed, stores⟩
  · obtain ⟨producers, t, at_5, listed, -, -, found⟩ := each 5 (by decide)
    exact ⟨_, t, at_5, listed, found 64⟩
  · obtain ⟨producers, t, at_6, listed, -, -, found⟩ := each 6 (by decide)
    exact ⟨_, t, at_6, listed, found 64⟩

end StoreTable

end CoreTiming
