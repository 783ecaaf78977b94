import CoreTiming.Proofs.Positions

/-!
# What the tables of a thread know

The register table names the youngest writer of each register in the window, the store table the
stores in the window.  Both may also name micro-ops that have left; those carry lower numbers than
everything in the ring and are ignored.  `Account.Tabled` is the invariant.
-/

namespace CoreTiming

/-! ## Section 1: The youngest micro-op of a kind -/

/-- `j` is the youngest position before `k` whose micro-op satisfies `p`. -/
structure Youngest (prog : List OpInstance) (p : OpInstance → Prop) (k j : Nat) : Prop where
  /-- It is older than `k`. -/
  before : j < k
  /-- Its micro-op satisfies `p`. -/
  holds : ∃ u, prog[j]? = some u ∧ p u
  /-- No micro-op between `j` and `k` does. -/
  last : ∀ (m : Nat) (u : OpInstance), j < m → m < k → prog[m]? = some u → ¬p u

namespace OpInstance

/-- The micro-op writes register `r`. -/
def Writes (r : Register) (u : OpInstance) : Prop := r ∈ u.op.destinations

/-- The micro-op stores to the address. -/
def StoresTo (address : Address) (u : OpInstance) : Prop :=
  u.op.isStore = true ∧ u.address = address

end OpInstance

namespace Youngest

variable {prog : List OpInstance} {p : OpInstance → Prop} {u : OpInstance} {j k : Nat}

/-- What is pushed later does not count. -/
theorem of_append (h : Youngest (prog ++ [u]) p k j) (hk : k ≤ prog.length) : Youngest prog p k j := by
  have hjk := h.before
  refine ⟨hjk, ?_, fun m v hjm hmk hm => ?_⟩
  · obtain ⟨v, hv, pv⟩ := h.holds
    rw [List.getElem?_append_left (by omega)] at hv
    exact ⟨v, hv, pv⟩
  · refine h.last m v hjm hmk ?_
    rw [List.getElem?_append_left (by omega)]
    exact hm

/-- Up to the next position, the youngest one is the last one or what it was before. -/
theorem of_succ (h : Youngest prog p (k + 1) j) :
    j = k ∨ (Youngest prog p k j ∧ ∀ u, prog[k]? = some u → ¬p u) := by
  by_cases last : j = k
  · exact .inl last
  · have hjk := h.before
    exact .inr ⟨⟨by omega, h.holds, fun m u hjm hmk => h.last m u hjm (by omega)⟩,
      fun u hu => h.last k u (by omega) (by omega) hu⟩

end Youngest

/-! ## Section 2: The stores in the window -/

/-- What the store table keeps of an entry. -/
def Entry.storeRecord? (e : Entry) : Option StoreRecord :=
  if e.u.op.isStore then some { seq := e.seq, address := e.u.address } else none

theorem Entry.SameOp.storeRecord?_eq {e e' : Entry} (h : e.SameOp e') :
    e'.storeRecord? = e.storeRecord? := by
  unfold storeRecord?
  rw [h.op_eq, h.address_eq, h.seq_eq]

theorem Entry.storeRecord?_eq_some {e : Entry} {s : StoreRecord} :
    e.storeRecord? = some s ↔ e.u.op.isStore = true ∧ { seq := e.seq, address := e.u.address } = s := by
  unfold storeRecord?
  split
  · rename_i store
    rw [Option.some.injEq]
    exact (and_iff_right store).symm
  · rename_i other
    simp [other]

/-- What the store table keeps of several entries. -/
def storeRecords (es : List Entry) : List StoreRecord := es.filterMap Entry.storeRecord?

theorem mem_storeRecords {es : List Entry} {s : StoreRecord} :
    s ∈ storeRecords es ↔ ∃ e ∈ es, e.u.op.isStore = true ∧ { seq := e.seq, address := e.u.address } = s := by
  unfold storeRecords
  simp only [List.mem_filterMap, Entry.storeRecord?_eq_some]

theorem storeRecords_append (es es' : List Entry) :
    storeRecords (es ++ es') = storeRecords es ++ storeRecords es' :=
  List.filterMap_append

theorem storeRecords_eq {es es' : List Entry} (h : Pointwise Entry.SameOp es es') :
    storeRecords es' = storeRecords es := by
  have same : es'.map Entry.storeRecord? = es.map Entry.storeRecord? :=
    h.map_eq fun _ _ => Entry.SameOp.storeRecord?_eq
  have general : ∀ xs : List Entry, storeRecords xs = (xs.map Entry.storeRecord?).filterMap id := by
    intro xs
    rw [List.filterMap_map]
    rfl
  rw [general, general, same]

namespace Account

variable {config : Config} {a b : Account} {e : Entry}

/-- The entries in the window. -/
def window (a : Account) : List Entry := (a.entries.drop a.retired.length).take a.thread.inWindow

theorem getElem?_window {i : Nat} (h : i < a.thread.inWindow) :
    a.window[i]? = a.entries[a.retired.length + i]? := by
  unfold window
  rw [List.getElem?_take_of_lt h, List.getElem?_drop]

theorem InOrder.length_window (h : InOrder config a) : a.window.length = a.thread.inWindow := by
  have := h.edge_le
  unfold edge at this
  unfold window
  rw [List.length_take, List.length_drop]
  omega

/-- Where what is in the window stands. -/
theorem InOrder.entry_of_window (h : InOrder config a) {i : Nat} (at_i : a.window[i]? = some e) :
    i < a.thread.inWindow ∧ a.entries[a.retired.length + i]? = some e := by
  have inside := (List.getElem?_eq_some_iff.mp at_i).1
  rw [h.length_window] at inside
  exact ⟨inside, getElem?_window inside ▸ at_i⟩

/-- The stores of the window are on record under the numbers of the window. -/
theorem InOrder.seq_of_record (h : InOrder config a) {s : StoreRecord} (mem : s ∈ storeRecords a.window) :
    a.thread.base ≤ s.seq ∧ s.seq < a.thread.base + a.thread.inWindow := by
  obtain ⟨e, held, -, rfl⟩ := mem_storeRecords.mp mem
  obtain ⟨i, at_i⟩ := List.getElem?_of_mem held
  obtain ⟨inside, here⟩ := h.entry_of_window at_i
  have := h.seq_of_le (Nat.le_add_right _ _) here
  show a.thread.base ≤ e.seq ∧ e.seq < _
  omega

/-! ## Section 3: The invariant -/

/-- The tables know what is in the window. -/
structure Tabled (a : Account) : Prop where
  /-- There is a slot for each register that is tracked. -/
  size : a.thread.registers.writers.size = numRegisters
  /-- The youngest writer of a register is on record while it is in the window. -/
  writers : ∀ (r : Register) (j : Nat) (p : Entry), r < numRegisters → a.retired.length ≤ j →
    Youngest a.pushed (OpInstance.Writes r) a.edge j → a.entries[j]? = some p →
      a.thread.registers.live? r a.thread.base = some p.seq
  /-- Writers on record are no younger than the window. -/
  writers_lt : ∀ (r : Register) (q : Nat), a.thread.registers.live? r a.thread.base = some q →
    q < a.thread.base + a.thread.inWindow
  /-- The stores in the window are on record, behind some that have left. -/
  stores : ∃ old : List StoreRecord, (∀ s ∈ old, s.seq < a.thread.base) ∧
    a.thread.stores.stores.toList = old ++ storeRecords a.window
  /-- The fence on record is no younger than the window. -/
  fence_lt : ∀ q, a.thread.stores.fence = some q → q < a.thread.base + a.thread.inWindow

theorem tabled_of_empty {a : Account} (registers : a.thread.registers = .empty)
    (stores : a.thread.stores.stores.toList = []) (fence : a.thread.stores.fence = none)
    (inWindow : a.thread.inWindow = 0) : Tabled a := by
  refine ⟨?_, ?_, ?_, ⟨[], ?_, ?_⟩, ?_⟩
  · rw [registers]
    exact RegisterTable.size_empty
  · intro r j p _ inRing youngest _
    have := youngest.before
    unfold edge at this
    omega
  · intro r q live
    rw [registers, RegisterTable.live?_empty] at live
    cases live
  · intro s hs
    cases hs
  · rw [stores]
    unfold window
    rw [inWindow, List.take_zero]
    rfl
  · intro q hq
    rw [fence] at hq
    cases hq

theorem tabled_new {clock : Clock} {th : Thread} {predictor : Option Predictor} {windowSize : Nat}
    {loadHistogram : Bool} (made : Thread.new windowSize loadHistogram predictor = .ok th) :
    Tabled { clock, thread := th } := by
  obtain ⟨capacity, rfl⟩ := Thread.new_eq_ok made
  exact tabled_of_empty rfl rfl rfl rfl

/-- If only entries change, and no micro-op does, the tables know what they knew. -/
theorem Tabled.of_sameBooks (h : Tabled a) (same : a.SameBooks b)
    (ops : Pointwise Entry.SameOp a.entries b.entries) : Tabled b := by
  have edge := same.edge_eq
  refine ⟨?_, ?_, ?_, ?_, ?_⟩
  · rw [same.registers]
    exact h.size
  · intro r j p tracked inRing youngest at_j
    rw [same.retired] at inRing
    rw [same.pushed, edge] at youngest
    obtain ⟨x, hx, sameOp⟩ := ops.right at_j
    rw [same.registers, same.base, sameOp.seq_eq]
    exact h.writers r j x tracked inRing youngest hx
  · rw [same.registers, same.base, same.inWindow]
    exact h.writers_lt
  · obtain ⟨old, stale, stores⟩ := h.stores
    refine ⟨old, ?_, ?_⟩
    · rw [same.base]
      exact stale
    · rw [same.stores, stores]
      unfold window
      rw [same.retired, same.inWindow, storeRecords_eq ((ops.drop _).take _)]
  · rw [same.stores, same.base, same.inWindow]
    exact h.fence_lt

/-- The stores of the table that are still of interest. -/
theorem Tabled.stores_clean (h : Tabled a) (order : InOrder config a) :
    (a.thread.stores.clean a.thread.base).stores.toList = storeRecords a.window := by
  obtain ⟨old, stale, stores⟩ := h.stores
  rw [StoreTable.toList_clean, stores]
  have dropOld : old.dropWhile (·.seq < a.thread.base) = [] := by
    rw [List.dropWhile_eq_nil_iff]
    intro s hs
    simpa using stale s hs
  rw [List.dropWhile_append, dropOld]
  simp only [List.isEmpty_nil, if_true]
  -- everything in the window is too young to be dropped
  cases records : storeRecords a.window with
  | nil => rfl
  | cons s rest =>
    have mem : s ∈ storeRecords a.window := by
      rw [records]
      exact List.mem_cons_self
    rw [List.dropWhile_cons_of_neg (by simpa using (order.seq_of_record mem).1)]

/-- The window after another entry has entered it. -/
theorem storeRecords_enter {e' : Entry} {th : Thread} (enters : Enters config a b e e' th) :
    storeRecords b.window = storeRecords a.window ++ storeRecords [e] := by
  have ops : Pointwise Entry.SameOp a.entries b.entries := (Moves.enter enters).sameOp
  have grown : storeRecords b.window =
      storeRecords ((a.entries.drop a.retired.length).take (a.thread.inWindow + 1)) := by
    unfold window
    rw [enters.retired, enters.inWindow]
    exact storeRecords_eq ((ops.drop _).take _)
  have next : (a.entries.drop a.retired.length)[a.thread.inWindow]? = some e := by
    rw [List.getElem?_drop]
    exact enters.next
  obtain ⟨inside, at_edge⟩ := List.getElem?_eq_some_iff.mp next
  rw [grown, List.take_succ_eq_append_getElem inside, at_edge, storeRecords_append]
  rfl

/-- The entry that enters the window is noted as the writer of its destinations. -/
theorem Enters.registers_eq {e' : Entry} {th : Thread} (enters : Enters config a b e e' th)
    (order : InOrder config a) :
    b.thread.registers = a.thread.registers.note a.thread.base e.fetched.u := by
  rw [enters.tables.1, enters.linked.thread, order.lowest_eq enters.next]

/-- Only its destinations get another writer. -/
theorem Enters.live?_eq {e' : Entry} {th : Thread} (enters : Enters config a b e e' th)
    (order : InOrder config a) (r : Register) :
    b.thread.registers.live? r a.thread.base =
      if r ∈ e.u.op.destinations ∧ r < a.thread.registers.writers.size then some e.seq
      else a.thread.registers.live? r a.thread.base := by
  have seq := order.seq_edge enters.next
  rw [enters.registers_eq order, RegisterTable.live?_note]
  show (if r ∈ e.u.op.destinations ∧ _ then (seq? e.seq).filter _ else _) = _
  have young : decide (a.thread.base ≤ e.seq) = true := by
    rw [decide_eq_true_iff]
    omega
  rw [order.seq?_eq enters.next, Option.filter_some, if_pos young]
  rfl

/-- The youngest writer of a register is on record when another entry has entered the window. -/
theorem Tabled.writers_enter {e' p : Entry} {th : Thread} {r : Register} {j : Nat} (h : Tabled a)
    (order : InOrder config a) (enters : Enters config a b e e' th) (tracked : r < numRegisters)
    (inRing : a.retired.length ≤ j) (youngest : Youngest a.pushed (OpInstance.Writes r) (a.edge + 1) j)
    (at_j : b.entries[j]? = some p) : b.thread.registers.live? r a.thread.base = some p.seq := by
  obtain ⟨u, hu, op, -⟩ := order.op_of_entry enters.next
  have writes : OpInstance.Writes r u ↔ r ∈ e.u.op.destinations := by
    unfold OpInstance.Writes
    rw [op]
  obtain ⟨x, hx, same⟩ := (Moves.enter enters).sameOp.right at_j
  rw [enters.live?_eq order, same.seq_eq]
  rcases youngest.of_succ with rfl | ⟨before, silent⟩
  · -- the entry that has entered writes the register
    obtain ⟨v, hv, written⟩ := youngest.holds
    cases hu.symm.trans hv
    cases enters.next.symm.trans hx
    exact if_pos ⟨writes.mp written, h.size.symm ▸ tracked⟩
  · -- it does not, and the register keeps its writer
    rw [if_neg fun both => silent u hu (writes.mpr both.1)]
    exact h.writers r j x tracked inRing before hx

/-- The stores on record when another entry has entered the window. -/
theorem Tabled.stores_enter {e' : Entry} {th : Thread} (h : Tabled a) (order : InOrder config a)
    (enters : Enters config a b e e' th) : b.thread.stores.stores.toList = storeRecords b.window := by
  have new : (if e.u.op.isStore then [StoreRecord.mk e.seq e.u.address] else []) = storeRecords [e] := by
    unfold storeRecords Entry.storeRecord?
    rw [List.filterMap_cons]
    split
    · rfl
    · rfl
  rw [storeRecords_enter enters, enters.tables.2, enters.linked.stores, order.lowest_eq enters.next,
    StoreTable.storesAfter, h.stores_clean order, ← new]
  rfl

theorem Tabled.enter {e' : Entry} {th : Thread} (h : Tabled a) (order : InOrder config a)
    (enters : Enters config a b e e' th) : Tabled b := by
  have seq := order.seq_edge enters.next
  refine ⟨?_, ?_, ?_, ?_, ?_⟩
  · rw [enters.registers_eq order, RegisterTable.size_note]
    exact h.size
  · intro r j p tracked inRing youngest at_j
    rw [enters.retired] at inRing
    rw [enters.pushed, enters.edge_eq] at youngest
    rw [enters.base]
    exact h.writers_enter order enters tracked inRing youngest at_j
  · intro r q found
    rw [enters.base, enters.live?_eq order] at found
    rw [enters.base, enters.inWindow]
    split at found
    · cases found
      omega
    · have := h.writers_lt r q found
      omega
  · refine ⟨[], ?_, h.stores_enter order enters⟩
    intro s old
    cases old
  · intro q hq
    rw [enters.base, enters.inWindow]
    rw [enters.tables.2, enters.linked.fence, StoreTable.fenceAfter] at hq
    split at hq
    · cases (order.seq?_eq enters.next).symm.trans hq
      omega
    · have := h.fence_lt q hq
      omega

theorem Tabled.take {u : OpInstance} (h : Tabled a) (order : InOrder config a)
    (takes : Takes a b u e) : Tabled b := by
  have inside := order.edge_le
  have length : a.pushed.length = a.entries.length := by
    have := congrArg List.length order.program
    rw [List.length_map, List.length_map] at this
    exact this.symm
  refine ⟨?_, ?_, ?_, ?_, ?_⟩
  · rw [takes.registers]
    exact h.size
  · intro r j p tracked left youngest at_j
    rw [takes.retired] at left
    rw [takes.pushed, takes.edge_eq] at youngest
    -- the new entry stands behind the window, where no writer on record is
    have before := youngest.before
    rw [takes.registers, takes.base]
    refine h.writers r j p tracked left (youngest.of_append (by omega)) ?_
    rcases takes.entry_before at_j with ⟨rfl, -⟩ | at_j
    · omega
    · exact at_j
  · rw [takes.registers, takes.base, takes.inWindow]
    exact h.writers_lt
  · obtain ⟨old, stale, stores⟩ := h.stores
    refine ⟨old, ?_, ?_⟩
    · rw [takes.base]
      exact stale
    · have window : b.window = a.window := by
        unfold edge at inside
        unfold Account.window
        rw [takes.retired, takes.inWindow, takes.entries,
          List.drop_append_of_le_length (by omega),
          List.take_append_of_le_length (by rw [List.length_drop]; omega)]
      rw [takes.stores, stores, window]
  · rw [takes.stores, takes.base, takes.inWindow]
    exact h.fence_lt

/-- The oldest entry is the first one in the window. -/
theorem window_release (oldest : a.thread.oldest? = some e) : a.window = e :: (a.release config e).window := by
  obtain ⟨hlt, first⟩ := List.getElem?_eq_some_iff.mp (entries_oldest oldest).1
  obtain ⟨n, hn⟩ := Nat.exists_eq_add_of_lt (Thread.oldest?_eq_some oldest).1
  have inWindow : (a.release config e).thread.inWindow = n := by
    show a.thread.inWindow - 1 = n
    omega
  unfold window
  rw [entries_release config oldest, length_release config a e, inWindow, hn, List.drop_eq_getElem_cons hlt, first,
    Nat.zero_add, List.take_succ_cons]

theorem Tabled.release (h : Tabled a) (order : InOrder config a)
    (oldest : a.thread.oldest? = some e) : Tabled (a.release config e) := by
  have entries := entries_release config oldest
  have edge : (a.release config e).edge = a.edge := edge_release oldest
  have base := order.base_release oldest
  have left := length_release config a e
  have inside := (Thread.oldest?_eq_some oldest).1
  have inWindow : (a.release config e).thread.inWindow = a.thread.inWindow - 1 := rfl
  have seq := order.seq_oldest oldest
  refine ⟨h.size, ?_, ?_, ?_, ?_⟩
  · intro r j p tracked inRing youngest at_j
    rw [edge] at youngest
    rw [entries] at at_j
    have live := h.writers r j p tracked (by omega) youngest at_j
    have young := order.seq_of_le (by omega) at_j
    rw [base]
    show a.thread.registers.live? r (a.thread.base + 1) = _
    rw [RegisterTable.live?_of_le (Nat.le_succ _), live, Option.filter_some, if_pos]
    simp
    omega
  · intro r q live
    rw [base] at live ⊢
    have live : a.thread.registers.live? r (a.thread.base + 1) = .some q := live
    rw [RegisterTable.live?_of_le (Nat.le_succ _), Option.filter_eq_some_iff] at live
    have := h.writers_lt r q live.1
    omega
  · obtain ⟨old, stale, stores⟩ := h.stores
    -- if the entry that leaves is a store, it joins those that have left
    refine ⟨old ++ storeRecords [e], ?_, ?_⟩
    · intro s hs
      rw [base]
      rcases List.mem_append.mp hs with hs | hs
      · exact Nat.lt_succ_of_lt (stale s hs)
      · obtain ⟨x, here, -, rfl⟩ := mem_storeRecords.mp hs
        rw [List.mem_singleton.mp here]
        show e.seq < a.thread.base + 1
        omega
    · show a.thread.stores.stores.toList = _
      rw [stores, window_release oldest, List.append_assoc, ← storeRecords_append]
      rfl
  · intro q hq
    have := h.fence_lt q hq
    rw [base, inWindow]
    omega

theorem Tabled.restart (restarts : Restarts a b) : Tabled b := by
  refine tabled_of_empty restarts.registers ?_ ?_ restarts.inWindow
  · rw [restarts.stores]
    exact Ring.toList_clear _
  · rw [restarts.stores]
    rfl

theorem Tabled.step (h : Tabled a) (order : InOrder config a) (step : Step config a b) :
    Tabled b := by
  cases order.passes step with
  | moves moves =>
    cases moves with
    | quiet same entries latencies =>
      have moved : Moves config a b := .quiet same entries latencies
      exact h.of_sameBooks same moved.sameOp
    | enter enters => exact h.enter order enters
    | issue issues =>
      have moved : Moves config a b := .issue issues
      exact h.of_sameBooks issues.same moved.sameOp
  | takes takes => exact h.take order takes
  | releases oldest done result =>
    rw [result]
    exact h.release order oldest
  | restarts oldest done restarts => exact .restart restarts
  | ticks later result =>
    rw [result]
    exact ⟨h.size, h.writers, h.writers_lt, h.stores, h.fence_lt⟩

theorem Reachable.tabled (h : Reachable config a) : Tabled a := by
  induction h with
  | new made => exact tabled_new made
  | step reached step ih => exact ih.step reached.inOrder step

/-! ## Section 4: Looking a store up -/

/-- Behind the youngest store to an address, nothing is on record for the address. -/
theorem InOrder.find?_none_of_youngest (order : InOrder config a) {address : Address} {i : Nat}
    (youngest : Youngest a.pushed (OpInstance.StoresTo address) a.edge (a.retired.length + i)) :
    (storeRecords (a.window.drop (i + 1))).reverse.find? (·.address = address) = none := by
  rw [List.find?_eq_none]
  intro s hs hit
  obtain ⟨x, hx, isStore, rfl⟩ := mem_storeRecords.mp (List.mem_reverse.mp hs)
  obtain ⟨m, hm⟩ := List.getElem?_of_mem hx
  rw [List.getElem?_drop] at hm
  obtain ⟨inside, here⟩ := order.entry_of_window hm
  obtain ⟨w, hw, op, address_eq⟩ := order.op_of_entry here
  refine youngest.last _ w (by omega) (by unfold edge; omega) hw ⟨?_, ?_⟩
  · rw [op]
    exact isStore
  · rw [address_eq]
    simpa using hit

/-- The youngest store to an address, if it is in the window, is what the table finds. -/
theorem Tabled.find?_eq (h : Tabled a) (order : InOrder config a) {address : Address} {k : Nat}
    (inRing : a.retired.length ≤ k)
    (youngest : Youngest a.pushed (OpInstance.StoresTo address) a.edge k)
    (at_k : a.entries[k]? = some e) :
    (a.thread.stores.clean a.thread.base).find? address = some e.seq := by
  have before := youngest.before
  obtain ⟨i, rfl⟩ : ∃ i, k = a.retired.length + i := ⟨k - a.retired.length, by omega⟩
  have inside : i < a.thread.inWindow := by
    unfold edge at before
    omega
  have at_i : a.window[i]? = some e := by
    rw [getElem?_window inside]
    exact at_k
  obtain ⟨hlt, at_i'⟩ := List.getElem?_eq_some_iff.mp at_i
  have split : a.window = a.window.take i ++ e :: a.window.drop (i + 1) := by
    rw [← at_i', ← List.drop_eq_getElem_cons hlt, List.take_append_drop]
  -- the store itself is found
  obtain ⟨u, hu, op, address_eq⟩ := order.op_of_entry at_k
  obtain ⟨v, hv, store, target⟩ := youngest.holds
  cases hu.symm.trans hv
  have record : e.storeRecord? = some { seq := e.seq, address } := by
    rw [Entry.storeRecord?_eq_some, ← op, ← address_eq, target]
    exact ⟨store, rfl⟩
  -- nothing behind it is
  have silent := order.find?_none_of_youngest youngest
  have records : storeRecords (a.window.take i ++ e :: a.window.drop (i + 1)) =
      storeRecords (a.window.take i) ++ { seq := e.seq, address } ::
        storeRecords (a.window.drop (i + 1)) := by
    rw [storeRecords_append]
    unfold storeRecords
    rw [List.filterMap_cons, record]
  rw [StoreTable.find?_eq, h.stores_clean order, split, records, List.reverse_append, List.reverse_cons,
    List.append_assoc, List.find?_append, silent, Option.none_or, List.find?_append, List.find?_singleton]
  simp [order.seq?_eq at_k]

end Account

end CoreTiming
