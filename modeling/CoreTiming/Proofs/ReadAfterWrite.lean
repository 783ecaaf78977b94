import CoreTiming.Proofs.Chronicle
import CoreTiming.Proofs.Dataflow
import CoreTiming.Proofs.Seniority

/-!
# Reads after writes

What has left a window was issued only after the results that it needed were available: for its
registers, and for a load also through memory.  This is `Account.Heeding`, read off the entries that
have left, for every chronicle.
-/

namespace CoreTiming

/-! ## Section 1: What has left had what it needed -/

namespace Account

variable {config : Config} {a : Account} {x : Retirement} {js : List Nat} {k : Nat}

theorem entries_of_retired (at_k : a.retired[k]? = some x) : a.entries[k]? = some x.entry := by
  have left : k < a.retired.length := (List.getElem?_eq_some_iff.mp at_k).1
  rw [entries_of_lt left, at_k]
  rfl

theorem Heeding.kept_of_retired (h : Heeding config a) (at_k : a.retired[k]? = some x)
    (need : Needs config.window.forwarding a.pushed k js) :
    ∃ j ∈ js, ∃ y, a.retired[j]? = some y ∧ y.entry.done ≤ x.entry.issued := by
  have left : k < a.retired.length := (List.getElem?_eq_some_iff.mp at_k).1
  have inside : k < a.edge := by
    unfold edge
    omega
  obtain ⟨j, mem, p, hp, kept⟩ := h.kept k js x.entry need inside (entries_of_retired at_k)
  -- whatever is older has left as well
  have older : j < a.retired.length := by
    have := need.lt mem
    omega
  rw [entries_of_lt older] at hp
  obtain ⟨y, hy, rfl⟩ := Option.map_eq_some_iff.mp hp
  exact ⟨j, mem, y, hy, kept⟩

end Account

namespace Chronicle

variable {M : Type} {config : Config} {c : Chronicle M} {i k : Nat} {js : List Nat} {x : Retirement}

/-- A thread from which something has left is the account of a lane. -/
theorem Truthful.exists_account (h : Truthful config c) (at_k : (c.retired i)[k]? = some x) :
    ∃ a : Account, Account.Reachable config a ∧ a.pushed = c.pushed i ∧ a.retired = c.retired i := by
  cases found : c.window.lanes[i]? with
  | none =>
    rw [(h.absent i found).2] at at_k
    cases at_k
  | some lane => exact ⟨c.account i lane, h.reachable i lane found, rfl, rfl⟩

theorem Truthful.kept (h : Truthful config c) (storeless : StoresWriteNothing (c.pushed i))
    (at_k : (c.retired i)[k]? = some x)
    (need : Needs config.window.forwarding (c.pushed i) k js) :
    ∃ j ∈ js, ∃ y, (c.retired i)[j]? = some y ∧ y.entry.done ≤ x.entry.issued := by
  obtain ⟨a, reached, pushed, retired⟩ := h.exists_account at_k
  rw [← pushed] at need storeless
  rw [← retired] at at_k ⊢
  exact (reached.heeding storeless).kept_of_retired at_k need

/-- What has left was pushed. -/
theorem Truthful.op_of_retired (h : Truthful config c) (at_k : (c.retired i)[k]? = some x) :
    ∃ u, (c.pushed i)[k]? = some u ∧ u.op = x.entry.u.op ∧ u.address = x.entry.u.address := by
  obtain ⟨a, reached, pushed, retired⟩ := h.exists_account at_k
  rw [← retired] at at_k
  rw [← pushed]
  exact reached.inOrder.op_of_entry (Account.entries_of_retired at_k)

theorem Truthful.issued_le_done (h : Truthful config c) (at_k : (c.retired i)[k]? = some x) :
    x.entry.issued ≤ x.entry.done := by
  obtain ⟨a, reached, -, retired⟩ := h.exists_account at_k
  rw [← retired] at at_k
  exact reached.timed.issued_le k x.entry (Account.entries_of_retired at_k)

/-- What has left was issued no earlier than the youngest older writer of each register that it reads
was done. -/
theorem Truthful.writer_done_le (h : Truthful config c) (storeless : StoresWriteNothing (c.pushed i))
    (at_k : (c.retired i)[k]? = some x) {r : Register} {j : Nat} (reads : r ∈ x.entry.u.op.sources)
    (tracked : r < numRegisters) (writer : Youngest (c.pushed i) (OpInstance.Writes r) k j) :
    ∃ y, (c.retired i)[j]? = some y ∧ y.entry.done ≤ x.entry.issued := by
  obtain ⟨u, at_u, op, -⟩ := h.op_of_retired at_k
  rw [← op] at reads
  obtain ⟨j', mem, found⟩ := h.kept storeless at_k (.register at_u reads tracked writer)
  rw [List.mem_singleton] at mem
  rwa [mem] at found

end Chronicle

/-! ## Section 2: Registers -/

namespace Chronicle

section

variable {M : Type} [MemorySystem M] {stride : Window.Stride M} {config : Config}
  {calls : List (Window.Call M)} {c : Chronicle M} {i : Nat}

/-- Whatever is asked of a window, no micro-op that has left was issued before the youngest older writer
of any register that it reads was done, and no micro-op waits for itself unless somebody wrote its own
number into it before it was pushed. -/
theorem reads_after_writes (made : Chronicle.of stride config calls = .ok c)
    (storeless : StoresWriteNothing (c.pushed i)) :
    (∀ (k j : Nat) (r : Register) (x : Retirement), (c.retired i)[k]? = some x →
      r ∈ x.entry.u.op.sources → r < numRegisters →
      Youngest (c.pushed i) (OpInstance.Writes r) k j →
      ∃ y, (c.retired i)[j]? = some y ∧ y.entry.done ≤ x.entry.issued) ∧
    ∀ (lane : Lane M) (e : Entry), c.window.lanes[i]? = some lane → e ∈ lane.thread.ring.toList →
      e.seq ∈ e.u.producers.toList → ∃ u ∈ c.pushed i, e.seq ∈ u.producers.toList := by
  have truthful := truthful_of made
  refine ⟨fun k j r x at_k reads tracked writer => ?_, fun lane e found mem self => ?_⟩
  · exact truthful.writer_done_le storeless at_k reads tracked writer
  · exact (truthful.reachable i lane found).senior.self_not_mem mem self

end

/-- What is seen of all that has left is seen of each. -/
theorem exists_retired {α : Type} {M : Type} {c : Chronicle M} {i k : Nat} {f : Retirement → α}
    {seen : List α} {y : α} (h : (c.retired i).map f = seen) (at_k : seen[k]? = some y) :
    ∃ x, (c.retired i)[k]? = some x ∧ f x = y := by
  rw [← h, List.getElem?_map] at at_k
  exact Option.map_eq_some_iff.mp at_k

/-- A slow writer of register 5, a micro-op that reads and writes it, a branch that was predicted
wrongly, at which the window starts over, and a reader. -/
def chain : List OpInstance :=
  [{ op := { destinations := [5], latency := 9 } },
    { op := { sources := [5], destinations := [5], latency := 4 } },
    { op := { kind := .branch }, mispredicted := true },
    { op := { sources := [5] } }]

/-- A run over `chain`. -/
def chainCalls : List (Window.Call FixedMemory) :=
  [.initializeThread 0 default none, .push 0 chain, .markEndOfStream 0, .execute #[true]]

theorem reads_after_writes_along_chain :
    ∃ (c : Chronicle FixedMemory) (x x' : Retirement),
      Chronicle.of Window.toEvent default chainCalls = .ok c ∧ StoresWriteNothing (c.pushed 0) ∧
      (c.retired 0)[1]? = some x ∧ 5 ∈ x.entry.u.op.sources ∧ x.entry.issued = ⟨3759400⟩ ∧
      Youngest (c.pushed 0) (OpInstance.Writes 5) 1 0 ∧
      (∃ y, (c.retired 0)[0]? = some y ∧ y.entry.done ≤ x.entry.issued) ∧
      (c.retired 0)[3]? = some x' ∧ 5 ∈ x'.entry.u.op.sources ∧ x'.entry.issued = ⟨8646620⟩ ∧
      Youngest (c.pushed 0) (OpInstance.Writes 5) 3 1 ∧
      ∃ y, (c.retired 0)[1]? = some y ∧ y.entry.done ≤ x'.entry.issued := by
  have computed : ((ofWithin Window.toEvent 50 default chainCalls).map fun c =>
      (c.pushed 0, (c.retired 0).map fun x => (x.entry.u.op.sources, x.entry.issued))) =
      some (chain, [([], ⟨375940⟩), ([5], ⟨3759400⟩), ([], ⟨375940⟩), ([5], ⟨8646620⟩)]) := by
    decide +kernel
  obtain ⟨c, made, same⟩ := exists_of_computed computed
  obtain ⟨pushed, seen⟩ := Prod.mk.inj same
  have storeless : StoresWriteNothing (c.pushed 0) := by
    rw [pushed]
    unfold StoresWriteNothing
    decide
  have first : Youngest (c.pushed 0) (OpInstance.Writes 5) 1 0 := by
    rw [pushed]
    exact ⟨by decide, ⟨_, rfl, List.mem_cons_self⟩, fun m u after before => by omega⟩
  have second : Youngest (c.pushed 0) (OpInstance.Writes 5) 3 1 := by
    rw [pushed]
    refine ⟨by decide, ⟨_, rfl, List.mem_cons_self⟩, fun m u after before at_m => ?_⟩
    -- only the branch stands between them
    obtain rfl : m = 2 := by omega
    cases at_m
    exact List.not_mem_nil
  obtain ⟨x, at_x, view⟩ := exists_retired (k := 1) seen rfl
  obtain ⟨x', at_x', view'⟩ := exists_retired (k := 3) seen rfl
  obtain ⟨sources, issued⟩ := Prod.mk.inj view
  obtain ⟨sources', issued'⟩ := Prod.mk.inj view'
  have reads : 5 ∈ x.entry.u.op.sources := by
    rw [sources]
    exact List.mem_cons_self
  have reads' : 5 ∈ x'.entry.u.op.sources := by
    rw [sources']
    exact List.mem_cons_self
  obtain ⟨registers, -⟩ := reads_after_writes made storeless
  exact ⟨c, x, x', made, storeless, at_x, reads, issued, first,
    registers 1 0 5 x at_x reads (by decide) first, at_x', reads', issued', second,
    registers 3 1 5 x' at_x' reads' (by decide) second⟩

/-! ## Section 3: Memory -/

section

variable {M : Type} [MemorySystem M] {stride : Window.Stride M} {config : Config}
  {calls : List (Window.Call M)} {c : Chronicle M} {i k s : Nat} {x : Retirement}

/-- Whatever is asked of a window, a load that has left was not issued before the youngest older store to
its address was done; if stores are forwarded, not before the youngest older writers of the registers
that the store reads were done. -/
theorem loads_after_stores (made : Chronicle.of stride config calls = .ok c)
    (storeless : StoresWriteNothing (c.pushed i)) (at_k : (c.retired i)[k]? = some x)
    (load : x.entry.u.op.isLoad = true)
    (store : Youngest (c.pushed i) (OpInstance.StoresTo x.entry.u.address) k s) :
    (config.window.forwarding = false →
      ∃ y, (c.retired i)[s]? = some y ∧ y.entry.done ≤ x.entry.issued) ∧
    (config.window.forwarding = true → ∀ (v : OpInstance) (r : Register) (j : Nat),
      (c.pushed i)[s]? = some v → r ∈ v.op.sources → r < numRegisters →
      Youngest (c.pushed i) (OpInstance.Writes r) s j →
      ∃ y, (c.retired i)[j]? = some y ∧ y.entry.done ≤ x.entry.issued) := by
  have truthful := truthful_of made
  obtain ⟨u, at_u, op, address⟩ := truthful.op_of_retired at_k
  rw [← op] at load
  rw [← address] at store
  refine ⟨fun direct => ?_, fun passed v r j at_s reads tracked writer => ?_⟩
  · obtain ⟨j, mem, found⟩ := truthful.kept storeless at_k (.memory direct at_u load store)
    rw [List.mem_singleton] at mem
    rwa [mem] at found
  · obtain ⟨j', mem, y, at_y, done⟩ := truthful.kept storeless at_k
      (.forwarded passed at_u load store at_s reads tracked writer)
    rcases List.mem_cons.mp mem with same | mem
    · rw [same] at at_y
      exact ⟨y, at_y, done⟩
    · -- the load had the result of the store itself, which had that of the writer
      rw [List.mem_singleton] at mem
      rw [mem] at at_y
      obtain ⟨v', at_v', op', -⟩ := truthful.op_of_retired at_y
      rw [at_s] at at_v'
      cases at_v'
      rw [op'] at reads
      obtain ⟨z, at_z, written⟩ := truthful.writer_done_le storeless at_y reads tracked writer
      have := truthful.issued_le_done at_y
      exact ⟨z, at_z, written.trans (this.trans done)⟩

end

/-- A store of register `r`. -/
def storeOf (r : Register) : OpInstance :=
  { op := { kind := .store, sources := [r] }, address := 64 }

/-- A slow writer of register `r`, a store that reads it, and a load from the address of the store. -/
def spill (r : Register) : List OpInstance :=
  [{ op := { destinations := [r], latency := 50 } }, storeOf r,
    { op := { kind := .load, destinations := [1] }, address := 64 }]

/-- A run over `spill r`. -/
def spillCalls (r : Register) : List (Window.Call FixedMemory) :=
  [.initializeThread 0 default none, .push 0 (spill r), .markEndOfStream 0, .execute #[true]]

theorem storeless_spill (r : Register) : StoresWriteNothing (spill r) := by
  intro u mem store
  simp only [spill, List.mem_cons, List.not_mem_nil, or_false] at mem
  rcases mem with rfl | rfl | rfl
  · cases store
  · rfl
  · cases store

theorem store_spill (r : Register) : Youngest (spill r) (OpInstance.StoresTo 64) 2 1 :=
  ⟨by decide, ⟨_, rfl, rfl, rfl⟩, fun m u after before => by omega⟩

theorem writer_spill (r : Register) : Youngest (spill r) (OpInstance.Writes r) 1 0 :=
  ⟨by decide, ⟨_, rfl, List.mem_cons_self⟩, fun m u after before => by omega⟩

theorem loads_after_stores_in_spill :
    ∃ (c : Chronicle FixedMemory) (x : Retirement),
      (default : Config).window.forwarding = true ∧
      Chronicle.of Window.toEvent default (spillCalls 5) = .ok c ∧
      StoresWriteNothing (c.pushed 0) ∧ (c.retired 0)[2]? = some x ∧ x.entry.u.op.isLoad = true ∧
      x.entry.issued = ⟨19172940⟩ ∧
      Youngest (c.pushed 0) (OpInstance.StoresTo x.entry.u.address) 2 1 ∧
      Youngest (c.pushed 0) (OpInstance.Writes 5) 1 0 ∧
      ∃ y, (c.retired 0)[0]? = some y ∧ y.entry.done ≤ x.entry.issued := by
  have computed : ((ofWithin Window.toEvent 80 default (spillCalls 5)).map fun c =>
      (c.pushed 0, (c.retired 0)[2]?.map fun x =>
        (x.entry.u.op.isLoad, x.entry.u.address, x.entry.issued))) =
      some (spill 5, some (true, 64, ⟨19172940⟩)) := by
    decide +kernel
  obtain ⟨c, made, same⟩ := exists_of_computed computed
  obtain ⟨pushed, seen⟩ := Prod.mk.inj same
  obtain ⟨x, at_x, view⟩ := Option.map_eq_some_iff.mp seen
  obtain ⟨load, view⟩ := Prod.mk.inj view
  obtain ⟨address, issued⟩ := Prod.mk.inj view
  have storeless : StoresWriteNothing (c.pushed 0) := by
    rw [pushed]
    exact storeless_spill 5
  have store : Youngest (c.pushed 0) (OpInstance.StoresTo x.entry.u.address) 2 1 := by
    rw [pushed, address]
    exact store_spill 5
  have writer : Youngest (c.pushed 0) (OpInstance.Writes 5) 1 0 := by
    rw [pushed]
    exact writer_spill 5
  obtain ⟨-, forwarded⟩ := loads_after_stores made storeless at_x load store
  refine ⟨c, x, rfl, made, storeless, at_x, load, issued, store, writer, ?_⟩
  refine forwarded rfl (storeOf 5) 5 0 ?_ List.mem_cons_self (by decide) writer
  rw [pushed]
  rfl

/-- Registers outside the table are not tracked, so a forwarded load does not wait for what the store
reads from one of them. -/
theorem load_ahead_of_untracked_writer :
    ∃ (c : Chronicle FixedMemory) (x y : Retirement),
      (default : Config).window.forwarding = true ∧
      Chronicle.of Window.toEvent default (spillCalls 400) = .ok c ∧
      StoresWriteNothing (c.pushed 0) ∧ (c.retired 0)[2]? = some x ∧ x.entry.u.op.isLoad = true ∧
      Youngest (c.pushed 0) (OpInstance.StoresTo x.entry.u.address) 2 1 ∧
      (c.pushed 0)[1]? = some (storeOf 400) ∧ 400 ∈ (storeOf 400).op.sources ∧
      Youngest (c.pushed 0) (OpInstance.Writes 400) 1 0 ∧
      (c.retired 0)[0]? = some y ∧ x.entry.issued < y.entry.done := by
  have computed : ((ofWithin Window.toEvent 80 default (spillCalls 400)).map fun c =>
      (c.pushed 0, (c.retired 0)[2]?.map fun x =>
        (x.entry.u.op.isLoad, x.entry.u.address, x.entry.issued),
        (c.retired 0)[0]?.map fun y => y.entry.done)) =
      some (spill 400, some (true, 64, ⟨375940⟩), some ⟨19172940⟩) := by
    decide +kernel
  obtain ⟨c, made, same⟩ := exists_of_computed computed
  obtain ⟨pushed, seen⟩ := Prod.mk.inj same
  obtain ⟨seen_x, seen_y⟩ := Prod.mk.inj seen
  obtain ⟨x, at_x, view⟩ := Option.map_eq_some_iff.mp seen_x
  obtain ⟨y, at_y, done⟩ := Option.map_eq_some_iff.mp seen_y
  obtain ⟨load, view⟩ := Prod.mk.inj view
  obtain ⟨address, issued⟩ := Prod.mk.inj view
  refine ⟨c, x, y, rfl, made, ?_, at_x, load, ?_, ?_, ?_, ?_, at_y, ?_⟩
  · rw [pushed]
    exact storeless_spill 400
  · rw [pushed, address]
    exact store_spill 400
  · rw [pushed]
    rfl
  · exact List.mem_cons_self
  · rw [pushed]
    exact writer_spill 400
  · rw [issued, done]
    decide

end Chronicle

end CoreTiming
