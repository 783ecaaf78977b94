import CoreTiming.InOrder.Basic
import CoreTiming.Proofs.Lockstep
import CoreTiming.Proofs.Occupancy

/-!
# In-order cores do not overlap instructions

An instruction is waited for until its longest load is over and its results are ready, so that nothing of it is left
when the next one begins (`InOrder.Settled`).  The registers and the load units of the core, which are there to let
instructions overlap, have no effect: the core keeps the same time as one that forgets both after each instruction
(`InOrder.instructions_never_overlap`).

Only the store buffer is carried over from one instruction to the next.
-/

namespace CoreTiming

namespace InOrder

open Faulting

variable {M : Type} {m m' : InOrder M} {ready longest floor since t : Time}

/-- The time on the clock of the core. -/
def now (m : InOrder M) : Time := m.state.clock.now

/-! ## Section 1: Loads and stores -/

/-- A load changes nothing but the load units. -/
theorem load_frame (m : InOrder M) (time : Time) (info : MemoryInfo) :
    (m.load time info).2 = { m with loads := (m.load time info).2.loads } := by
  unfold load
  dsimp only
  split <;> rfl

/-- A load on two cores with the same store buffer, whose load units are alike. -/
theorem load_alike (stores : m'.stores = m.stores) (alike : Slots.Alike floor m.loads.freeAt m'.loads.freeAt)
    (early : floor ≤ ready) (info : MemoryInfo) :
    (m'.load ready info).1 = (m.load ready info).1 ∧
      Slots.Alike floor (m.load ready info).2.loads.freeAt (m'.load ready info).2.loads.freeAt := by
  unfold load LoadUnits.execute
  rw [stores, Slots.assign_of_alike alike early]
  dsimp only
  split
  · exact ⟨rfl, alike⟩
  · exact ⟨rfl, alike.set _ _⟩

/-- When a load is over, so are those that the units were busy with before. -/
theorem load_busy (units : m.loads.freeAt ≠ []) (busy : ∀ u ∈ m.loads.freeAt, u ≤ ready + longest) (info : MemoryInfo) :
    (m.load ready info).2.loads.freeAt ≠ [] ∧
      ∀ u ∈ (m.load ready info).2.loads.freeAt,
        u ≤ max ready (m.load ready info).1.1 + max longest (m.load ready info).1.2 := by
  have less : ready + longest ≤ max ready (m.load ready info).1.1 + max longest (m.load ready info).1.2 :=
    Time.add_le_add (le_max_left _ _) (le_max_left _ _)
  unfold load LoadUnits.execute at less ⊢
  dsimp only at less ⊢
  split
  · rename_i forwarded
    rw [if_pos forwarded] at less
    exact ⟨units, fun u mem => (busy u mem).trans less⟩
  · rename_i asked
    rw [if_neg asked] at less
    refine ⟨?_, fun u mem => ?_⟩
    · rw [← List.length_pos_iff, List.length_set, List.length_pos_iff]
      exact units
    · rcases List.mem_or_eq_of_mem_set mem with old | rfl
      · exact (busy u old).trans less
      · exact Time.add_le_add (le_max_right _ _) (le_max_right _ _)

theorem loadAll_cons (info : MemoryInfo) (rest : List MemoryInfo) (ready longest : Time) (m : InOrder M) :
    loadAll (info :: rest) ready longest m =
      loadAll rest (max ready (m.load ready info).1.1) (max longest (m.load ready info).1.2) (m.load ready info).2 :=
  rfl

theorem loadAll_frame (infos : List MemoryInfo) (ready longest : Time) (m : InOrder M) :
    (loadAll infos ready longest m).2 = { m with loads := (loadAll infos ready longest m).2.loads } := by
  induction infos generalizing ready longest m with
  | nil => rfl
  | cons info rest ih =>
    rw [loadAll_cons, ih, load_frame]

theorem loadAll_alike (stores : m'.stores = m.stores) (alike : Slots.Alike floor m.loads.freeAt m'.loads.freeAt)
    (early : floor ≤ ready) (infos : List MemoryInfo) (longest : Time) :
    (loadAll infos ready longest m').1 = (loadAll infos ready longest m).1 ∧
      Slots.Alike floor (loadAll infos ready longest m).2.loads.freeAt
        (loadAll infos ready longest m').2.loads.freeAt := by
  induction infos generalizing ready longest m m' with
  | nil => exact ⟨rfl, alike⟩
  | cons info rest ih =>
    obtain ⟨same, alike'⟩ := load_alike stores alike early info
    have stores' : (m'.load ready info).2.stores = (m.load ready info).2.stores := by
      rw [load_frame m, load_frame m']
      exact stores
    rw [loadAll_cons, loadAll_cons, same]
    exact ih stores' alike' (early.trans (le_max_left _ _)) _

/-- When the longest load has been waited for, the load units are free. -/
theorem loadAll_busy (units : m.loads.freeAt ≠ []) (busy : ∀ u ∈ m.loads.freeAt, u ≤ ready + longest)
    (infos : List MemoryInfo) :
    (loadAll infos ready longest m).2.loads.freeAt ≠ [] ∧
      ∀ u ∈ (loadAll infos ready longest m).2.loads.freeAt,
        u ≤ (loadAll infos ready longest m).1.1 + (loadAll infos ready longest m).1.2 := by
  induction infos generalizing ready longest m with
  | nil => exact ⟨units, busy⟩
  | cons info rest ih =>
    obtain ⟨units', busy'⟩ := load_busy units busy info
    exact ih units' busy'

theorem storeAll_cons (info : MemoryInfo) (rest : List MemoryInfo) (time ready : Time) (m : InOrder M) :
    storeAll time (info :: rest) ready m =
      storeAll time rest (max ready (m.stores.execute time info.latency info.address).1)
        { m with stores := (m.stores.execute time info.latency info.address).2 } :=
  rfl

theorem storeAll_frame (infos : List MemoryInfo) (time ready : Time) (m : InOrder M) :
    (storeAll time infos ready m).2 = { m with stores := (storeAll time infos ready m).2.stores } := by
  induction infos generalizing ready m with
  | nil => rfl
  | cons info rest ih =>
    rw [storeAll_cons, ih]

/-- Stores depend on nothing but the store buffer. -/
theorem storeAll_congr (stores : m'.stores = m.stores) (infos : List MemoryInfo) (time ready : Time) :
    (storeAll time infos ready m').1 = (storeAll time infos ready m).1 ∧
      (storeAll time infos ready m').2.stores = (storeAll time infos ready m).2.stores := by
  induction infos generalizing ready m m' with
  | nil => exact ⟨rfl, stores⟩
  | cons info rest ih =>
    rw [storeAll_cons, storeAll_cons, stores]
    refine ih ?_ _
    rfl

/-! ## Section 2: One instruction -/

/-- Nothing of the instructions timed so far is left: every register is ready, and every load unit is free. -/
structure Settled (m : InOrder M) : Prop where
  /-- The registers are ready. -/
  registers : ∀ (r : Register) (t : Time), m.registerReady r = some t → t ≤ m.now
  /-- The load units are free. -/
  loads : ∀ u ∈ m.loads.freeAt, u ≤ m.now
  /-- There are load units. -/
  units : m.loads.freeAt ≠ []

/-- Registers that are ready do not delay an instruction. -/
theorem Settled.readyFrom (settled : m.Settled) (rs : List Register) : m.readyFrom m.now rs = m.now := by
  unfold InOrder.readyFrom
  induction rs with
  | nil => rfl
  | cons r rest ih =>
    have ready : m.registers.getD r 0 ≤ m.now := by
      rw [Array.getD_eq_getD_getElem?]
      cases kept : m.registers[r]? with
      | none => exact Time.zero_le _
      | some t => exact settled.registers r t kept
    rw [List.foldl_cons, max_eq_left ready, ih]

/-- After a write, a register is ready when it was before or when the results are. -/
theorem registerReady_write {rs : List Register} {r : Register} {u : Time}
    (ready : (m.write t rs).registerReady r = some u) : u = t ∨ m.registerReady r = some u := by
  unfold write registerReady at *
  induction rs using List.reverseRecOn generalizing u with
  | nil => exact Or.inr ready
  | append_singleton rest w ih =>
    dsimp only at ih ready
    rw [List.foldl_concat, Array.getElem?_setIfInBounds] at ready
    split at ready
    · split at ready
      · exact Or.inl (Option.some.inj ready).symm
      · cases ready
    · exact ih ready

theorem size_write (m : InOrder M) (t : Time) (rs : List Register) :
    (m.write t rs).registers.size = m.registers.size := by
  unfold write
  induction rs using List.reverseRecOn with
  | nil => rfl
  | append_singleton rest w ih =>
    dsimp only at ih ⊢
    rw [List.foldl_concat, Array.size_setIfInBounds, ih]

/-- The loads of an instruction that begins now. -/
def loaded (m : InOrder M) (i : Instruction) (infos : List MemoryInfo) : (Time × Time) × InOrder M :=
  loadAll (infos.filter (·.direction == .read)) (m.readyFrom m.now (i.registers .read)) 0 m

/-- When an instruction that begins now completes. -/
def completion (m : InOrder M) (i : Instruction) (infos : List MemoryInfo) : Time :=
  (m.loaded i infos).1.1 + (m.loaded i infos).1.2 + i.cost m.state.costs m.state.clock.period

/-- The stores of an instruction that begins now, once its loads have been served and its results written. -/
def stored (m : InOrder M) (i : Instruction) (infos : List MemoryInfo) : Time × InOrder M :=
  storeAll (m.completion i infos) (infos.filter fun info => !(info.direction == .read))
    (if (i.registers .write).isEmpty then m.now else max m.now (m.completion i infos))
    ((m.loaded i infos).2.write (m.completion i infos) (i.registers .write))

theorem stored_frame (m : InOrder M) (i : Instruction) (infos : List MemoryInfo) :
    (m.stored i infos).2 =
      { m with
        registers := (m.write (m.completion i infos) (i.registers .write)).registers
        stores := (m.stored i infos).2.stores
        loads := (m.loaded i infos).2.loads } := by
  have loads : (m.loaded i infos).2 = { m with loads := (m.loaded i infos).2.loads } := loadAll_frame ..
  unfold stored
  rw [storeAll_frame, loads]
  rfl

/-- What an instruction does to each part of the core. -/
theorem execute_eq (m : InOrder M) (i : Instruction) (infos : List MemoryInfo) :
    m.execute i infos =
      { state := (m.state.elapse 1 0).advanceTo (max (m.completion i infos) (m.stored i infos).1)
        registers := (m.write (m.completion i infos) (i.registers .write)).registers
        stores := (m.stored i infos).2.stores
        loads := (m.loaded i infos).2.loads
        memory := m.memory } := by
  have split : m.execute i infos =
      { (m.stored i infos).2 with
        state := ((m.stored i infos).2.state.elapse 1 0).advanceTo
          (max (m.completion i infos) (m.stored i infos).1) } := by
    unfold execute
    rw [List.partition_eq_filter_filter]
    rfl
  rw [split, stored_frame]

/-- The clock afterwards. -/
theorem le_now_execute (m : InOrder M) (i : Instruction) (infos : List MemoryInfo) :
    max m.now (m.completion i infos) ≤ (m.execute i infos).now := by
  rw [execute_eq]
  exact max_le_max (Time.le_add_right _ _) (le_max_left _ _)

/-- When the core has finished an instruction, nothing is left of it either. -/
theorem Settled.execute (settled : m.Settled) (i : Instruction) (infos : List MemoryInfo) :
    (m.execute i infos).Settled := by
  obtain ⟨began, completed⟩ := max_le_iff.mp (m.le_now_execute i infos)
  -- the units are free when the loads begin, so that they are busy with none but those that are waited for
  have idle : ∀ u ∈ m.loads.freeAt, u ≤ m.readyFrom m.now (i.registers .read) + 0 := by
    intro u mem
    rw [settled.readyFrom]
    exact (settled.loads u mem).trans (Time.le_add_right _ _)
  obtain ⟨units, busy⟩ := loadAll_busy settled.units idle (infos.filter (·.direction == .read))
  refine ⟨fun r t ready => ?_, fun u mem => ?_, ?_⟩
  · rw [execute_eq] at ready
    rcases registerReady_write ready with rfl | old
    · exact completed
    · exact (settled.registers r t old).trans began
  · rw [execute_eq] at mem
    exact (busy u mem).trans ((Time.le_add_right _ _).trans completed)
  · rw [execute_eq]
    exact units

/-- As long as only the clock moves on, nothing is left. -/
theorem Settled.later (settled : m.Settled) (registers : m'.registers = m.registers) (loads : m'.loads = m.loads)
    (later : m.now ≤ m'.now) : m'.Settled where
  registers r t ready := by
    unfold registerReady at ready
    rw [registers] at ready
    exact (settled.registers r t ready).trans later
  loads u mem := (settled.loads u (loads ▸ mem)).trans later
  units := loads ▸ settled.units

/-! ## Section 3: Cores that agree on everything but what has come to rest -/

/-- Nothing of earlier instructions is left in either core, they agree on all that is carried over, and their clock
has not gone back since. -/
structure Resembles (since : Time) (m m' : InOrder M) : Prop where
  /-- Clock, count and queued information. -/
  state : m'.state = m.state
  /-- The store buffers. -/
  stores : m'.stores = m.stores
  /-- The memories. -/
  memory : m'.memory = m.memory
  /-- The same registers are kept. -/
  size : m'.registers.size = m.registers.size
  /-- There are as many load units. -/
  units : m'.loads.freeAt.length = m.loads.freeAt.length
  /-- The left core is at rest. -/
  settled : m.Settled
  /-- The right core is at rest. -/
  settled' : m'.Settled
  /-- The clock has moved on, if at all. -/
  since : since ≤ m.now

namespace Resembles

theorem refl (settled : m.Settled) : Resembles m.now m m := ⟨rfl, rfl, rfl, rfl, rfl, settled, settled, le_refl _⟩

theorem now (related : Resembles since m m') : m'.now = m.now := congrArg (·.clock.now) related.state

/-- All load units of both cores are free. -/
theorem alike (related : Resembles since m m') : Slots.Alike m.now m.loads.freeAt m'.loads.freeAt := by
  have idle {l : List Time} (free : ∀ u ∈ l, u ≤ m.now) : l.map (max m.now) = List.replicate l.length m.now :=
    List.eq_replicate_iff.mpr ⟨List.length_map _, fun u mem => by
      obtain ⟨v, there, rfl⟩ := List.mem_map.mp mem
      exact max_eq_left (free v there)⟩
  unfold Slots.Alike
  rw [idle related.settled.loads, idle fun u mem => related.now ▸ related.settled'.loads u mem, related.units]

/-- The loads of an instruction take the same time on both cores. -/
theorem loaded (related : Resembles since m m') (i : Instruction) (infos : List MemoryInfo) :
    (m'.loaded i infos).1 = (m.loaded i infos).1 ∧
      (m'.loaded i infos).2.loads.freeAt.length = (m.loaded i infos).2.loads.freeAt.length := by
  unfold InOrder.loaded
  rw [related.settled.readyFrom, related.settled'.readyFrom, related.now]
  obtain ⟨same, alike⟩ := loadAll_alike related.stores related.alike (le_refl _) (infos.filter (·.direction == .read)) 0
  refine ⟨same, ?_⟩
  have lengths := congrArg List.length alike
  rw [List.length_map, List.length_map] at lengths
  exact lengths.symm

theorem completion (related : Resembles since m m') (i : Instruction) (infos : List MemoryInfo) :
    m'.completion i infos = m.completion i infos := by
  unfold InOrder.completion
  rw [(related.loaded i infos).1, related.state]

/-- The stores of an instruction leave the same store buffer on both cores. -/
theorem stored (related : Resembles since m m') (i : Instruction) (infos : List MemoryInfo) :
    (m'.stored i infos).1 = (m.stored i infos).1 ∧ (m'.stored i infos).2.stores = (m.stored i infos).2.stores := by
  have stores (m : InOrder M) (t : Time) (rs : List Register) :
      ((m.loaded i infos).2.write t rs).stores = m.stores := by
    show (InOrder.loaded m i infos).2.stores = m.stores
    unfold InOrder.loaded
    rw [loadAll_frame]
  unfold InOrder.stored
  rw [related.completion, related.now]
  exact storeAll_congr ((stores ..).trans (related.stores.trans (stores ..).symm)) _ _ _

/-- An instruction takes the same time on both cores. -/
theorem execute (related : Resembles since m m') (i : Instruction) (infos : List MemoryInfo) :
    Resembles since (m.execute i infos) (m'.execute i infos) where
  state := by
    rw [execute_eq, execute_eq]
    dsimp only
    rw [related.state, related.completion, (related.stored i infos).1]
  stores := by
    rw [execute_eq, execute_eq]
    exact (related.stored i infos).2
  memory := by
    rw [execute_eq, execute_eq]
    exact related.memory
  size := by
    rw [execute_eq, execute_eq, size_write, size_write]
    exact related.size
  units := by
    rw [execute_eq, execute_eq]
    exact (related.loaded i infos).2
  settled := related.settled.execute i infos
  settled' := related.settled'.execute i infos
  since := related.since.trans ((le_max_left _ _).trans (m.le_now_execute i infos))

/-- Both cores reject the same registers. -/
theorem outOfRange? (related : Resembles since m m') (i : Instruction) : m'.outOfRange? i = m.outOfRange? i := by
  unfold InOrder.outOfRange?
  rw [related.size]

/-- The same may happen to the clock, count and queue of both cores, if it does not set the clock back. -/
theorem setState (related : Resembles since m m') (f : ModelState → ModelState)
    (later : m.now ≤ (f m.state).clock.now) :
    Resembles since { m with state := f m.state } { m' with state := f m'.state } where
  state := congrArg f related.state
  stores := related.stores
  memory := related.memory
  size := related.size
  units := related.units
  settled := related.settled.later rfl rfl later
  settled' := by
    refine related.settled'.later rfl rfl ?_
    rw [related.now, related.state]
    exact later
  since := related.since.trans later

theorem setMemory (related : Resembles since m m') (memory : M) :
    Resembles since { m with memory } { m' with memory } where
  state := related.state
  stores := related.stores
  memory := rfl
  size := related.size
  units := related.units
  settled := related.settled.later rfl rfl (le_refl _)
  settled' := related.settled'.later rfl rfl (le_refl _)
  since := related.since

end Resembles

/-- The core with all registers ready since the start of time and new load units. -/
def forget (m : InOrder M) : InOrder M :=
  { m with
    registers := Array.replicate m.registers.size 0
    loads := .new m.loads.freeAt.length }

/-- A core that has forgotten is at rest. -/
theorem forget_settled (m : InOrder M) : m.forget.Settled where
  registers r t ready := by
    unfold registerReady forget at ready
    rw [Array.getElem?_replicate] at ready
    split at ready
    · obtain rfl := Option.some.inj ready
      exact Time.zero_le _
    · cases ready
  loads u mem := by
    unfold forget LoadUnits.new at mem
    rw [List.eq_of_mem_replicate mem]
    exact Time.zero_le _
  units := by
    unfold forget LoadUnits.new
    rw [← List.length_pos_iff, List.length_replicate]
    exact lt_max_of_lt_right Nat.one_pos

/-- A new core has nothing to forget. -/
theorem forget_new (period : Period) (costs : CostTable) (config : InOrderConfig) (memory : M) :
    (new period costs config memory).forget = new period costs config memory := by
  unfold forget new LoadUnits.new
  rw [Array.size_replicate, List.length_replicate, max_eq_left (le_max_right _ _)]

/-- It does not matter whether a core at rest forgets. -/
theorem Resembles.forget (related : Resembles since m m') : Resembles since m m'.forget where
  state := related.state
  stores := related.stores
  memory := related.memory
  size := Array.size_replicate.trans related.size
  units := by
    have some := List.length_pos_iff.mpr related.settled'.units
    unfold InOrder.forget LoadUnits.new
    rw [List.length_replicate, max_eq_left some]
    exact related.units
  settled := related.settled
  settled' := forget_settled m'
  since := related.since

/-! ## Section 4: The instruction stream -/

section

variable [MemorySystem M]

/-- Information that arrives does not move the clock. -/
theorem clock_pushInfos (infos : List MemoryInfo) (s : ModelState) :
    (infos.foldl ModelState.pushInfo s).clock = s.clock := by
  induction infos generalizing s with
  | nil => rfl
  | cons info rest ih =>
    rw [List.foldl_cons, ih]
    unfold ModelState.pushInfo
    split <;> rfl

/-- The fetch of an instruction. -/
theorem Resembles.fetch (related : Resembles since m m') (i : Instruction) :
    Lockstep (Resembles since) (fetch i m) (fetch i m') := by
  unfold InOrder.fetch
  split
  · refine lockstep_bind (S := Resembles since) (lockstep_zoom (R := Eq) ?_ ?_) ?_
    · rw [related.memory]
      exact Lockstep.refl (fun _ => rfl) _
    · rintro p _ rfl
      exact related.setMemory p
    · intro served s s' _ _ related
      exact .ok (related.setState (·.elapse 0 served.latency) (Time.le_add_right _ _))
  · exact lockstep_pure related

/-- The timing of an instruction. -/
theorem Resembles.time (related : Resembles since m m') (i : Instruction) :
    Lockstep (Resembles since) (time i m) (time i m') := by
  unfold InOrder.time
  rw [get_bind, get_bind, related.state, related.outOfRange?, related.size]
  cases m.state.infosReady i with
  | error e => exact lockstep_pure related
  | ok ready =>
    cases ready with
    | false => exact lockstep_pure related
    | true =>
      cases m.outOfRange? i with
      | some r => exact lockstep_pure related
      | none =>
        refine lockstep_bind (related.fetch i) fun _ s s' _ _ related => ?_
        rw [modify_bind, modify_bind, related.state]
        have taken := related.setState (·.dropOldest i.memoryOperands.length) (le_refl _)
        rw [related.state] at taken
        exact lockstep_pure (taken.execute i _)

/-- An instruction with the information on memory operands that arrives before it. -/
structure Arrival where
  /-- What arrives before it, in order. -/
  infos : List MemoryInfo
  /-- The instruction. -/
  instruction : Instruction
  deriving DecidableEq

/-- What a core shows after it was offered an instruction. -/
structure Record where
  /-- Whether the instruction was timed. -/
  answer : Except CallError Bool
  /-- The time on the clock. -/
  clock : Time
  /-- Instructions timed so far. -/
  instructions : Nat

/-- Queues the information that arrives and offers the instruction. -/
def offer (a : Arrival) : Faulting (InOrder M) Record := do
  modify fun m => { m with state := a.infos.foldl ModelState.pushInfo m.state }
  let answer ← InOrder.time a.instruction
  let m ← get
  pure { answer, clock := m.now, instructions := m.state.instructions }

/-- Offers an instruction to a core that remembers neither registers nor loads, before and afterwards. -/
def offerAfresh (a : Arrival) : Faulting (InOrder M) Record := do
  modify forget
  let record ← offer a
  modify forget
  pure record

/-- Offering an instruction. -/
theorem Resembles.offer (related : Resembles since m m') (a : Arrival) :
    Lockstep (Resembles since) (offer a m) (offer a m') := by
  have queued := related.setState (a.infos.foldl ModelState.pushInfo)
    (le_of_eq (congrArg Clock.now (clock_pushInfos ..).symm))
  unfold InOrder.offer
  rw [modify_bind, modify_bind]
  refine lockstep_bind (queued.time a.instruction) fun answer s s' _ _ related => ?_
  rw [get_bind, get_bind, related.now, related.state]
  exact lockstep_pure related

/-- Offering an instruction to a core that remembers the one before, and to one that does not. -/
theorem Resembles.offerAfresh (related : Resembles since m m') (a : Arrival) :
    Lockstep (Resembles since) (InOrder.offer a m) (offerAfresh a m') := by
  rw [← bind_pure (InOrder.offer a)]
  unfold InOrder.offerAfresh
  rw [modify_bind]
  refine lockstep_bind (related.forget.offer a) fun record s s' _ _ related => ?_
  rw [modify_bind]
  exact lockstep_pure related.forget

/-- In-order cores never overlap instructions.  Whatever stream of instructions a core is offered, and whatever is known
about their memory operands, after each of them every register is ready and every load unit free by the time on the
clock, and the clock does not go back.  So a core that has no memory of either shows the same clock and the same count
after each instruction, and keeps the same store buffer and memory. -/
theorem instructions_never_overlap (period : Period) (costs : CostTable) (config : InOrderConfig) (memory : M)
    (as : List Arrival) :
    (∀ records m, as.mapM offer (new period costs config memory) = .ok records m →
      (∀ (r : Register) (t : Time), m.registerReady r = some t → t ≤ m.now) ∧ (∀ u ∈ m.loads.freeAt, u ≤ m.now) ∧
        ∀ a record m', offer a m = .ok record m' → m.now ≤ m'.now) ∧
    Lockstep (fun m m' => m'.state = m.state ∧ m'.stores = m.stores ∧ m'.memory = m.memory)
      (as.mapM offer (new period costs config memory)) (as.mapM offerAfresh (new period costs config memory)) := by
  have fresh : (new period costs config memory).Settled := forget_new period costs config memory ▸ forget_settled _
  have together := lockstep_mapM (S := Resembles _) (fun a s s' related => related.offerAfresh a) (.refl fresh) as
  refine ⟨fun records m ran => ?_, together.mono fun s s' related => ⟨related.state, related.stores, related.memory⟩⟩
  rw [ran] at together
  obtain ⟨_, -, related⟩ := together.of_ok
  refine ⟨related.settled.registers, related.settled.loads, fun a record m' offered => ?_⟩
  -- a core resembles itself, and goes along with itself
  have next := (Resembles.refl related.settled).offer a
  rw [offered] at next
  obtain ⟨_, -, later⟩ := next.of_ok
  exact later.since

/-- A pair of loads into a register, the sum of two registers, and a load whose operand is not known yet. -/
def pairOfLoads : List Arrival :=
  [{ infos := [{ direction := .read, address := 0x40, latency := .ofNat 5, hit := .l2 },
        { direction := .read, address := 0x80, latency := .ofNat 7, hit := .l2 }]
     instruction := { operands := [.memory .read none, .memory .read none, .reg .write 1] } },
    { infos := [], instruction := { address := 0x1000, operands := [.reg .read 1, .reg .read 2, .reg .write 2] } },
    { infos := [], instruction := { operands := [.memory .read none] } }]

/-- A core with one load unit. -/
def oneLoadUnit : InOrder FixedMemory :=
  new (.ofTime (.ofNat 2)) {} { storeBufferEntries := 1, outstandingLoads := 1 }
    { data := ⟨0, .l2⟩, instruction := ⟨.ofNat 3, .l2⟩ }

/-- The second load waits for the first, and the sum for both of them: it begins when nothing of them is left. -/
theorem instructions_never_overlap_of_two_loads :
    ∃ records m, pairOfLoads.mapM offer oneLoadUnit = .ok records m ∧
      records.map (·.clock) = [.ofNat 14, .ofNat 19, .ofNat 19] ∧ (∀ u ∈ m.loads.freeAt, u ≤ m.now) ∧
      ∃ m', pairOfLoads.mapM offerAfresh oneLoadUnit = .ok records m' ∧ m'.stores = m.stores := by
  obtain ⟨rest, together⟩ := instructions_never_overlap (.ofTime (.ofNat 2)) {}
    { storeBufferEntries := 1, outstandingLoads := 1 } (⟨⟨0, .l2⟩, ⟨.ofNat 3, .l2⟩⟩ : FixedMemory) pairOfLoads
  have clocks : (match pairOfLoads.mapM offer oneLoadUnit with
      | .ok records _ => some (records.map (·.clock))
      | .error .. => none) = some [.ofNat 14, .ofNat 19, .ofNat 19] := by decide +kernel
  cases ran : pairOfLoads.mapM offer oneLoadUnit with
  | error f m =>
    rw [ran] at clocks
    cases clocks
  | ok records m =>
    rw [ran] at clocks
    unfold oneLoadUnit at ran ⊢
    rw [ran] at together
    obtain ⟨m', afresh, -, stores, -⟩ := together.of_ok
    exact ⟨records, m, rfl, Option.some.inj clocks, (rest records m ran).2.1, m', afresh, stores⟩

end

end InOrder

end CoreTiming
