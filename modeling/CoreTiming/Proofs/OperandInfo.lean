import CoreTiming.Proofs.Cracking
import Mathlib.Data.List.Forall2

/-!
# Information finds its operand

What is known about memory operands is queued in operand order, reads and writes mixed.  The micro-ops of an
instruction come in another order: all loads, the computation, all stores.  So two walks must agree, the one that
cracks the operands and the one that deals out the information by direction.

The first section says when the queue begins with the information on an instruction (`matchInfos`).  The others follow
an operand through both walks: the micro-op that is made for it (`OpInstance.MadeFor`) takes along what is known about
it (`OpInstance.Carries`).  Together they give `ModelState.crack_deals_out_infos`.
-/

namespace CoreTiming

/-! ## Section 1: What the queue begins with -/

/-- All information is there if the queue begins with the directions of the operands. -/
theorem matchInfos_append {ip : Address} {directions : List Direction} {infos rest : List MemoryInfo}
    (matching : infos.map (·.direction) = directions) : matchInfos ip directions (infos ++ rest) = .ok true := by
  subst matching
  induction infos with
  | nil => rfl
  | cons info infos ih => simpa [matchInfos] using ih

/-- If all information is there, it is what the queue begins with. -/
theorem exists_of_matchInfos {ip : Address} {directions : List Direction} {infos : List MemoryInfo}
    (h : matchInfos ip directions infos = .ok true) :
    ∃ own rest, infos = own ++ rest ∧ own.map (·.direction) = directions := by
  induction directions generalizing infos with
  | nil => exact ⟨[], infos, rfl, rfl⟩
  | cons direction directions ih =>
    cases infos with
    | nil => cases h
    | cons info infos =>
      unfold matchInfos at h
      split at h
      · rename_i same
        obtain ⟨own, rest, rfl, matching⟩ := ih h
        exact ⟨info :: own, rest, rfl, by simp [same, matching]⟩
      · cases h

namespace ModelState

/-- The queue holds `own`, one information for each memory operand of `i`, and behind it `rest`. -/
structure Holds (s : ModelState) (i : Instruction) (own rest : List MemoryInfo) : Prop where
  /-- What is queued. -/
  queued : s.infos = own ++ rest
  /-- Each operand has its information, in the direction of the operand. -/
  matching : own.map (·.direction) = i.memoryOperands

/-- The state with another queue. -/
def withInfos (queue : List MemoryInfo) (s : ModelState) : ModelState := { s with infos := queue }

variable {s : ModelState} {i : Instruction} {own rest : List MemoryInfo}

theorem Holds.length (h : s.Holds i own rest) : i.memoryOperands.length = own.length := by
  rw [← h.matching, List.length_map]

theorem Holds.ready (h : s.Holds i own rest) : s.infosReady i = .ok true := by
  unfold infosReady
  rw [h.queued]
  exact matchInfos_append h.matching

theorem Holds.oldest (h : s.Holds i own rest) : s.oldest i.memoryOperands.length = own := by
  unfold ModelState.oldest
  rw [h.queued, h.length, List.take_left]

theorem Holds.dropOldest (h : s.Holds i own rest) : s.dropOldest i.memoryOperands.length = s.withInfos rest := by
  unfold ModelState.dropOldest
  rw [h.queued, h.length, List.drop_left]
  rfl

/-- Only what the queue begins with counts. -/
theorem Holds.withInfos (h : s.Holds i own rest) (queue : List MemoryInfo) :
    (s.withInfos (own ++ queue)).Holds i own queue := ⟨rfl, h.matching⟩

theorem exists_holds (ready : s.infosReady i = .ok true) : ∃ own rest, s.Holds i own rest := by
  obtain ⟨own, rest, queued, matching⟩ := exists_of_matchInfos ready
  exact ⟨own, rest, queued, matching⟩

end ModelState

/-! ## Section 2: Operands and the micro-ops made for them -/

/-- The direction of a memory operand, and the register that its address is formed from. -/
def Operand.access? : Operand → Option (Direction × Option Register)
  | .reg .. => none
  | .memory direction base => some (direction, base)

/-- The memory operands of an instruction, in order. -/
def Instruction.accesses (i : Instruction) : List (Direction × Option Register) :=
  i.operands.filterMap Operand.access?

/-- The kind of micro-op that a memory operand becomes. -/
def Direction.opKind : Direction → OpKind
  | .read => .load
  | .write => .store

theorem Instruction.map_fst_accesses (i : Instruction) : i.accesses.map Prod.fst = i.memoryOperands := by
  unfold accesses memoryOperands
  rw [List.map_filterMap]
  congr 1
  funext operand
  cases operand <;> rfl

namespace OpInstance

/-- The micro-op was made for a memory operand, and nothing is known about its access. -/
structure MadeFor (operand : Direction × Option Register) (u : OpInstance) : Prop where
  /-- It reads or writes memory, as the operand says. -/
  kind : u.op.kind = operand.1.opKind
  /-- Its address is formed from the operand's register. -/
  base : u.op.addressRegisters = operand.2.toList
  /-- It waits for that register. -/
  waits : ∀ r ∈ operand.2, r ∈ u.op.sources
  /-- It takes one cycle besides its access. -/
  latency : u.latency = 1
  /-- It is not known where its access is served. -/
  dataHit : u.dataHit = .unresolved

/-- The micro-op was made for a memory operand, and takes along what is known about it. -/
structure Carries (period : Period) (operand : Direction × Option Register) (info : MemoryInfo) (u : OpInstance) :
    Prop where
  /-- It reads or writes memory, as the operand says. -/
  kind : u.op.kind = operand.1.opKind
  /-- Its address is formed from the operand's register. -/
  base : u.op.addressRegisters = operand.2.toList
  /-- It waits for that register. -/
  waits : ∀ r ∈ operand.2, r ∈ u.op.sources
  /-- It goes to the address that is known. -/
  address : u.address = info.address
  /-- It is served where it is known to be. -/
  dataHit : u.dataHit = info.hit
  /-- If that is known, so is how long it takes, to the nearest cycle. -/
  resolved : info.hit ≠ .unresolved →
    ∃ cycles, info.latency.divideRounded period.length = .ok cycles ∧ u.latency = 1 + cycles
  /-- Otherwise it takes one cycle until memory is asked. -/
  unresolved : info.hit = .unresolved → u.latency = 1

variable {operand : Direction × Option Register} {u : OpInstance} {period : Period} {info : MemoryInfo}

/-- The marks of first and last do not matter. -/
theorem MadeFor.mark (h : u.MadeFor operand) (first last : Bool) :
    MadeFor operand { u with op := { u.op with first, last } } :=
  ⟨h.kind, h.base, h.waits, h.latency, h.dataHit⟩

end OpInstance

/-- The latency, where it is known, can be turned into cycles and added to a micro-op that takes one. -/
def MemoryInfo.InRange (period : Period) (info : MemoryInfo) : Prop :=
  info.hit ≠ .unresolved →
    ∃ cycles, info.latency.divideRounded period.length = .ok cycles ∧ 1 + cycles ≤ Word.max

namespace InstrInstance

variable {u : InstrInstance} {costs : CostTable} {period : Period} {direction : Direction}

/-- The operands in one direction, with their addresses, come in operand order. -/
theorem map_fst_memoryOperands (u : InstrInstance) (direction : Direction) :
    (u.memoryOperands direction).map Prod.fst =
      (u.instruction.accesses.filter (·.1 == direction)).map Prod.snd := by
  unfold memoryOperands Instruction.accesses
  -- both walks go over the operands; the addresses are used up on the way
  generalize u.addresses = addresses
  induction u.instruction.operands generalizing addresses with
  | nil => rfl
  | cons operand rest ih =>
    cases operand with
    | reg d r => exact ih addresses
    | memory d base =>
      have step := ih addresses.tail
      by_cases same : d = direction
      · simpa [pairAddresses, Operand.access?, same] using step
      · simpa [pairAddresses, Operand.access?, same] using step

/-- Made one by one for operands in one direction. -/
theorem forall₂_madeFor {accesses : List (Direction × Option Register)} {operands : List (Option Register × Address)}
    {make : Nat → Option Register × Address → OpInstance} (bases : operands.map Prod.fst = accesses.map Prod.snd)
    (directed : ∀ access ∈ accesses, access.1 = direction)
    (made : ∀ i operand, OpInstance.MadeFor (direction, operand.1) (make i operand)) :
    List.Forall₂ OpInstance.MadeFor accesses (operands.mapIdx make) := by
  induction accesses generalizing operands make with
  | nil =>
    have none : operands = [] := List.map_eq_nil_iff.mp bases
    subst none
    exact List.Forall₂.nil
  | cons access accesses ih =>
    obtain ⟨d, base⟩ := access
    obtain ⟨operand, others, rfl, same, bases'⟩ := List.map_eq_cons_iff.mp bases
    have this_way : d = direction := directed _ List.mem_cons_self
    subst this_way
    subst same
    rw [List.mapIdx_cons]
    refine List.Forall₂.cons (made 0 operand) ?_
    exact ih bases' (fun a mem => directed a (List.mem_cons_of_mem _ mem)) fun i => made (i + 1)

/-- The loads are made for the operands that are read. -/
theorem madeFor_loads (u : InstrInstance) (destinations : Nat → List Register) :
    List.Forall₂ OpInstance.MadeFor (u.instruction.accesses.filter (·.1 == .read)) (u.loads destinations) := by
  have directed : ∀ access ∈ u.instruction.accesses.filter (·.1 == .read), access.1 = .read := by
    intro access mem
    simpa using (List.mem_filter.mp mem).2
  apply forall₂_madeFor (u.map_fst_memoryOperands .read) directed
  · intro i ⟨base, address⟩
    exact ⟨rfl, rfl, fun r mem => Option.mem_toList.mpr mem, rfl, rfl⟩

/-- To map a list is to map it without regard to positions. -/
theorem map_eq_mapIdx {α β : Type} (f : α → β) (l : List α) : l.map f = l.mapIdx fun _ => f := by
  apply List.ext_getElem?
  intro i
  rw [List.getElem?_map, List.getElem?_mapIdx]

/-- The stores are made for the operands that are written. -/
theorem madeFor_stores (u : InstrInstance) (data : List Register) :
    List.Forall₂ OpInstance.MadeFor (u.instruction.accesses.filter (·.1 == .write)) (u.stores data) := by
  unfold stores
  rw [map_eq_mapIdx]
  have directed : ∀ access ∈ u.instruction.accesses.filter (·.1 == .write), access.1 = .write := by
    intro access mem
    simpa using (List.mem_filter.mp mem).2
  apply forall₂_madeFor (u.map_fst_memoryOperands .write) directed
  · intro i ⟨base, address⟩
    exact ⟨rfl, rfl, fun r mem => List.mem_append_right _ (Option.mem_toList.mpr mem), rfl, rfl⟩

/-- Marking first and last leaves micro-ops with the operands they were made for. -/
theorem forall₂_mark {accesses : List (Direction × Option Register)} {ops : List OpInstance}
    (made : List.Forall₂ OpInstance.MadeFor accesses ops) (first last : Nat → Bool) :
    List.Forall₂ OpInstance.MadeFor accesses
      (ops.mapIdx fun i v => { v with op := { v.op with first := first i, last := last i } }) := by
  induction made generalizing first last with
  | nil => exact List.Forall₂.nil
  | cons one _ ih =>
    rw [List.mapIdx_cons]
    exact List.Forall₂.cons (one.mark _ _) (ih (fun i => first (i + 1)) fun i => last (i + 1))

/-- Decoding stops nowhere but at the own cost of a pseudo instruction. -/
theorem exists_decode (u : InstrInstance) (costs : CostTable) (period : Period)
    (ownCost : u.instruction.kind.isDynamic = true →
      ∃ cycles, u.instruction.ownCost.divideRounded period.length = .ok cycles) :
    ∃ ops, u.decode costs period = .ok ops := by
  unfold decode
  split
  · exact ⟨_, rfl⟩
  · have latency : ∃ n, u.computeLatency costs period = .ok n := by
      unfold computeLatency
      split
      · rename_i dynamic
        obtain ⟨cycles, rounded⟩ := ownCost dynamic
        exact ⟨_, Except.bind_eq_ok.mpr ⟨cycles, rounded, rfl⟩⟩
      · exact ⟨_, rfl⟩
    obtain ⟨n, stated⟩ := latency
    obtain ⟨computation, computed⟩ : ∃ v, u.compute costs period = .ok v := by
      unfold compute
      exact ⟨_, Except.bind_eq_ok.mpr ⟨n, stated, rfl⟩⟩
    exact ⟨_, Except.bind_eq_ok.mpr ⟨computation, computed, rfl⟩⟩

/-- The computation accesses no memory. -/
theorem no_access_of_compute {v : OpInstance} (h : u.compute costs period = .ok v) :
    v.op.isLoad = false ∧ v.op.isStore = false := by
  unfold compute at h
  obtain ⟨latency, -, h⟩ := Except.bind_eq_ok.mp h
  cases h
  cases u.instruction.kind <;> exact ⟨rfl, rfl⟩

end InstrInstance

/-- The first micro-op alone is marked as the first of its instruction, and the last alone as the last. -/
def EndsMarked (ops : List OpInstance) : Prop :=
  ∀ k v, ops[k]? = some v → (v.op.first = true ↔ k = 0) ∧ (v.op.last = true ↔ k + 1 = ops.length)

theorem InstrInstance.endsMarked_markEnds (ops : List OpInstance) : EndsMarked (markEnds ops) := by
  unfold markEnds
  intro k v at_k
  rw [List.getElem?_mapIdx] at at_k
  obtain ⟨w, -, rfl⟩ := Option.map_eq_some_iff.mp at_k
  simp

/-- Whether an end is marked is a matter of the micro-ops alone. -/
theorem EndsMarked.congr {ops ops' : List OpInstance} (marked : EndsMarked ops)
    (same : ops'.map OpInstance.frame = ops.map OpInstance.frame) : EndsMarked ops' := by
  have length := congrArg List.length same
  rw [List.length_map, List.length_map] at length
  intro k v at_k
  have framed := congrArg (fun l => l[k]?) same
  simp only [List.getElem?_map, at_k, Option.map_some] at framed
  obtain ⟨w, at_k', equal⟩ := Option.map_eq_some_iff.mp framed.symm
  have op : w.op = v.op := congrArg Prod.fst equal
  rw [length, ← op]
  exact marked k w at_k'

/-- The parts that the micro-ops of an instruction come in. -/
structure InParts (u : InstrInstance) (loads computation stores : List OpInstance) : Prop where
  /-- One load for each operand that is read, in operand order. -/
  loads : List.Forall₂ OpInstance.MadeFor (u.instruction.accesses.filter (·.1 == .read)) loads
  /-- At most one micro-op for the computation. -/
  atMostOne : computation.length ≤ 1
  /-- It accesses no memory. -/
  noAccess : ∀ v ∈ computation, v.op.isLoad = false ∧ v.op.isStore = false
  /-- One store for each operand that is written, in operand order. -/
  stores : List.Forall₂ OpInstance.MadeFor (u.instruction.accesses.filter (·.1 == .write)) stores

/-- An instruction is decoded into its loads, its computation and its stores. -/
theorem InstrInstance.exists_parts {u : InstrInstance} {costs : CostTable} {period : Period} {ops : List OpInstance}
    (h : u.decode costs period = .ok ops) :
    ∃ loads computation stores, ops = loads ++ (computation ++ stores) ∧ InParts u loads computation stores ∧
      EndsMarked ops := by
  unfold decode at h
  split at h
  · -- data only moves: there is no computation
    cases h
    unfold markEnds
    rw [List.mapIdx_append]
    refine ⟨_, [], _, rfl, ⟨?_, by simp, by simp, ?_⟩, ?_⟩
    · exact forall₂_mark (u.madeFor_loads _) _ _
    · exact forall₂_mark (u.madeFor_stores _) _ _
    · rw [← List.mapIdx_append]
      exact endsMarked_markEnds _
  · obtain ⟨computation, computed, h⟩ := Except.bind_eq_ok.mp h
    cases h
    unfold markEnds
    rw [← List.singleton_append, List.mapIdx_append, List.mapIdx_append]
    refine ⟨_, _, _, rfl, ⟨?_, by simp, ?_, ?_⟩, ?_⟩
    · exact forall₂_mark (u.madeFor_loads _) _ _
    · have noAccess := no_access_of_compute computed
      intro v mem
      rw [List.mapIdx_singleton, List.mem_singleton] at mem
      rw [mem]
      exact noAccess
    · exact forall₂_mark (u.madeFor_stores _) _ _
    · rw [← List.mapIdx_append, ← List.mapIdx_append]
      exact endsMarked_markEnds _

/-! ## Section 3: Dealing out -/

/-- Information in range can be taken along. -/
theorem OpInstance.exists_resolve {operand : Direction × Option Register} {u : OpInstance} {period : Period}
    {info : MemoryInfo} (made : u.MadeFor operand) (inRange : info.InRange period) :
    ∃ u', u.resolve period info = .ok u' ∧ u'.Carries period operand info := by
  by_cases known : info.hit = .unresolved
  · refine ⟨{ u with address := info.address }, ?_, ?_⟩
    · unfold resolve
      rw [if_pos known]
      rfl
    · exact ⟨made.kind, made.base, made.waits, rfl, made.dataHit.trans known.symm, fun unknown => absurd known unknown,
        fun _ => made.latency⟩
  · obtain ⟨cycles, rounded, fits⟩ := inRange known
    have added : Word.add u.latency cycles = .ok (1 + cycles) := by
      rw [made.latency]
      exact Word.add_eq_ok_iff.mpr ⟨fits, rfl⟩
    refine ⟨{ u with address := info.address, dataHit := info.hit, latency := 1 + cycles }, ?_, ?_⟩
    · unfold resolve
      rw [if_neg known]
      refine Except.bind_eq_ok.mpr ⟨cycles, rounded, ?_⟩
      exact Except.bind_eq_ok.mpr ⟨1 + cycles, added, rfl⟩
    · exact ⟨made.kind, made.base, made.waits, rfl, rfl, fun _ => ⟨cycles, rounded, rfl⟩,
        fun unknown => absurd unknown known⟩

/-- The queue for `queue`, where `infos` in one direction come before what is in it. -/
def Direction.ahead (direction queued : Direction) (infos queue : List MemoryInfo) : List MemoryInfo :=
  if direction = queued then infos ++ queue else queue

/-- The next information in the direction of a micro-op is its own. -/
theorem attachInfos_made {operand : Direction × Option Register} {u u' : OpInstance} {period : Period}
    {info : MemoryInfo} {us us' : List OpInstance} {infos reads writes : List MemoryInfo} (made : u.MadeFor operand)
    (resolved : u.resolve period info = .ok u')
    (others : attachInfos period us (operand.1.ahead .read infos reads) (operand.1.ahead .write infos writes) =
      .ok us') :
    attachInfos period (u :: us) (operand.1.ahead .read (info :: infos) reads)
      (operand.1.ahead .write (info :: infos) writes) = .ok (u' :: us') := by
  have kind := made.kind
  obtain ⟨direction, base⟩ := operand
  cases direction with
  | read =>
    have load : u.op.isLoad = true := by simp [MicroOp.isLoad, kind, Direction.opKind]
    have store : u.op.isStore = false := by simp [MicroOp.isStore, kind, Direction.opKind]
    simp only [Direction.ahead, reduceCtorEq, if_true, if_false, List.cons_append] at others ⊢
    unfold attachInfos
    simp only [load, store, if_true, List.head?_cons, List.tail_cons, resolved, Bool.false_eq_true, if_false, others]
    rfl
  | write =>
    have load : u.op.isLoad = false := by simp [MicroOp.isLoad, kind, Direction.opKind]
    have store : u.op.isStore = true := by simp [MicroOp.isStore, kind, Direction.opKind]
    simp only [Direction.ahead, reduceCtorEq, if_true, if_false, List.cons_append] at others ⊢
    unfold attachInfos
    simp only [load, store, if_true, List.head?_cons, List.tail_cons, resolved, Bool.false_eq_true, if_false, others]
    rfl

/-- Micro-ops made for operands in one direction take along the information in that direction, one after the other. -/
theorem exists_attachInfos {direction : Direction} {accesses : List (Direction × Option Register)}
    {us : List OpInstance} {period : Period} {infos : List MemoryInfo}
    (made : List.Forall₂ OpInstance.MadeFor accesses us) (directed : ∀ access ∈ accesses, access.1 = direction)
    (length : infos.length = accesses.length) (inRange : ∀ info ∈ infos, info.InRange period) :
    ∃ us', List.Forall₂ (fun known u => u.Carries period known.1 known.2) (accesses.zip infos) us' ∧
      ∀ {more more' reads writes}, attachInfos period more reads writes = .ok more' →
        attachInfos period (us ++ more) (direction.ahead .read infos reads) (direction.ahead .write infos writes) =
          .ok (us' ++ more') := by
  induction made generalizing infos with
  | nil =>
    have none := List.length_eq_zero_iff.mp length
    subst none
    refine ⟨[], List.Forall₂.nil, ?_⟩
    intro more more' reads writes attached
    simpa [Direction.ahead] using attached
  | @cons access u accesses us one made ih =>
    obtain ⟨info, infos, rfl⟩ := List.exists_cons_of_length_eq_add_one length
    obtain ⟨u', resolved, carries⟩ := OpInstance.exists_resolve one (inRange info List.mem_cons_self)
    have here := directed access List.mem_cons_self
    obtain ⟨us', carried, attached⟩ := ih (fun a mem => directed a (List.mem_cons_of_mem _ mem))
      (Nat.succ.inj length) fun i mem => inRange i (List.mem_cons_of_mem _ mem)
    refine ⟨u' :: us', List.Forall₂.cons carries carried, ?_⟩
    intro more more' reads writes known
    subst here
    exact attachInfos_made one resolved (attached known)

/-- A micro-op that accesses no memory takes nothing along. -/
theorem attachInfos_computation {computation us us' : List OpInstance} {period : Period}
    {reads writes : List MemoryInfo}
    (noAccess : ∀ v ∈ computation, v.op.isLoad = false ∧ v.op.isStore = false)
    (others : attachInfos period us reads writes = .ok us') :
    attachInfos period (computation ++ us) reads writes = .ok (computation ++ us') := by
  induction computation with
  | nil => exact others
  | cons v computation ih =>
    obtain ⟨load, store⟩ := noAccess v List.mem_cons_self
    have rest := ih fun w mem => noAccess w (List.mem_cons_of_mem _ mem)
    rw [List.cons_append]
    unfold attachInfos
    simp only [load, store, Bool.false_eq_true, if_false, rest]
    rfl

/-- Operands in one direction are paired with the information in that direction. -/
theorem zip_filter_direction {accesses : List (Direction × Option Register)} {infos : List MemoryInfo}
    (matching : infos.map (·.direction) = accesses.map Prod.fst) (direction : Direction) :
    (accesses.zip infos).filter (·.1.1 == direction) =
      (accesses.filter (·.1 == direction)).zip (infos.filter (·.direction == direction)) := by
  induction accesses generalizing infos with
  | nil => rfl
  | cons access accesses ih =>
    obtain ⟨info, infos, rfl, same, matching'⟩ := List.map_eq_cons_iff.mp matching
    by_cases this : access.1 = direction
    · simp [this, same, ih matching']
    · simp [this, same, ih matching']

/-- The micro-ops of an instruction, once they have taken along what is known about its operands. -/
structure DealtOut (period : Period) (i : Instruction) (infos : List MemoryInfo)
    (loads computation stores : List OpInstance) : Prop where
  /-- One load for each operand that is read, in operand order; the information on that operand goes with it. -/
  reads : List.Forall₂ (fun known u => u.Carries period known.1 known.2)
    ((i.accesses.zip infos).filter (·.1.1 == .read)) loads
  /-- At most one micro-op for the computation. -/
  atMostOne : computation.length ≤ 1
  /-- It accesses no memory. -/
  noAccess : ∀ v ∈ computation, v.op.isLoad = false ∧ v.op.isStore = false
  /-- One store for each operand that is written, in operand order; the information on that operand goes with it. -/
  writes : List.Forall₂ (fun known u => u.Carries period known.1 known.2)
    ((i.accesses.zip infos).filter (·.1.1 == .write)) stores
  /-- There is a micro-op. -/
  filled : loads ++ computation ++ stores ≠ []
  /-- The first one alone is marked as the first, and the last one alone as the last. -/
  ends : EndsMarked (loads ++ computation ++ stores)

/-- The parts of an instruction take along what is known about its operands. -/
theorem InParts.exists_dealtOut {u : InstrInstance} {loads computation stores : List OpInstance} {period : Period}
    {infos : List MemoryInfo} (parts : InParts u loads computation stores)
    (ends : EndsMarked (loads ++ (computation ++ stores))) (filled : loads ++ (computation ++ stores) ≠ [])
    (matching : infos.map (·.direction) = u.instruction.memoryOperands)
    (inRange : ∀ info ∈ infos, info.InRange period) :
    ∃ loads' computation' stores', attachInfos period (loads ++ (computation ++ stores))
        (infos.filter (·.direction == .read)) (infos.filter (·.direction == .write)) =
          .ok (loads' ++ computation' ++ stores') ∧
      DealtOut period u.instruction infos loads' computation' stores' := by
  rw [← u.instruction.map_fst_accesses] at matching
  -- in each direction there is as much information as there are operands
  have length : ∀ direction : Direction, (infos.filter (·.direction == direction)).length =
      (u.instruction.accesses.filter (·.1 == direction)).length := by
    intro direction
    rw [← List.countP_eq_length_filter, ← List.countP_eq_length_filter]
    have counted := congrArg (List.countP (· == direction)) matching
    rwa [List.countP_map, List.countP_map] at counted
  have directed : ∀ direction : Direction, ∀ access ∈ u.instruction.accesses.filter (·.1 == direction),
      access.1 = direction := by
    intro direction access mem
    simpa using (List.mem_filter.mp mem).2
  have inRange' : ∀ direction : Direction, ∀ info ∈ infos.filter (·.direction == direction), info.InRange period :=
    fun direction info mem => inRange info (List.mem_of_mem_filter mem)
  obtain ⟨loads', loaded, attached⟩ := exists_attachInfos parts.loads (directed .read) (length .read) (inRange' .read)
  obtain ⟨stores', stored, attached'⟩ :=
    exists_attachInfos parts.stores (directed .write) (length .write) (inRange' .write)
  have all : attachInfos period (loads ++ (computation ++ stores)) (infos.filter (·.direction == .read))
      (infos.filter (·.direction == .write)) = .ok (loads' ++ computation ++ stores') := by
    have storing := @attached' [] [] [] [] rfl
    simp only [Direction.ahead, reduceCtorEq, if_true, if_false, List.append_nil] at storing
    have computing := attachInfos_computation parts.noAccess storing
    have loading := attached computing
    simpa [Direction.ahead] using loading
  refine ⟨loads', computation, stores', all, ?_⟩
  have same := map_frame_attachInfos all
  refine ⟨?_, parts.atMostOne, parts.noAccess, ?_, ?_, ends.congr same⟩
  · rw [zip_filter_direction matching]
    exact loaded
  · rw [zip_filter_direction matching]
    exact stored
  · intro none
    rw [none, List.map_nil] at same
    exact filled (List.map_eq_nil_iff.mp same.symm)

/-- If the queue begins with one information for each memory operand, in the direction of the operand, then cracking
the instruction gives each operand its micro-op and each micro-op the information on its operand.  Exactly that
information leaves the queue. -/
theorem ModelState.crack_deals_out_infos {s : ModelState} {u : InstrInstance} {infos rest : List MemoryInfo}
    (queued : s.infos = infos ++ rest) (matching : infos.map (·.direction) = u.instruction.memoryOperands)
    (inRange : ∀ info ∈ infos, info.InRange s.clock.period)
    (ownCost : u.instruction.kind.isDynamic = true →
      ∃ cycles, u.instruction.ownCost.divideRounded s.clock.period.length = .ok cycles) :
    ∃ loads computation stores,
      s.crack u = .ok (.ok (loads ++ computation ++ stores, { s with infos := rest })) ∧
        DealtOut s.clock.period u.instruction infos loads computation stores := by
  obtain ⟨ops, decoded⟩ := u.exists_decode s.costs s.clock.period ownCost
  have one := InstrInstance.oneInstruction_decode decoded
  obtain ⟨loads, computation, stores, rfl, parts, ends⟩ := InstrInstance.exists_parts decoded
  have filled : loads ++ (computation ++ stores) ≠ [] := by
    intro none
    have last := one.last
    rw [none] at last
    simp at last
  obtain ⟨loads', computation', stores', attached, dealt⟩ := parts.exists_dealtOut ends filled matching inRange
  refine ⟨loads', computation', stores', ?_, dealt⟩
  have holds : s.Holds u.instruction infos rest := ⟨queued, matching⟩
  have writes : infos.filter (fun info => !(info.direction == .read)) = infos.filter (·.direction == .write) := by
    apply List.filter_congr
    intro info _
    cases info.direction <;> rfl
  unfold crack
  refine Except.bind_eq_ok.mpr ⟨_, decoded, ?_⟩
  simp only [holds.ready, holds.oldest, holds.dropOldest, List.partition_eq_filter_filter, Function.comp_def, writes]
  exact Except.bind_eq_ok.mpr ⟨_, attached, rfl⟩

/-- Two reads around a write, and a register between them. -/
def readsAroundWrite : InstrInstance :=
  { instruction :=
      { kind := .add
        operands := [.memory .read (some 3), .reg .read 1, .memory .write (some 4), .memory .read none] } }

/-- What is known about `readsAroundWrite`; memory has yet to be asked about the second read. -/
def aroundWrite : List MemoryInfo :=
  [ { direction := .read, address := 64, latency := ⟨2499⟩, hit := .l1 },
    { direction := .write, address := 128, latency := ⟨2500⟩, hit := .dramLocal },
    { direction := .read, address := 192, latency := 0, hit := .unresolved } ]

/-- What is known about a read of the next instruction. -/
def behindAround : MemoryInfo := { direction := .read, latency := 0, hit := .l1 }

/-- The reads go to the loads and the write to the store, although they were queued in turn; what is queued behind
them stays. -/
theorem ModelState.crack_deals_out_infos_of_aroundWrite :
    let s := { ModelState.new (.ofTime ⟨1000⟩) {} with infos := aroundWrite ++ [behindAround] }
    ∃ loads computation stores,
      s.crack readsAroundWrite = .ok (.ok (loads ++ computation ++ stores, { s with infos := [behindAround] })) ∧
        DealtOut s.clock.period readsAroundWrite.instruction aroundWrite loads computation stores := by
  intro s
  apply crack_deals_out_infos
  · rfl
  · rfl
  · intro info mem known
    simp only [aroundWrite, List.mem_cons, List.not_mem_nil, or_false] at mem
    rcases mem with rfl | rfl | rfl
    · exact ⟨2, by decide, by decide⟩
    · exact ⟨3, by decide, by decide⟩
    · exact absurd rfl known
  · intro dynamic
    cases dynamic

end CoreTiming
