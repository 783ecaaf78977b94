import CoreTiming.Model.Windowed
import CoreTiming.Proofs.Keeping
import CoreTiming.Proofs.Waiting

/-!
# What an instruction is cracked into

The micro-ops of one instruction retire it once: exactly one of them is marked as the last.  None is on a wrong path
or comes with producers of its own, and there is at most one besides those of the memory operands.  The information
on the memory operands, which they take along, changes none of this.
-/

namespace CoreTiming

/-- The micro-ops of one instruction with so many memory operands. -/
structure OneInstruction (operands : Nat) (ops : List OpInstance) : Prop where
  /-- Exactly one of them retires the instruction. -/
  last : ops.countP (·.op.last) = 1
  /-- None lies on a wrong path. -/
  kept : ∀ u ∈ ops, u.squashed = false
  /-- None lists producers. -/
  unlinked : Unlinked ops
  /-- At most one accesses no memory. -/
  length : ops.length ≤ operands + 1

/-- What a micro-op is, whatever is known about its memory access. -/
def OpInstance.frame (u : OpInstance) : MicroOp × Bool × BoundedList maxProducers := (u.op, u.squashed, u.producers)

theorem OneInstruction.congr {operands : Nat} {ops ops' : List OpInstance} (h : OneInstruction operands ops)
    (same : ops'.map OpInstance.frame = ops.map OpInstance.frame) : OneInstruction operands ops' := by
  have inside : ∀ u ∈ ops', ∃ v ∈ ops, v.frame = u.frame := by
    intro u mem
    have listed := List.mem_map_of_mem (f := OpInstance.frame) mem
    rw [same] at listed
    exact List.mem_map.mp listed
  refine ⟨?_, fun u mem => ?_, fun u mem => ?_, ?_⟩
  · have counted := congrArg (List.countP fun f => f.1.last) same
    rw [List.countP_map, List.countP_map] at counted
    exact counted.trans h.last
  · obtain ⟨v, mem', frame⟩ := inside u mem
    have squashed : v.squashed = u.squashed := congrArg (·.2.1) frame
    rw [← squashed]
    exact h.kept v mem'
  · obtain ⟨v, mem', frame⟩ := inside u mem
    have producers : v.producers = u.producers := congrArg (·.2.2) frame
    rw [← producers]
    exact h.unlinked v mem'
  · have length := congrArg List.length same
    simp only [List.length_map] at length
    rw [length]
    exact h.length

namespace InstrInstance

variable {u : InstrInstance} {costs : CostTable} {period : Period} {ops : List OpInstance}

/-! ## Section 1: Memory operands -/

theorem length_pairAddresses (operands : List Operand) (addresses : List Address) :
    (pairAddresses operands addresses).length = (operands.filterMap Operand.memory?).length := by
  induction operands generalizing addresses with
  | nil => rfl
  | cons operand rest ih =>
    cases operand with
    | reg direction register => exact ih addresses
    | memory direction base => simpa [pairAddresses, Operand.memory?] using ih addresses.tail

/-- Every memory operand is read or written. -/
theorem length_memoryOperands (u : InstrInstance) :
    (u.memoryOperands .read).length + (u.memoryOperands .write).length = u.instruction.memoryOperands.length := by
  unfold InstrInstance.memoryOperands Instruction.memoryOperands
  rw [← length_pairAddresses u.instruction.operands u.addresses]
  induction pairAddresses u.instruction.operands u.addresses with
  | nil => rfl
  | cons operand rest ih =>
    obtain ⟨direction, base, address⟩ := operand
    cases direction with
    | read =>
      rw [List.filterMap_cons_some (by rfl), List.filterMap_cons_none (by rfl), List.length_cons, List.length_cons]
      omega
    | write =>
      rw [List.filterMap_cons_none (by rfl), List.filterMap_cons_some (by rfl), List.length_cons, List.length_cons]
      omega

/-! ## Section 2: Decoding -/

/-- Of the micro-ops that are marked as one instruction, only that in the end is the last one. -/
theorem countP_last_markEnds (filled : ops ≠ []) : (markEnds ops).countP (·.op.last) = 1 := by
  obtain ⟨front, v, rfl⟩ : ∃ front v, ops = front ++ [v] :=
    ⟨ops.dropLast, ops.getLast filled, (List.dropLast_append_getLast filled).symm⟩
  unfold markEnds
  rw [List.mapIdx_append, List.countP_append]
  have none : (front.mapIdx fun i u =>
      ({ u with op := { u.op with first := i == 0, last := i + 1 == (front ++ [v]).length } } : OpInstance)).countP
        (·.op.last) = 0 := by
    rw [List.countP_eq_zero]
    intro w mem
    obtain ⟨i, inside, rfl⟩ := List.mem_mapIdx.mp mem
    simp
    omega
  rw [none]
  simp

theorem mem_markEnds {v : OpInstance} (mem : v ∈ markEnds ops) :
    ∃ w ∈ ops, v.squashed = w.squashed ∧ v.producers = w.producers := by
  obtain ⟨i, inside, rfl⟩ := List.mem_mapIdx.mp mem
  exact ⟨ops[i], List.getElem_mem inside, rfl, rfl⟩

theorem oneInstruction_markEnds {operands : Nat} (filled : ops ≠ [])
    (fresh : ∀ v ∈ ops, v.squashed = false ∧ v.producers = .empty) (length : ops.length ≤ operands + 1) :
    OneInstruction operands (markEnds ops) := by
  refine ⟨countP_last_markEnds filled, fun v mem => ?_, fun v mem => ?_, ?_⟩
  · obtain ⟨w, mem', squashed, -⟩ := mem_markEnds mem
    rw [squashed]
    exact (fresh w mem').1
  · obtain ⟨w, mem', -, producers⟩ := mem_markEnds mem
    rw [producers, (fresh w mem').2]
    rfl
  · unfold markEnds
    rwa [List.length_mapIdx]

theorem fresh_loads (u : InstrInstance) (destinations : Nat → List Register) :
    ∀ v ∈ u.loads destinations, v.squashed = false ∧ v.producers = .empty := by
  intro v mem
  obtain ⟨i, inside, rfl⟩ := List.mem_mapIdx.mp mem
  exact ⟨rfl, rfl⟩

theorem fresh_stores (u : InstrInstance) (data : List Register) :
    ∀ v ∈ u.stores data, v.squashed = false ∧ v.producers = .empty := by
  intro v mem
  obtain ⟨operand, -, rfl⟩ := List.mem_map.mp mem
  exact ⟨rfl, rfl⟩

theorem fresh_compute {v : OpInstance} (h : u.compute costs period = .ok v) :
    v.squashed = false ∧ v.producers = .empty := by
  unfold compute at h
  obtain ⟨latency, -, h⟩ := Except.bind_eq_ok.mp h
  cases h
  exact ⟨rfl, rfl⟩

theorem length_loads (u : InstrInstance) (destinations : Nat → List Register) :
    (u.loads destinations).length = (u.memoryOperands .read).length := List.length_mapIdx

theorem length_stores (u : InstrInstance) (data : List Register) :
    (u.stores data).length = (u.memoryOperands .write).length := List.length_map _

theorem oneInstruction_decode (h : u.decode costs period = .ok ops) :
    OneInstruction u.instruction.memoryOperands.length ops := by
  have operands := u.length_memoryOperands
  unfold decode at h
  split at h
  · rename_i moves
    cases h
    refine oneInstruction_markEnds (fun empty => ?_) (fun v mem => ?_) ?_
    · have none := congrArg List.length empty
      simp only [List.length_append, length_loads, length_stores, List.length_nil] at none
      simp only [movesOnly, Bool.and_eq_true, Bool.not_eq_true', Bool.and_eq_false_iff,
        List.isEmpty_eq_false_iff] at moves
      rcases moves.2 with some | some
      · exact some (List.length_eq_zero_iff.mp (by omega))
      · exact some (List.length_eq_zero_iff.mp (by omega))
    · rcases List.mem_append.mp mem with load | store
      · exact u.fresh_loads _ v load
      · exact u.fresh_stores _ v store
    · rw [List.length_append, length_loads, length_stores]
      omega
  · obtain ⟨computation, computed, h⟩ := Except.bind_eq_ok.mp h
    cases h
    refine oneInstruction_markEnds (by simp) (fun v mem => ?_) ?_
    · rcases List.mem_append.mp mem with load | other
      · exact u.fresh_loads _ v load
      · rcases List.mem_cons.mp other with rfl | store
        · exact fresh_compute computed
        · exact u.fresh_stores _ v store
    · rw [List.length_append, List.length_cons, length_loads, length_stores]
      omega

theorem buffers_decode (u : InstrInstance) (costs : CostTable) (period : Period) :
    Except.Buffers (u.decode costs period) := by
  unfold decode
  split
  · exact Except.buffers_pure _
  · refine Except.Buffers.bind ?_ fun _ => Except.buffers_pure _
    unfold compute
    refine Except.Buffers.bind ?_ fun _ => Except.buffers_pure _
    unfold computeLatency
    split
    · exact (Time.buffers_divideRounded _ _).bind fun _ => Except.buffers_pure _
    · exact (Except.buffers_pure _).bind fun _ => Except.buffers_pure _

end InstrInstance

/-! ## Section 3: Information on memory operands -/

theorem OpInstance.frame_resolve {u u' : OpInstance} {period : Period} {info : MemoryInfo}
    (h : u.resolve period info = .ok u') : u'.frame = u.frame := by
  unfold resolve at h
  split at h
  · cases h
    rfl
  · obtain ⟨cycles, -, h⟩ := Except.bind_eq_ok.mp h
    unfold resolveData at h
    obtain ⟨latency, -, h⟩ := Except.bind_eq_ok.mp h
    cases h
    rfl

theorem OpInstance.buffers_resolve (u : OpInstance) (period : Period) (info : MemoryInfo) :
    Except.Buffers (u.resolve period info) := by
  unfold resolve
  split
  · exact Except.buffers_pure _
  · exact (Time.buffers_divideRounded _ _).bind fun _ => OpInstance.buffers_resolveData _ _ _

theorem map_frame_attachInfos {period : Period} {us us' : List OpInstance} {reads writes : List MemoryInfo}
    (h : attachInfos period us reads writes = .ok us') : us'.map OpInstance.frame = us.map OpInstance.frame := by
  induction us generalizing us' reads writes with
  | nil =>
    cases h
    rfl
  | cons u us ih =>
    unfold attachInfos at h
    dsimp only at h
    split at h
    · obtain ⟨u', resolved, h⟩ := Except.bind_eq_ok.mp h
      obtain ⟨rest, attached, h⟩ := Except.bind_eq_ok.mp h
      cases h
      rw [List.map_cons, List.map_cons, ih attached, OpInstance.frame_resolve resolved]
    · rw [pure_bind] at h
      obtain ⟨rest, attached, h⟩ := Except.bind_eq_ok.mp h
      cases h
      rw [List.map_cons, List.map_cons, ih attached]

/-- Where nothing is known, micro-ops stay as they are. -/
theorem attachInfos_nil (period : Period) (us : List OpInstance) : attachInfos period us [] [] = .ok us := by
  induction us with
  | nil => rfl
  | cons u us ih =>
    have nothing : (if u.op.isLoad then ([] : List MemoryInfo).head?
        else if u.op.isStore then ([] : List MemoryInfo).head? else none) = none := by
      split
      · rfl
      · split
        · rfl
        · rfl
    unfold attachInfos
    simp only [nothing, List.tail_nil, ite_self, pure_bind]
    rw [ih]
    rfl

theorem buffers_attachInfos (period : Period) (us : List OpInstance) (reads writes : List MemoryInfo) :
    Except.Buffers (attachInfos period us reads writes) := by
  induction us generalizing reads writes with
  | nil => exact Except.buffers_pure _
  | cons u us ih =>
    unfold attachInfos
    dsimp only
    split
    · exact (OpInstance.buffers_resolve _ _ _).bind fun _ => (ih _ _).bind fun _ => Except.buffers_pure _
    · exact (Except.buffers_pure _).bind fun _ => (ih _ _).bind fun _ => Except.buffers_pure _

namespace ModelState

variable {s state : ModelState} {u : InstrInstance} {ops : List OpInstance}

/-- What becomes of an instruction that is cracked. -/
inductive Cracked (s : ModelState) (u : InstrInstance) : Except CallError (List OpInstance × ModelState) → Prop
  /-- It is refused for what is queued on its memory operands. -/
  | refused {e : CallError} (ready : s.infosReady u.instruction = .error e) : Cracked s u (.error e)
  /-- Nothing is queued on them, and memory is asked when its micro-ops issue. -/
  | bare {ops : List OpInstance} (decoded : u.decode s.costs s.clock.period = .ok ops)
      (ready : s.infosReady u.instruction = .ok false) : Cracked s u (.ok (ops, s))
  /-- Its micro-ops take along what is queued. -/
  | informed {ops attached : List OpInstance} {reads writes : List MemoryInfo}
      (decoded : u.decode s.costs s.clock.period = .ok ops) (ready : s.infosReady u.instruction = .ok true)
      (known : attachInfos s.clock.period ops reads writes = .ok attached) :
      Cracked s u (.ok (attached, s.dropOldest u.instruction.memoryOperands.length))

theorem cracked_of_crack {cracked : Except CallError (List OpInstance × ModelState)} (h : s.crack u = .ok cracked) :
    Cracked s u cracked := by
  unfold crack at h
  dsimp only at h
  obtain ⟨ops, decoded, h⟩ := Except.bind_eq_ok.mp h
  split at h
  · rename_i e ready
    cases h
    exact .refused ready
  · rename_i ready
    cases h
    exact .bare decoded ready
  · rename_i ready
    obtain ⟨attached, known, h⟩ := Except.bind_eq_ok.mp h
    cases h
    exact .informed decoded ready known

/-- What a model hands to its window are the micro-ops of one instruction. -/
theorem oneInstruction_crack (h : s.crack u = .ok (.ok (ops, state))) :
    OneInstruction u.instruction.memoryOperands.length ops := by
  cases cracked_of_crack h with
  | bare decoded => exact InstrInstance.oneInstruction_decode decoded
  | informed decoded _ known => exact (InstrInstance.oneInstruction_decode decoded).congr (map_frame_attachInfos known)

theorem buffers_crack (s : ModelState) (u : InstrInstance) : Except.Buffers (s.crack u) := by
  unfold crack
  refine (u.buffers_decode _ _).bind fun ops => ?_
  split
  · exact Except.buffers_pure _
  · exact Except.buffers_pure _
  · exact (buffers_attachInfos _ _ _ _).bind fun _ => Except.buffers_pure _

/-- An instruction without memory operands is cracked into one micro-op, whatever information is queued. -/
theorem exists_crack (plain : u.instruction.memoryOperands = [])
    (decoded : u.decode s.costs s.clock.period = .ok ops) :
    ∃ v, v.squashed = false ∧ s.crack u = .ok (.ok ([v], s)) := by
  have one := InstrInstance.oneInstruction_decode decoded
  obtain ⟨v, rfl⟩ : ∃ v, ops = [v] := by
    rw [← List.length_eq_one_iff]
    have most := one.length
    have some := one.last ▸ List.countP_le_length (p := fun u : OpInstance => u.op.last) (l := ops)
    rw [plain, List.length_nil] at most
    omega
  refine ⟨v, one.kept v List.mem_cons_self, ?_⟩
  have ready : s.infosReady u.instruction = .ok true := by
    unfold infosReady
    rw [plain]
    rfl
  unfold crack
  simp only [decoded, ready, plain]
  show (attachInfos s.clock.period [v] [] [] >>= _ :
    Except Fault (Except CallError (List OpInstance × ModelState))) = _
  rw [attachInfos_nil]
  rfl

end ModelState

end CoreTiming
