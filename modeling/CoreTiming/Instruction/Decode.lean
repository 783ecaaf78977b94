import CoreTiming.Instruction.Basic

/-!
# From instructions to micro-ops

Memory reads become loads, the computation becomes one execute, branch or floating-point
micro-op, and memory writes become stores.  Values pass between the micro-ops of one instruction
through temporary registers: each load fills one of its own, and the computation hands its result
to the stores through the last.

A generic instruction with memory operands only moves data.  Its loads write the destination
registers and its stores read the source registers, with nothing in between.
-/

namespace CoreTiming

/-- Registers that the dependency table tracks. -/
def numRegisters : Nat := 384

/-- The first of the sixteen registers that carry values inside one instruction. -/
def firstTemporary : Register := numRegisters - 16

/-- The register that carries the computed value to the stores. -/
def storeData : Register := firstTemporary + 15

/-- The register that the `i`-th load of an instruction fills. -/
def loadTemporary (i : Nat) : Register := firstTemporary + i % 15

/-- The class of the micro-op that does the computation. -/
def InstrClass.opKind : InstrClass → OpKind
  | .branch | .jmp => .branch
  | .fadd | .fsub => .fpAddSub
  | .fmul | .fdiv => .fpMulDiv
  | _ => .execute

namespace InstrInstance

/-- Bytes that one memory micro-op accesses. -/
def accessSize : Nat := 8

/-- The largest execution time a micro-op can state. -/
def maxLatency : Nat := 0xFFFFFFFF

/-- The memory operands with their data addresses; a missing address is zero. -/
def pairAddresses : List Operand → List Address → List (Direction × Option Register × Address)
  | [], _ => []
  | .reg .. :: ops, addresses => pairAddresses ops addresses
  | .memory direction base :: ops, addresses =>
    (direction, base, addresses.headD 0) :: pairAddresses ops addresses.tail

/-- Addresses and base registers of the memory operands in one direction. -/
def memoryOperands (u : InstrInstance) (direction : Direction) :
    List (Option Register × Address) :=
  (pairAddresses u.instruction.operands u.addresses).filterMap fun (d, operand) =>
    if d = direction then some operand else none

/-- Whether the instruction only moves data between memory and registers. -/
def movesOnly (u : InstrInstance) : Bool :=
  u.instruction.kind == .generic &&
    !((u.memoryOperands .read).isEmpty && (u.memoryOperands .write).isEmpty)

/-- The loads, the `i`-th of which fills `destinations i`. -/
def loads (u : InstrInstance) (destinations : Nat → List Register) : List OpInstance :=
  (u.memoryOperands .read).mapIdx fun i (base, address) =>
    { op := { kind := .load, ip := u.instruction.address, sources := base.toList,
              addressRegisters := base.toList, destinations := destinations i, accessSize }
      address }

/-- The stores, each of which reads `data`. -/
def stores (u : InstrInstance) (data : List Register) : List OpInstance :=
  (u.memoryOperands .write).map fun (base, address) =>
    { op := { kind := .store, ip := u.instruction.address, sources := data ++ base.toList,
              addressRegisters := base.toList, accessSize }
      address }

/-- Execution time of the computation in cycles, as far as a micro-op can state it. -/
def computeLatency (u : InstrInstance) (costs : CostTable) (period : Period) :
    Except Fault Nat := do
  let cycles ←
    if u.instruction.kind.isDynamic then u.instruction.ownCost.divideRounded period.length
    else pure (costs.cycles u.instruction.kind)
  pure (min cycles maxLatency)

/-- The micro-op that does the computation. -/
def compute (u : InstrInstance) (costs : CostTable) (period : Period) :
    Except Fault OpInstance := do
  let latency ← u.computeLatency costs period
  let kind := u.instruction.kind.opKind
  let temporaries := (List.range (u.memoryOperands .read).length).map loadTemporary
  let handOver := if (u.memoryOperands .write).isEmpty then [] else [storeData]
  pure
    { op := { kind, ip := u.instruction.address, latency
              sources := u.instruction.registers .read ++ temporaries
              destinations := u.instruction.registers .write ++ handOver }
      branch := if kind = .branch then u.branch else none }

/-- Marks the first and the last micro-op of an instruction. -/
def markEnds (ops : List OpInstance) : List OpInstance :=
  ops.mapIdx fun i u => { u with op := { u.op with first := i == 0, last := i + 1 == ops.length } }

/-- The micro-ops of one execution of an instruction, in program order. -/
def decode (u : InstrInstance) (costs : CostTable) (period : Period) :
    Except Fault (List OpInstance) := do
  if u.movesOnly then
    let i := u.instruction
    pure (markEnds (u.loads (fun _ => i.registers .write) ++ u.stores (i.registers .read)))
  else
    let computation ← u.compute costs period
    pure (markEnds (u.loads (fun i => [loadTemporary i]) ++ computation :: u.stores [storeData]))

end InstrInstance

end CoreTiming
