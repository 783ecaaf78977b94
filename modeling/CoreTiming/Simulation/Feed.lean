import CoreTiming.Instruction.Decode
import CoreTiming.Memory.Hierarchy
import CoreTiming.Workload

/-!
# Feeding a core

The front end of a core runs ahead of its timing model: it takes the instructions of a workload in
turn, and performs their memory accesses on caches of its own, so that what is known about every
memory operand can be queued before the instruction is timed.
-/

namespace CoreTiming

/-- The front end of a core. -/
structure Feed where
  /-- The core. -/
  core : Nat
  /-- Where its instructions come from. -/
  workload : Workload
  /-- The instruction that comes next. -/
  position : Nat := 0
  /-- The caches that serve its accesses. -/
  memory : Hierarchy
  deriving Inhabited

namespace Feed

/-- Performs the access of one memory operand. -/
def resolve (ip : Address) (direction : Direction) (address : Address) :
    Faulting Hierarchy MemoryInfo := do
  let served ← MemorySystem.access
    { address, size := InstrInstance.accessSize, isWrite := direction == .write }
  pure { direction, ip, address, latency := served.latency, hit := served.hit }

/-- The next instruction, and what is known about its memory operands. -/
def next : Faulting Feed (InstrInstance × List MemoryInfo) := do
  let f ← get
  let u ← Faulting.ofExcept (f.workload.instruction f.core f.position)
  let operands := InstrInstance.pairAddresses u.instruction.operands u.addresses
  let infos ← Faulting.zoom (·.memory) (fun memory f => { f with memory })
    (operands.mapM fun (direction, _, address) => resolve u.instruction.address direction address)
  modify fun f => { f with position := f.position + 1 }
  pure (u, infos)

end Feed

end CoreTiming
