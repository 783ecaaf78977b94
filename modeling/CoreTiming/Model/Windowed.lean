import CoreTiming.Instruction.Decode
import CoreTiming.Model.State

/-!
# Instructions for a shared window

A core whose instructions go through a shared window cracks each into micro-ops and hands them on.
If the information on the instruction's memory operands has been queued, the loads and stores take
it along; otherwise the window asks its memory when they issue.
-/

namespace CoreTiming

/-- Gives a load or store its address, and its latency if it is known where it is served. -/
def OpInstance.resolve (u : OpInstance) (period : Period) (info : MemoryInfo) :
    Except Fault OpInstance := do
  let u := { u with address := info.address }
  if info.hit = .unresolved then pure u
  else u.resolveData info.hit (← info.latency.divideRounded period.length)

/-- Gives each load the next information on reads, and each store the next one on writes. -/
def attachInfos (period : Period) : List OpInstance → (reads writes : List MemoryInfo) →
    Except Fault (List OpInstance)
  | [], _, _ => pure []
  | u :: us, reads, writes => do
    let info := if u.op.isLoad then reads.head? else if u.op.isStore then writes.head? else none
    let u' ← match info with
      | some info => u.resolve period info
      | none => pure u
    let reads := if u.op.isLoad then reads.tail else reads
    let writes := if u.op.isStore then writes.tail else writes
    pure (u' :: (← attachInfos period us reads writes))

/-- The micro-ops of `u` with what is known about its memory operands, and the state without that
information. -/
def ModelState.crack (s : ModelState) (u : InstrInstance) :
    Except Fault (Except CallError (List OpInstance × ModelState)) := do
  let period := s.clock.period
  let ops ← u.decode s.costs period
  match s.infosReady u.instruction with
  | .error e => pure (.error e)
  | .ok false => pure (.ok (ops, s))
  | .ok true =>
    let n := u.instruction.memoryOperands.length
    let (reads, writes) := (s.oldest n).partition (·.direction == .read)
    pure (.ok (← attachInfos period ops reads writes, s.dropOldest n))

/-- The front of a core that shares a window. -/
structure Windowed where
  /-- Clock, count and information on memory operands. -/
  state : ModelState
  /-- The core that the shared window is named after. -/
  master : Nat
  /-- The slot of the core's hardware thread. -/
  slot : Nat
  deriving DecidableEq, Inhabited

end CoreTiming
