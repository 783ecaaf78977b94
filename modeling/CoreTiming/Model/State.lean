import CoreTiming.CallError
import CoreTiming.Clock

/-!
# What every timing model keeps

A timing model of a core keeps a clock, a count of instructions, and a queue of what is known about
memory operands.  The information on an operand is queued before its instruction is timed;
`infosReady` says whether all of it has arrived, without consuming any.
-/

namespace CoreTiming

/-- The state that all timing models have in common. -/
structure ModelState where
  /-- The model's clock. -/
  clock : Clock
  /-- Instructions timed so far. -/
  instructions : Nat := 0
  /-- Whether instructions are being timed. -/
  enabled : Bool := true
  /-- Information on memory operands that waits for its instruction, oldest first. -/
  infos : List MemoryInfo := []
  /-- Static costs of instructions. -/
  costs : CostTable
  deriving DecidableEq, Inhabited

/-- Whether the queue begins with one information for each memory operand of the instruction at
`ip`.  Its direction must be that of the operand. -/
def matchInfos (ip : Address) : List Direction → List MemoryInfo → Except CallError Bool
  | [], _ => .ok true
  | _ :: _, [] => .ok false
  | direction :: rest, info :: infos =>
    if info.direction = direction then matchInfos ip rest infos
    else .error (.infoMismatch ip direction info.direction)

namespace ModelState

/-- A model at time zero. -/
def new (period : Period) (costs : CostTable) : ModelState := { clock := .new period, costs }

/-- Whether the information on all memory operands of `i` has arrived. -/
def infosReady (s : ModelState) (i : Instruction) : Except CallError Bool :=
  matchInfos i.address i.memoryOperands s.infos

/-- The oldest `n` informations. -/
def oldest (s : ModelState) (n : Nat) : List MemoryInfo := s.infos.take n

/-- The state without its oldest `n` informations. -/
def dropOldest (s : ModelState) (n : Nat) : ModelState := { s with infos := s.infos.drop n }

/-- Queues the information on a memory operand; a disabled model ignores it. -/
def pushInfo (s : ModelState) (info : MemoryInfo) : ModelState :=
  if s.enabled then { s with infos := s.infos ++ [info] } else s

/-- `n` more instructions have been timed, and `t` has elapsed. -/
def elapse (s : ModelState) (n : Nat) (t : Time) : ModelState :=
  { s with instructions := s.instructions + n, clock := s.clock.addLatency t }

/-- Moves the clock. -/
def setTime (s : ModelState) (t : Time) : ModelState := { s with clock := { s.clock with now := t } }

/-- Moves the clock forward to `t`, if that lies ahead. -/
def advanceTo (s : ModelState) (t : Time) : ModelState := s.setTime (max s.clock.now t)

/-- Starts or stops timing. -/
def setEnabled (s : ModelState) (enabled : Bool) : ModelState := { s with enabled }

end ModelState

end CoreTiming
