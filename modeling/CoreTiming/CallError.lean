import CoreTiming.Instruction.Basic

/-!
# Calls that are refused

A call that cannot be served as it was made.  Unlike a fault it leaves the state as it was.
-/

namespace CoreTiming

/-- Why a call was refused. -/
inductive CallError
  /-- The queued information does not fit the operand of the instruction at `address`. -/
  | infoMismatch (address : Address) (expected found : Direction)
  /-- A register lies outside a scoreboard. -/
  | registerOutOfRange (register : Register) (capacity : Nat)
  /-- There is no such hardware thread. -/
  | unknownThread (thread : Nat)
  deriving DecidableEq, Inhabited

/-- The wording of a refusal. -/
def CallError.message : CallError → String
  | .infoMismatch address expected found =>
    "expected " ++ expected.memoryName ++ " dynamic info for instruction at " ++ address.render ++
      ", got " ++ found.memoryName
  | .registerOutOfRange register capacity =>
    s!"register {register} out of range (scoreboard holds {capacity} registers)"
  | .unknownThread thread => s!"unknown SMT thread {thread}"

end CoreTiming
