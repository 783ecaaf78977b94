import CoreTiming.Machine.Calls

/-!
# Runs of the host threads of a machine

A `MachineRun` is a machine whose host threads are given errands: lists of calls on their models,
made one after the other.  An errand that has to wait in the barrier is put aside, and taken up
again by `settle` once its host thread has been woken.

A host thread that faults gives up its errand; the others go on.
-/

namespace CoreTiming

/-- What a host thread does. -/
structure Errand where
  /-- The call that is being made. -/
  current : ModelCall
  /-- The calls after it. -/
  rest : List ModelCall := []
  /-- Calls completed. -/
  timed : Nat := 0
  /-- Calls that timed nothing, because information was missing. -/
  missing : Nat := 0
  deriving Inhabited

/-- The errand after its current call, which timed something or not. -/
def Errand.tally (e : Errand) (timed : Bool) : Errand :=
  if timed then { e with timed := e.timed + 1 } else { e with missing := e.missing + 1 }

/-- Why an errand came to an end. -/
inductive Ending
  /-- All calls were made. -/
  | through
  /-- The current call was refused. -/
  | refused (e : CallError)
  /-- The current call faulted. -/
  | faulted (f : Fault)
  deriving DecidableEq, Inhabited

/-- Whether the host thread did not fault. -/
def Ending.isOrderly : Ending → Bool
  | .faulted _ => false
  | _ => true

/-- A machine and the errands of its host threads. -/
structure MachineRun (M : Type) where
  /-- The machine. -/
  machine : Machine M := {}
  /-- The errands that wait in the barrier, by the numbers of their models. -/
  waiting : List (Nat × Errand) := []
  /-- The errands that have come to an end. -/
  ended : List (Nat × Errand × Ending) := []

namespace MachineRun

variable {M : Type} [MemorySystem M]

/-- Runs an operation on the machine. -/
@[inline] def onMachine {α : Type} (x : Faulting (Machine M) α) : Faulting (MachineRun M) α :=
  Faulting.zoom (·.machine) (fun machine r => { r with machine }) x

/-- Whether the host thread of model `i` waits in the barrier. -/
def isBusy (r : MachineRun M) (i : Nat) : Bool := (r.waiting.lookup i).isSome

/-- Notes how an errand has ended. -/
def conclude (i : Nat) (e : Errand) (ending : Ending) (r : MachineRun M) : MachineRun M :=
  let machine := if ending.isOrderly then r.machine else r.machine.abandon i
  { r with machine, ended := (i, e, ending) :: r.ended }

/-- Performs `x`, which is a part of the current call of an errand.  Gives the errand if the call is
completed. -/
def perform (i : Nat) (e : Errand) (x : Faulting (Machine M) Progress) :
    Faulting (MachineRun M) (Option Errand) := do
  match ← tryCatch (Except.ok <$> onMachine x) fun f => pure (.error f) with
  | .error f =>
    modify (conclude i e (.faulted f))
    pure none
  | .ok .waiting =>
    modify fun r => { r with waiting := (i, e) :: r.waiting }
    pure none
  | .ok (.refused error) =>
    modify (conclude i e (.refused error))
    pure none
  | .ok (.completed timed) => pure (some (e.tally timed))

/-- Performs `x`, which is a part of the current call of an errand, and then the calls in `rest`, as
far as they go without waiting. -/
def follow (i : Nat) : (rest : List ModelCall) → Errand → Faulting (Machine M) Progress →
    Faulting (MachineRun M) Unit
  | [], e, x => do
    if let some e ← perform i { e with rest := [] } x then modify (conclude i e .through)
  | call :: rest, e, x => do
    if let some e ← perform i { e with rest := call :: rest } x then
      follow i rest { e with current := call } (Machine.call i call)

/-- The host thread of model `i`, which is idle, sets out on an errand. -/
def start (i : Nat) (call : ModelCall) (rest : List ModelCall) : Faulting (MachineRun M) Unit :=
  follow i rest { current := call } (Machine.call i call)

/-- The host thread of model `i` takes its errand up again. -/
def resume (i : Nat) : Faulting (MachineRun M) Unit := do
  if let some e := (← get).waiting.lookup i then
    modify fun r => { r with waiting := r.waiting.filter (·.1 != i) }
    follow i e.rest e (Machine.resume i)

/-- Lets the host threads that were woken take their turns, until all wait or are through. -/
def settle : Faulting (MachineRun M) Unit := Schedule.settleAll (·.machine.woken) resume

end MachineRun

end CoreTiming
