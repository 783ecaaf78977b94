import CoreTiming.Barrier.Calls
import CoreTiming.Barrier.Schedule

/-!
# Runs of host threads

A `Run` is a session together with what its clients do and a record of the calls that have come to
an end.  Calls are made on idle slots, and `settle` then lets the host threads take their turns
until each has returned or waits in the barrier.

A host thread that faults gives up its call; the others go on.
-/

namespace CoreTiming

/-- A session, its clients, and the outcome of its calls. -/
structure Run (E : Type) where
  /-- The barrier and the host threads. -/
  session : Session E
  /-- What the clients do, one operation for each synchronization; nothing, once it is used up. -/
  script : List (Faulting (Barrier E) Unit) := []
  /-- The states of the slots at the end of each synchronization. -/
  clientLog : Array String := #[]
  /-- The slots whose calls have come to an end, and the faults that ended them. -/
  ended : List (Nat × Option Fault) := []

namespace Run

variable {E : Type} [SharedEngine E]

instance : Inhabited (Run E) := ⟨{ session := default }⟩

/-- Runs an operation on the session. -/
@[inline] def onSession {α : Type} (x : Faulting (Session E) α) : Faulting (Run E) α :=
  Faulting.zoom (·.session) (fun session r => { r with session }) x

/-- Runs an operation on the barrier. -/
@[inline] def onBarrier {α : Type} (x : Faulting (Barrier E) α) : Faulting (Run E) α :=
  onSession (Session.onBarrier x)

/-- The number of slots. -/
def numSlots (r : Run E) : Nat := r.session.hosts.size

/-- Whether the host thread of slot `t` is in a call. -/
def isBusy (r : Run E) (t : Nat) : Bool := r.session.host t != .outside

/-- The client of the driver does what comes next in the script. -/
def synchronizeClient : Faulting (Run E) Unit := do
  onBarrier ((← get).script.headD (pure ()))
  modify fun r =>
    { r with
      script := r.script.tail
      clientLog := r.clientLog.push r.session.barrier.stateString }

/-- Notes how the call on slot `t` has ended. -/
def conclude (t : Nat) (fault : Option Fault) (r : Run E) : Run E :=
  { r with session := r.session.setHost t .outside, ended := (t, fault) :: r.ended }

/-- Goes on with slot `t` past its synchronizations, `n` at most, until it waits or is through. -/
def follow (t : Nat) : (n : Nat) → Faulting (Run E) Unit
  | 0 => pure ()
  | n + 1 => do
    match (← get).session.host t with
    | .outside => modify (conclude t none)
    | .syncing _ =>
      synchronizeClient
      onSession (Session.resume t)
      follow t n
    | _ => pure ()

/-- Gives the host thread of slot `t` a turn that begins with `x`. -/
def turn (t : Nat) (x : Faulting (Session E) Unit) : Faulting (Run E) Unit :=
  tryCatch (do onSession x; follow t Session.maxRounds) fun f => modify (conclude t (some f))

/-- Lets the host threads that were woken take their turns, until all wait or are through. -/
def settle : Faulting (Run E) Unit :=
  Schedule.settleAll (fun r => (List.range r.numSlots).filter r.session.isWoken)
    fun t => turn t (Session.resume t)

/-- A call on slot `t`, which must exist and be idle. -/
def call (t : Nat) (c : Barrier.HostCall) : Faulting (Run E) (Except CallError Unit) := do
  if t < (← get).numSlots then
    turn t (Session.call t c)
    pure (.ok ())
  else pure (.error (.unknownThread t))

end Run

end CoreTiming
