import CoreTiming.Barrier.Host
import CoreTiming.CallError

/-!
# Calls on a barrier

Calls that take effect at once: setting up slots, pushing micro-ops, moving time, and what happens
to application threads in the course of their lives.
-/

namespace CoreTiming

namespace Barrier

variable {E : Type} [SharedEngine E]

/-! ## Slots -/

/-- Adds a slot for `core`; `setUp` prepares the engine for it. -/
def register (core : Nat) (hasClient : Bool) (setUp : Nat → Faulting E Unit) :
    Faulting (Barrier E) Nat := do
  let t := (← get).slots.size
  modify fun b => { b with slots := b.slots.push { core, hasClient } }
  onEngine (setUp t)
  notifyActive
  pure t

/-- Binds an application thread to the slot of `core`. -/
def bind (core app : Nat) : Faulting (Barrier E) (Option Nat) := do
  match (← get).findCore? core with
  | some t =>
    modify (modifySlot t fun s => { s with app := some app })
    pure (some t)
  | none => pure none

/-! ## Micro-ops and time -/

/-- Runs `x` if slot `t` exists. -/
def checked {α : Type} (t : Nat) (x : Faulting (Barrier E) α) :
    Faulting (Barrier E) (Except CallError α) := do
  if t < (← get).slots.size then .ok <$> x else pure (.error (.unknownThread t))

/-- Instructions and time of slot `t` that it has not been told yet. -/
def returnLatency (t : Nat) : Faulting (Barrier E) (Nat × Time) := do
  let s ← Faulting.ofExcept ((← get).slot t)
  onEngine (SharedEngine.returnLatency t s.inWakeup)

/-- Hands micro-ops of slot `t` to the engine, unless the barrier is out of force: then nothing
executes, and they are dropped.  Gives instructions and time that the slot has not been told yet. -/
def push (t : Nat) (us : List OpInstance) : Faulting (Barrier E) (Nat × Time) := do
  if (← get).enabled then onEngine (SharedEngine.push t us)
  returnLatency t

/-- Moves the time of slot `t`, and lets it be told latency again. -/
def synchronize (t : Nat) (time : Time) : Faulting (Barrier E) Unit := do
  modify (modifySlot t fun s => { s with inWakeup := false })
  onEngine (SharedEngine.synchronize t time)

/-- Moves the time of every slot at the beginning of what is to be measured. -/
def beginRegion (time : Time) : Faulting (Barrier E) Unit := do
  (List.range (← get).slots.size).forM fun t => synchronize t time

/-! ## Application threads -/

/-- What happens to the application threads of a core, or to its barrier. -/
inductive Event
  /-- A thread starts to run. -/
  | start (app : Nat)
  /-- A thread exits. -/
  | exit (app : Nat)
  /-- A thread blocks. -/
  | stall (app : Nat)
  /-- A thread wakes up. -/
  | resume (app : Nat)
  /-- A thread moves to another core. -/
  | migrate (app core : Nat)
  /-- The barrier comes into force. -/
  | enable
  /-- The barrier goes out of force, and everybody parked is let go. -/
  | disable
  deriving DecidableEq, Inhabited

/-- Changes the slot of an application thread, if it has one, and tells the engine. -/
def changeApp (app : Nat) (f : Slot → Slot) : Faulting (Barrier E) Unit := do
  match (← get).findApp? app with
  | some t =>
    modify (modifySlot t f)
    notifyActive
  | none => pure ()

/-- Empties the slot of an application thread, if it has one, and lets its host thread go. -/
def vacate (app : Nat) : Faulting (Barrier E) Unit := do
  match (← get).findApp? app with
  | some t =>
    modify (modifySlot t fun s => { s with running := false, app := none })
    notifyActive
    modify (wake t)
  | none => pure ()

/-- Lets the slot of `core`, if there is one, run an application thread. -/
def occupy (app core : Nat) : Faulting (Barrier E) Unit := do
  match (← get).findCore? core with
  | some t =>
    modify (modifySlot t fun s => { s with inWakeup := true, running := true, app := some app })
    notifyActive
  | none => pure ()

/-- The effect of an event.  Whoever may have been waited for, the barrier is looked at again. -/
def handle : Event → Faulting (Barrier E) Unit
  | .start app => changeApp app fun s => { s with running := true }
  | .exit app | .stall app => do
    changeApp app fun s => { s with running := false }
    signal
  | .resume app => do
    changeApp app fun s => { s with inWakeup := true, running := true }
    signal
  | .migrate app core => do
    vacate app
    occupy app core
    signal
  | .enable => modify fun b => { b with enabled := true }
  | .disable =>
    modify fun b =>
      { b with enabled := false, slots := b.slots.map fun s => { s with inBarrier := false } }

/-! ## Reading out -/

/-- How an optional number is shown. -/
def inspectNumber : Option Nat → String
  | some n => s!"Some({n})"
  | none => "None"

/-- How a slot is shown. -/
def inspectSlot (s : Slot) : String :=
  s!"SmtThread \x7b core_id: {s.core}, thread: {inspectNumber s.app}, running: {s.running}, " ++
    s!"in_barrier: {s.inBarrier}, in_wakeup: {s.inWakeup}, clock_skew_client: {s.hasClient} \x7d"

/-- How a barrier is shown. -/
def inspect (b : Barrier E) : String :=
  "SmtTimer \x7b threads: [" ++ ", ".intercalate (b.slots.toList.map inspectSlot) ++
    s!"], enabled: {b.enabled}, execute_thread: {inspectNumber b.driver}, .. \x7d"

end Barrier

namespace Session

variable {E : Type} [SharedEngine E]

/-- Adds a slot and its host thread. -/
def register (core : Nat) (hasClient : Bool) (setUp : Nat → Faulting E Unit) :
    Faulting (Session E) Nat := do
  let t ← onBarrier (Barrier.register core hasClient setUp)
  modify fun s => { s with hosts := s.hosts.push .outside }
  pure t

end Session

end CoreTiming
