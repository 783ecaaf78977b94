import CoreTiming.MicroOp.Instance
import CoreTiming.Time

/-!
# The barrier between the hardware threads of a core

The hardware threads of one core share an engine.  Each is fed by a host thread of its own, and the
engine advances only in rounds: a host thread with enough micro-ops buffered parks in the barrier,
and once every running slot is parked, one of them is released to drive the engine.

`isReached` says when that is the case, `release` says who is released:

* the slots that lack micro-ops, lowest number first;
* if there is none, a slot with few micro-ops left: the limit doubles until somebody is below it.
-/

namespace CoreTiming

/-- A hardware thread as the barrier sees it. -/
structure Slot where
  /-- The simulated core that the slot belongs to. -/
  core : Nat
  /-- The application thread bound to it. -/
  app : Option Nat := none
  /-- Whether the application thread runs. -/
  running : Bool := false
  /-- Whether the host thread is parked in the barrier. -/
  inBarrier : Bool := false
  /-- Woken up, but its time has not been moved yet: it is told no latency. -/
  inWakeup : Bool := false
  /-- Whether driving the engine ends with a synchronization across cores. -/
  hasClient : Bool := false
  deriving DecidableEq, Inhabited

/-- One character for the state of a slot. -/
def Slot.stateChar (s : Slot) : Char :=
  match s.running, s.inBarrier with
  | true, true => 'B'
  | true, false => 'R'
  | false, true => 'b'
  | false, false => '_'

/-- An engine that hardware threads can share.  Threads are named by the numbers of their slots. -/
class SharedEngine (E : Type) extends Inhabited E where
  /-- Micro-ops of a thread that are buffered. -/
  surplus : E → Nat → Except Fault Nat
  /-- Whether a thread needs no more micro-ops at the moment. -/
  hasEnough : E → Nat → Except Fault Bool
  /-- Whether everything pushed for a thread has completed. -/
  isDrained : E → Nat → Except Fault Bool
  /-- Learns that the set of running threads has changed. -/
  repartition : Array Slot → Faulting E Unit
  /-- Appends micro-ops to the buffer of a thread. -/
  push : Nat → List OpInstance → Faulting E Unit
  /-- Instructions completed and time elapsed for a thread since they were last asked for. -/
  returnLatency : Nat → (inWakeup : Bool) → Faulting E (Nat × Time)
  /-- Advances, driven by the host of slot `driver`, for as long as every thread has enough
  micro-ops. -/
  execute : (driver : Nat) → Array Slot → Faulting E Unit
  /-- Moves the time of a thread. -/
  synchronize : Nat → Time → Faulting E Unit
  /-- Learns that a thread gets no more micro-ops. -/
  markEndOfStream : Nat → Faulting E Unit

/-- A shared engine and the slots around it. -/
structure Barrier (E : Type) where
  /-- The slots, in the order in which they were registered. -/
  slots : Array Slot := #[]
  /-- The engine. -/
  engine : E
  /-- Whether the driver is busy with synchronization across cores. -/
  syncing : Bool := false
  /-- Whether the barrier is in force. -/
  enabled : Bool := true
  /-- The slot selected to drive the engine. -/
  driver : Option Nat := none

namespace Barrier

variable {E : Type} [SharedEngine E]

instance : Inhabited (Barrier E) := ⟨{ engine := default }⟩

/-! ## Looking at slots -/

/-- The slot numbered `t`. -/
def slot (b : Barrier E) (t : Nat) : Except Fault Slot :=
  match b.slots[t]? with
  | some s => .ok s
  | none => .error .indexOutOfBounds

/-- The slot that an application thread is bound to. -/
def findApp? (b : Barrier E) (app : Nat) : Option Nat :=
  b.slots.findIdx? fun s => s.app == some app

/-- The slot that serves a core. -/
def findCore? (b : Barrier E) (core : Nat) : Option Nat := b.slots.findIdx? fun s => s.core == core

/-- The states of all slots, one character each. -/
def stateString (b : Barrier E) : String := String.ofList (b.slots.toList.map Slot.stateChar)

/-! ## Changing slots -/

/-- Changes the slot numbered `t`. -/
def modifySlot (t : Nat) (f : Slot → Slot) (b : Barrier E) : Barrier E :=
  { b with slots := b.slots.modify t f }

/-- Lets the host thread of slot `t` go on. -/
def wake (t : Nat) (b : Barrier E) : Barrier E := b.modifySlot t fun s => { s with inBarrier := false }

/-- Runs an operation on the engine. -/
@[inline] def onEngine {α : Type} (x : Faulting E α) : Faulting (Barrier E) α :=
  Faulting.zoom (·.engine) (fun engine b => { b with engine }) x

/-- Tells the engine that the set of running threads has changed. -/
def notifyActive : Faulting (Barrier E) Unit := do
  let slots := (← get).slots
  onEngine (SharedEngine.repartition slots)

/-! ## Releasing -/

/-- Whether every running slot is parked, some slot is parked, and nobody is busy driving. -/
def isReached (b : Barrier E) : Bool :=
  !b.syncing && (b.slots.all fun s => !s.running || s.inBarrier) && b.slots.any (·.inBarrier)

/-- What a release has done so far. -/
structure Release where
  /-- Whether the slot that performs the release was selected itself. -/
  selectsCaller : Bool := false
  /-- Running slots seen that are not parked, or were selected. -/
  active : Nat := 0

/-- Selects slot `t`: wakes it, unless it is the caller, which leaves on its own. -/
def select (releaseAll : Bool) (caller : Option Nat) (t : Nat) (r : Release) :
    Faulting (Barrier E) Release := do
  if caller ≠ some t then modify (wake t)
  if !releaseAll then modify fun b => { b with driver := some t }
  pure (if caller = some t then { r with selectsCaller := true } else r)

/-- Selects parked slots that lack micro-ops: all of them, or the first one only. -/
def releaseNeedy (releaseAll : Bool) (caller : Option Nat) : List Nat → Release →
    Faulting (Barrier E) Release
  | [], r => pure r
  | t :: rest, r => do
    let b ← get
    let s ← Faulting.ofExcept (b.slot t)
    let counted := { r with active := r.active + (if s.running then 1 else 0) }
    if !s.inBarrier then releaseNeedy releaseAll caller rest counted
    else if ← Faulting.ofExcept (SharedEngine.hasEnough b.engine t) then
      releaseNeedy releaseAll caller rest r
    else
      let r ← select releaseAll caller t counted
      if releaseAll then releaseNeedy releaseAll caller rest r else pure r

/-- Selects parked running slots with less than `limit` micro-ops buffered: all of them, or the
first one only. -/
def releaseBelow (limit : Nat) (releaseAll : Bool) (caller : Option Nat) : List Nat → Release →
    Faulting (Barrier E) Release
  | [], r => pure r
  | t :: rest, r => do
    let b ← get
    let s ← Faulting.ofExcept (b.slot t)
    if !(s.inBarrier && s.running) then releaseBelow limit releaseAll caller rest r
    else if limit ≤ (← Faulting.ofExcept (SharedEngine.surplus b.engine t)) then
      releaseBelow limit releaseAll caller rest r
    else
      let r ← select releaseAll caller t { r with active := r.active + 1 }
      if releaseAll then releaseBelow limit releaseAll caller rest r else pure r

/-- Doubles the limit until some slot is below it, for at most `rounds` limits. -/
def releaseLeast (releaseAll : Bool) (caller : Option Nat) : (rounds limit : Nat) → Release →
    Faulting (Barrier E) Release
  | 0, _, r => pure r
  | rounds + 1, limit, r => do
    let b ← get
    if r.active ≠ 0 || !b.slots.any (fun s => s.inBarrier && s.running) then pure r
    else
      let r ← releaseBelow limit releaseAll caller (List.range b.slots.size) r
      releaseLeast releaseAll caller rounds (min (2 * limit) Word.max) r

/-- Limits that differ: the powers of two below the largest word, and that word. -/
def releaseRounds : Nat := 65

/-- Releases slots on behalf of `caller`: all that lack micro-ops, or one only, which then is the
driver.  Gives whether the caller was selected; its flag is left for it to clear. -/
def release (releaseAll : Bool) (caller : Option Nat) : Faulting (Barrier E) Bool := do
  modify fun b => { b with driver := caller }
  let r ← releaseNeedy releaseAll caller (List.range (← get).slots.size) {}
  let r ← releaseLeast releaseAll caller releaseRounds 1 r
  pure r.selectsCaller

/-- Releases one slot if the barrier has been reached. -/
def signal : Faulting (Barrier E) Unit := do
  if (← get).isReached then
    let _ ← release false none

end Barrier

end CoreTiming
