import CoreTiming.Window.Admission
import CoreTiming.Window.Basic

/-!
# The dispatch stage

In each cycle one thread may dispatch, up to the width of the core.  The threads are asked in turn;
the first one that moves a micro-op into the window has the cycle.  Every thread is charged with
the cycle under the cause that kept it from doing so.
-/

namespace CoreTiming

namespace Window

variable {M : Type} [MemorySystem M]

/-- What has happened in the dispatch stage of a cycle. -/
structure DispatchRound where
  /-- The lane that dispatched. -/
  dispatcher : Option Nat := none
  /-- The earliest time at which something may change. -/
  event : Time := .never

/-- Dispatches up to `width` micro-ops of lane `i`.  Gives whether there were any. -/
def dispatchUpTo (i : Nat) : (width : Nat) → (any : Bool) → (event : Time) →
    Faulting (Window M) (Bool × Time)
  | 0, any, event => pure (any, event)
  | width + 1, any, event => do
    let w ← get
    let th ← Faulting.ofExcept (w.thread i)
    if th.inWindow < w.share ∧ 0 < th.buffered then
      let free := w.stationsUsed < w.config.window.stations
      match ← onThread i (Thread.dispatchOne w.config.window.forwarding w.clock free) with
      | .blocked blockedUntil => pure (any, min event blockedUntil)
      | .entered ready =>
        modify fun w => { w with stationsUsed := w.stationsUsed + 1 }
        dispatchUpTo i width true (min event ready)
    else pure (any, event)

/-- Lets lane `i` use the dispatch slot of this cycle. -/
def dispatchLane (i : Nat) (event : Time) : Faulting (Window M) (Bool × Time) := do
  let w ← get
  modifyThread i (Thread.beginDispatch w.clock.now)
  let (any, event) ← dispatchUpTo i w.config.core.dispatchWidth false event
  let w ← get
  let th ← Faulting.ofExcept (w.thread i)
  if th.inWindow < w.share ∧ 0 < th.buffered then
    pure (any, min event (max th.stalledUntil w.clock.next))
  else pure (any, event)

/-- The cause that a cycle with the dispatch slot is charged to. -/
def slotCause (th : Thread) (any : Bool) (head : Option Cause) : Cause :=
  match th.stall with
  | some stall => stall
  | none => if !any && th.buffered = 0 then head.getD .base else .base

/-- The turn of lane `i` in the dispatch stage. -/
def dispatchTurnOf (running : Running) (round : DispatchRound) (i : Nat) :
    Faulting (Window M) DispatchRound := do
  let w ← get
  let th ← Faulting.ofExcept (w.thread i)
  let now := w.clock.now
  let head := th.headCause? now
  let runs := running.getD i false
  if now < th.stalledUntil then
    modifyThread i fun th => { th with cause := (head <|> th.stall).getD .base }
    pure { round with event := min round.event th.stalledUntil }
  else if !runs || now < th.now then
    modifyThread i fun th => { th with cause := .idle }
    pure (if runs then { round with event := min round.event th.now } else round)
  else if w.share ≤ th.inWindow then
    modifyThread i fun th => { th with cause := head.getD .base }
    pure round
  else if round.dispatcher.isSome then
    modifyThread i fun th => { th with cause := .smt }
    pure round
  else
    let (any, event) ← dispatchLane i round.event
    modifyThread i fun th => { th with cause := slotCause th any head }
    pure { dispatcher := if any then some i else none, event }

/-- The dispatch stage.  Gives the earliest time at which it may have more to do. -/
def dispatch (running : Running) : Faulting (Window M) Time := do
  let w ← get
  let first := w.dispatchTurn % w.lanes.size
  let round ← (w.rotation first).foldlM (dispatchTurnOf running) {}
  modify fun w => { w with dispatchTurn := w.turnAfter (round.dispatcher.getD first) }
  pure round.event

end Window

end CoreTiming
