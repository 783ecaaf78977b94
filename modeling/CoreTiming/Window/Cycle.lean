import CoreTiming.Window.Commit
import CoreTiming.Window.Dispatch
import CoreTiming.Window.Issue

/-!
# The cycle loop

A cycle is a dispatch, an issue and a commit stage, after which the clock moves on.  How far is up to
a `Stride`: with a single hardware thread, cycles in which nothing can happen are jumped over.  The
loop goes on for as long as every thread that could dispatch has enough micro-ops buffered and some
thread has work left.

Every cycle moves the clock, which has an end, so the loop ends.  When the clock stands at the end
of time, where it cannot move any more, `lastCycles` more cycles are granted.
-/

namespace CoreTiming

namespace Window

variable {M : Type} [MemorySystem M]

/-- How far the clock moves at the end of a cycle, given the time of the next event. -/
abbrev Stride (M : Type) := Window M → (event : Time) → Time

/-- One period, whatever comes next. -/
def onePeriod : Stride M := fun w _ => w.clock.period.length

/-- Up to the next event if there is a single hardware thread, and one period otherwise. -/
def toEvent : Stride M := fun w event =>
  if w.lanes.size ≤ 1 && !event.isNever && w.clock.next < event then event - w.clock.now
  else w.clock.period.length

/-- Charges `span` to every thread and moves the clock by it. -/
def advance (span : Time) (w : Window M) : Window M :=
  let histogram := w.config.window.loadHistogram
  let now := w.clock.now
  let length := w.clock.period.length
  { w with
    lanes := w.lanes.map fun lane =>
      { lane with thread := lane.thread.charge histogram now span }
    clock := w.clock.addLatency span
    timeSkipped := if length < span then w.timeSkipped + (span - length) else w.timeSkipped }

/-- One cycle, at whose end the clock moves by `stride`. -/
def cycle (stride : Stride M) (running : Running) : Faulting (Window M) Unit := do
  let dispatchEvent ← dispatch running
  let issueEvent ← issue
  let commitEvent ← commit
  modify fun w => w.advance (stride w (min (min dispatchEvent issueEvent) commitEvent))

/-- Whether lane `i`, if it could dispatch, has micro-ops enough to do so. -/
def isSupplied (w : Window M) (running : Running) (i : Nat) (lane : Lane M) : Bool :=
  !lane.thread.canDispatch (running.getD i false) w.share w.clock.now ||
    !lane.thread.isStarved w.config.core.dispatchWidth

/-- Whether every thread that could dispatch has enough micro-ops, and some thread has work. -/
def canExecute (w : Window M) (running : Running) : Bool :=
  (Nat.all w.lanes.size fun i _ => w.isSupplied running i w.lanes[i]) &&
    Nat.any w.lanes.size fun i _ => w.lanes[i].thread.hasWork (running.getD i false)

/-- Cycles granted when the clock cannot move any more. -/
def lastCycles : Nat := 0x1000000

/-- Runs cycles while that is possible.  `grace` more are granted while the clock stands still. -/
def run (stride : Stride M) (running : Running) (grace : Nat) (w : Window M) :
    EStateM.Result Fault (Window M) Unit :=
  if w.canExecute running then
    match cycle stride running w with
    | .error f v => .error f v
    | .ok () v =>
      if w.clock.now < v.clock.now then run stride running grace v
      else
        match grace with
        | 0 => .error .outOfTime v
        | grace + 1 => run stride running grace v
  else .ok () w
termination_by (grace, Time.limit - w.clock.now.toNat)
decreasing_by
  · rename_i h
    have := Time.toNat_le_limit v.clock.now
    rw [Time.lt_iff_toNat_lt] at h
    apply Prod.Lex.right
    omega
  · exact Prod.Lex.left _ _ (Nat.lt_succ_self _)

/-- Runs cycles for as long as every thread that could dispatch has enough micro-ops. -/
def executeBy (stride : Stride M) (running : Running) : Faulting (Window M) Unit :=
  run stride running lastCycles

/-- Runs cycles, and jumps over those in which nothing can happen. -/
def execute (running : Running) : Faulting (Window M) Unit := executeBy toEvent running

end Window

end CoreTiming
