import CoreTiming.Stats.Report
import CoreTiming.Window.Cycle

/-!
# Working with a window

What the owner of a window does with it besides running cycles: setting up hardware threads,
pushing micro-ops, collecting latency, moving a thread's time, and reading it out.
-/

namespace CoreTiming

namespace Window

variable {M : Type} [MemorySystem M]

/-- Sets up the hardware thread of slot `i`, the next one in order. -/
def initializeThread (i : Nat) (memory : M) (predictor : Option Predictor) :
    Faulting (Window M) Unit := do
  let w ← get
  if i ≠ w.lanes.size then throw .slotOrder
  let thread ← Faulting.ofExcept
    (Thread.new w.config.core.windowSize w.config.window.loadHistogram predictor)
  modify fun w => { w with lanes := w.lanes.push { thread, memory } }

/-- Micro-ops of thread `i` that are buffered. -/
def surplus (w : Window M) (i : Nat) : Except Fault Nat := do pure (← w.thread i).buffered

/-- Whether thread `i` needs no more micro-ops at the moment. -/
def hasEnough (w : Window M) (i : Nat) : Except Fault Bool := do
  let th ← w.thread i
  pure (if th.endOfStream then !th.ring.isEmpty
    else 2 * w.config.core.dispatchWidth < th.buffered)

/-- Whether everything pushed for thread `i` has committed. -/
def isDrained (w : Window M) (i : Nat) : Except Fault Bool := do
  pure (← w.thread i).ring.isEmpty

/-- Splits the window anew between the threads: between those that run, or between all that are
configured. -/
def repartition (running : Running) (w : Window M) : Window M :=
  let parts :=
    if w.config.window.repartition then running.count true else w.config.core.smtThreads
  { w with share := max (w.config.core.windowSize / max parts 1) 1 }

/-! ## Pushing -/

/-- The number of bytes that one fetch asks for. -/
def fetchBytes : Nat := 4

/-- Fetches the instruction of `u`, unless its fetch is settled already. -/
def fetch (period : Period) (u : OpInstance) : Faulting (Lane M) OpInstance :=
  if u.op.first && u.fetchHit == .l1i then do
    let served ← Faulting.zoom (·.memory) (fun memory lane => { lane with memory })
      (MemorySystem.fetch u.op.ip fetchBytes)
    if served.hit = .l1i then pure u
    else
      let cycles ← Faulting.ofExcept (served.latency.divideRounded period.length)
      pure (u.missFetch served.hit cycles)
  else pure u

/-- Marks the branch `u` if its outcome contradicts the predictor. -/
def checkPrediction (predictor : Option Predictor) (u : OpInstance) : OpInstance :=
  match predictor, u.branch with
  | some p, some outcome =>
    { u with mispredicted := u.mispredicted || (u.op.isBranch && p.isMispredicted u.op.ip outcome) }
  | _, _ => u

/-- Appends `u` to the buffer of a thread. -/
def enqueue (lane : Nat) (u : OpInstance) : Faulting Thread Unit := do
  modify fun th => { th with stats := th.stats.recordPush u.op }
  let th ← get
  if th.ring.isFull then throw (.bufferFull lane th.ring.length)
  let nextSeq ← Faulting.ofExcept (Word.add th.nextSeq 1)
  modify fun th =>
    match th.ring.push (.new u th.nextSeq) with
    | .ok ring => { th with ring, nextSeq }
    | .error _ => th

/-- Fetches, checks and buffers one micro-op, unless it is squashed. -/
def pushOne (period : Period) (lane : Nat) (u : OpInstance) : Faulting (Lane M) Unit :=
  if u.squashed then pure ()
  else do
    let u ← fetch period u
    let u := checkPrediction (← get).thread.predictor u
    Faulting.zoom (·.thread) (fun thread lane => { lane with thread }) (enqueue lane u)

/-- Appends micro-ops to the buffer of thread `i`. -/
def push (i : Nat) (us : List OpInstance) : Faulting (Window M) Unit := do
  let period := (← get).clock.period
  onLane i (us.forM (pushOne period i))

/-- Says that no more micro-ops will be pushed for thread `i`. -/
def markEndOfStream (i : Nat) : Faulting (Window M) Unit :=
  modifyThread i fun th => { th with endOfStream := true }

/-! ## Time -/

/-- Instructions committed by thread `i`, and time elapsed, since they were last asked for.  A
thread that has just been woken is told no latency yet. -/
def returnLatency (i : Nat) (inWakeup : Bool) : Faulting (Window M) (Nat × Time) := do
  let now := (← get).clock.now
  onThread i (modifyGet fun th =>
    let latency := if inWakeup then 0 else now - th.now
    ((th.retired - th.reported, latency),
      { th with reported := th.retired, now := if inWakeup then th.now else max th.now now }))

/-- Moves the time of thread `i`.  The core follows the thread that is furthest behind, but never
goes back. -/
def synchronize (i : Nat) (time : Time) : Faulting (Window M) Unit := do
  modifyThread i fun th => { th with now := time }
  modify fun w =>
    let earliest := w.lanes.foldl (fun t lane => min t lane.thread.now) Time.never
    if !earliest.isNever && w.clock.now < earliest then
      { w with clock := { w.clock with now := earliest } }
    else w

/-! ## Reading out -/

/-- A snapshot of all counters. -/
def report (w : Window M) : WindowReport :=
  { period := w.clock.period.length
    threads := w.lanes.toList.mapIdx fun i lane =>
      { thread := i, instructions := lane.thread.retired, elapsed := lane.thread.now
        stats := lane.thread.stats }
    timeSkipped := w.timeSkipped
    loadQueue := w.loadQueue.stats
    storeQueue := w.storeQueue.stats
    serializations := w.serializations
    fences := w.fences }

/-- How a time is shown inside a state. -/
def inspectTime (t : Time) : String := s!"SubsecondTime({t.toNat})"

/-- How the fields of a state are shown. -/
def inspectFields (name : String) (fields : List (String × String)) : String :=
  name ++ " \x7b " ++ String.join (fields.map fun (field, value) => field ++ ": " ++ value ++ ", ") ++
    ".. \x7d"

/-- How a thread is shown. -/
def inspectThread (th : Thread) : String :=
  inspectFields "RobThread" [
    ("num_in_rob", toString th.inWindow),
    ("pre_rob", toString th.buffered),
    ("next_sequence_number", toString th.nextSeq),
    ("now", inspectTime th.now),
    ("instrs", toString th.retired),
    ("frontend_stalled_until", inspectTime th.stalledUntil),
    ("end_of_stream", toString th.endOfStream)]

/-- How a window is shown. -/
def inspect (w : Window M) : String :=
  inspectFields "RobSmtTimer" [
    ("now", inspectTime w.clock.now),
    ("current_window_size", toString w.share),
    ("rs_entries_used", toString w.stationsUsed),
    ("threads",
      "[" ++ ", ".intercalate (w.lanes.toList.map fun lane => inspectThread lane.thread) ++ "]")]

end Window

end CoreTiming
