import CoreTiming.Window.Basic

/-!
# The commit stage

Entries leave the window at its head, in program order, once they are done.  Behind a mispredicted
branch the thread starts over: everything younger goes back to the buffer under fresh numbers, and
the front end is held up for the penalty.
-/

namespace CoreTiming

namespace Thread

/-- The record of the entry `e`, which commits at `now`. -/
def commitRecord (e : Entry) (now : Time) : CommitRecord :=
  { seq := e.seq, dispatched := e.dispatched, issued := e.issued, done := e.done, committed := now }

/-- Takes the oldest entry, which is `e`, out of the window. -/
def retire (keepLog : Bool) (now : Time) (e : Entry) (th : Thread) : Thread :=
  let stats := th.stats
  let isBranch := e.u.op.isBranch
  { th with
    ring := th.ring.tail
    inWindow := th.inWindow - 1
    retired := th.retired + (if e.u.op.last then 1 else 0)
    predictor :=
      match isBranch, e.u.branch with
      | true, some outcome => th.predictor.map (·.train e.u.op.ip outcome)
      | _, _ => th.predictor
    stats := { stats with
      commitLog := if keepLog then stats.commitLog.push (commitRecord e now) else stats.commitLog
      branches := stats.branches + (if isBranch then 1 else 0)
      mispredictions :=
        stats.mispredictions + (if isBranch && e.u.mispredicted then 1 else 0) } }

/-- Reservation stations that the thread holds. -/
def stationsHeld (th : Thread) : Nat := th.ring.countAmong th.inWindow fun e => e.issued.isNever

/-- Empties the window into the buffer and stalls the front end for `penalty` cycles. -/
def flush (clock : Clock) (penalty : Nat) (th : Thread) : Except Fault Thread := do
  let nextSeq ← Word.add th.nextSeq th.ring.length
  pure
    { th with
      ring := th.ring.mapIdx fun i e => e.restart (th.nextSeq + i)
      nextSeq
      inWindow := 0
      registers := .empty
      stores := th.stores.clear
      fetching := false
      stalledUntil := clock.afterCycles penalty
      stall := some .branchPredictor
      nextEvent := clock.now }

/-- Commits up to `width` entries.  Gives how many reservation stations a flush has freed. -/
def commit (clock : Clock) (penalty : Nat) (keepLog : Bool) : (width : Nat) → Faulting Thread Nat
  | 0 => pure 0
  | width + 1 => do
    match (← get).oldest? with
    | none => pure 0
    | some e =>
      if clock.now < e.done then pure 0
      else
        modify (retire keepLog clock.now e)
        if e.u.op.isBranch && e.u.mispredicted then
          let freed := (← get).stationsHeld
          set (← Faulting.ofExcept ((← get).flush clock penalty))
          pure freed
        else commit clock penalty keepLog width

end Thread

namespace Window

variable {M : Type} [MemorySystem M]

/-- The turn of lane `i` in the commit stage. -/
def commitLane (i : Nat) : Faulting (Window M) Unit := do
  let w ← get
  let c := w.config
  let freed ← onThread i
    (Thread.commit w.clock c.predictor.penalty c.window.commitLog c.window.commitWidth)
  modify fun w => { w with stationsUsed := w.stationsUsed - freed }

/-- The commit stage.  Gives the time at which the first lane may have more to commit. -/
def commit : Faulting (Window M) Time := do
  (List.range (← get).lanes.size).forM commitLane
  match (← get).lanes[0]? with
  | some lane => pure ((lane.thread.oldest?.map Entry.done).getD .never)
  | none => pure .never

end Window

end CoreTiming
