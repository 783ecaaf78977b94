import CoreTiming.Branch.Predictor
import CoreTiming.Clock
import CoreTiming.Dependency.RegisterTable
import CoreTiming.Dependency.StoreTable
import CoreTiming.Stats.ThreadStats
import CoreTiming.Window.Entry

/-!
# Hardware threads of a window

A `Thread` keeps its micro-ops in one ring: the oldest `inWindow` entries have been dispatched, the
others are buffered in front of the window.  Sequence numbers in the ring are consecutive, so the
number of an entry gives away its position.
-/

namespace CoreTiming

/-- A long load in flight. -/
structure LongLoad where
  /-- When its result is available. -/
  done : Time
  /-- Where it is served. -/
  hit : Location
  deriving DecidableEq, Inhabited

namespace LongLoad

/-- The most long loads in flight under which dispatch goes on. -/
def maxOutstanding : Nat := 32

/-- The load that is done first; the oldest one of several. -/
def earliest? : List LongLoad → Option LongLoad
  | [] => none
  | load :: rest =>
    match earliest? rest with
    | some other => some (if other.done < load.done then other else load)
    | none => some load

end LongLoad

/-- The state of one hardware thread. -/
structure Thread where
  /-- The entries in the window, followed by those that are buffered. -/
  ring : Ring Entry := .empty 0
  /-- How many entries are in the window. -/
  inWindow : Nat := 0
  /-- The number that the next entry gets. -/
  nextSeq : Nat := 0
  /-- Who writes which register. -/
  registers : RegisterTable := .empty
  /-- Stores in flight and the latest fence. -/
  stores : StoreTable := { stores := .empty 0 }
  /-- The time up to which the thread has been told about latency. -/
  now : Time := 0
  /-- Instructions committed. -/
  retired : Nat := 0
  /-- Of these, the ones reported already. -/
  reported : Nat := 0
  /-- Nothing is dispatched before this time. -/
  stalledUntil : Time := 0
  /-- Whether the stall is an instruction fetch for the next micro-op. -/
  fetching : Bool := false
  /-- Before this time nothing can issue. -/
  nextEvent : Time := 0
  /-- Why dispatch stopped. -/
  stall : Option Cause := some .smt
  /-- What the present cycle is charged to. -/
  cause : Cause := .base
  /-- Long loads in flight, in the order in which they issued. -/
  longLoads : List LongLoad := []
  /-- The end of the time for which long loads have been counted. -/
  accountedUntil : Time := 0
  /-- Whether the last micro-op has been pushed. -/
  endOfStream : Bool := false
  /-- The branch predictor, if there is one. -/
  predictor : Option Predictor := none
  /-- Counters. -/
  stats : ThreadStats := {}
  deriving Inhabited

namespace Thread

/-- Room in the ring beyond the window. -/
def bufferSlack : Nat := 255

/-- The least number of stores that can be tracked. -/
def minStores : Nat := 1024

/-- The number of bytes that an entry is taken to occupy when room is made for the ring. -/
def entryBytes : Nat := 440

/-- A thread without micro-ops. -/
def new (windowSize : Nat) (loadHistogram : Bool) (predictor : Option Predictor) :
    Except Fault Thread := do
  let capacity ← Word.add windowSize bufferSlack
  Word.room capacity entryBytes
  pure
    { ring := .empty capacity
      stores := .new (max capacity minStores)
      predictor
      stats := .new windowSize (if loadHistogram then some LongLoad.maxOutstanding else none) }

/-- How many micro-ops wait in front of the window. -/
def buffered (th : Thread) : Nat := th.ring.length - th.inWindow

/-- The number of the oldest entry. -/
def frontSeq? (th : Thread) : Option Nat := th.ring.front?.map Entry.seq

/-- The oldest entry in the window. -/
def oldest? (th : Thread) : Option Entry := if th.inWindow = 0 then none else th.ring.front?

/-- The entry numbered `seq` and its position. -/
def locate (th : Thread) (seq : Nat) : Except Fault (Nat × Entry) :=
  let front := th.frontSeq?.getD seq
  let i := seq - front
  if seq < front then .error (.outsideRing seq front th.ring.length)
  else
    match th.ring.get? i with
    | some e => if e.seq = seq then .ok (i, e) else .error (.misplaced seq i)
    | none => .error (.outsideRing seq front th.ring.length)

/-- Replaces the entry at position `i`. -/
def setEntry (th : Thread) (i : Nat) (e : Entry) : Thread :=
  { th with ring := th.ring.modify i fun _ => e }

/-- What the oldest entry that is not done yet is waiting for, if that explains a stall. -/
def headCause? (th : Thread) (now : Time) : Option Cause :=
  match th.ring.findAmong th.inWindow fun e => now ≤ e.done with
  | none => none
  | some e =>
    let op := e.u.op
    if now ≤ e.issued then none
    else if op.serializing || op.fence then some .serialization
    else if op.isLoad || op.isStore then some (.dataCache e.u.dataHit)
    else none

/-- How many loads of the window are outstanding at `now`. -/
def outstandingLoads (th : Thread) (now : Time) : Nat :=
  th.ring.countAmong th.inWindow fun e => e.u.op.isLoad && e.isDone && now < e.done

/-- Charges a span of time to the cause of the present cycle and, if the histogram is kept, to the
number of outstanding loads.  More loads than bins share the last bin. -/
def charge (th : Thread) (loadHistogram : Bool) (now span : Time) : Thread :=
  let stats := th.stats
  let outstanding := if loadHistogram then th.outstandingLoads now else 0
  let histogram :=
    if outstanding = 0 then stats.loadHistogram
    else stats.loadHistogram.modify (min outstanding (stats.loadHistogram.size - 1)) (· + span)
  { th with stats := { stats with
      cpi := stats.cpi.charge th.cause span
      loadHistogram := histogram } }

/-- Whether the thread could dispatch at `now`, had it micro-ops to dispatch. -/
def canDispatch (th : Thread) (running : Bool) (windowShare : Nat) (now : Time) : Bool :=
  running && th.stalledUntil ≤ now && th.now ≤ now && th.inWindow < windowShare

/-- Whether work is left for the thread. -/
def hasWork (th : Thread) (running : Bool) : Bool :=
  0 < th.inWindow || (running && 0 < th.buffered)

/-- Whether the buffer cannot fill two dispatch groups although more micro-ops are to come. -/
def isStarved (th : Thread) (dispatchWidth : Nat) : Bool :=
  !th.endOfStream && th.buffered < 2 * dispatchWidth

end Thread

end CoreTiming
