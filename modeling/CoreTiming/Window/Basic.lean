import CoreTiming.Memory.System
import CoreTiming.UnitPool
import CoreTiming.Window.Thread

/-!
# The window of one core

A `Window` is the out-of-order part of one physical core.  Its hardware threads, each on a `Lane`
with a memory of its own, split the window and share the reservation stations, the load queue and
the store queue.

Operations on one lane are lifted to the window by `onLane` and `onThread`.
-/

namespace CoreTiming

/-- A hardware thread and the memory that serves it. -/
structure Lane (M : Type) where
  /-- The thread. -/
  thread : Thread
  /-- Its memory. -/
  memory : M

instance {M : Type} [MemorySystem M] : Inhabited (Lane M) := ⟨⟨default, default⟩⟩

/-- Which slots run a thread; slots beyond the array do not. -/
abbrev Running := Array Bool

/-- The out-of-order window of one core. -/
structure Window (M : Type) where
  /-- The parameters. -/
  config : Config
  /-- The core's clock. -/
  clock : Clock
  /-- The hardware threads, in slot order. -/
  lanes : Array (Lane M) := #[]
  /-- Window entries that each thread may use. -/
  share : Nat
  /-- Reservation stations in use. -/
  stationsUsed : Nat := 0
  /-- The thread that may dispatch first. -/
  dispatchTurn : Nat := 0
  /-- The thread that may issue first. -/
  issueTurn : Nat := 0
  /-- When the last store issued so far will have drained. -/
  lastStoreDone : Time := 0
  /-- The load queue. -/
  loadQueue : UnitPool
  /-- The store queue. -/
  storeQueue : UnitPool
  /-- Time that was jumped over. -/
  timeSkipped : Time := 0
  /-- Serializing micro-ops issued. -/
  serializations : Nat := 0
  /-- Fences issued. -/
  fences : Nat := 0

namespace Window

variable {M : Type} [MemorySystem M]

instance : Inhabited (Window M) :=
  ⟨{ config := default, clock := default, share := 1, loadQueue := .new 0, storeQueue := .new 0 }⟩

/-- The number of bytes that a unit of a queue is taken to occupy. -/
def unitBytes : Nat := 8

/-- The window that `config` describes, without hardware threads. -/
def new (config : Config) : Except Fault (Window M) := do
  let period ← config.period
  Word.room config.window.outstandingLoads unitBytes
  Word.room config.window.outstandingStores unitBytes
  pure
    { config
      clock := .new period
      share := max (config.core.windowSize / max config.core.smtThreads 1) 1
      loadQueue := .new config.window.outstandingLoads
      storeQueue := .new config.window.outstandingStores }

/-! ## Working on one lane -/

/-- Runs an operation on lane `i`.  The lane is taken out while the operation runs. -/
@[inline] def onLane {α : Type} (i : Nat) (x : Faulting (Lane M) α) : Faulting (Window M) α :=
  fun w =>
    if h : i < w.lanes.size then
      let lane := w.lanes[i]
      let w := { w with lanes := w.lanes.set i default }
      match x lane with
      | .ok a lane => .ok a { w with lanes := w.lanes.setIfInBounds i lane }
      | .error f lane => .error f { w with lanes := w.lanes.setIfInBounds i lane }
    else .error .indexOutOfBounds w

/-- Runs an operation on the thread of lane `i`. -/
@[inline] def onThread {α : Type} (i : Nat) (x : Faulting Thread α) : Faulting (Window M) α :=
  onLane i (Faulting.zoom (·.thread) (fun thread lane => { lane with thread }) x)

/-- Changes the thread of lane `i`. -/
@[inline] def modifyThread (i : Nat) (f : Thread → Thread) : Faulting (Window M) Unit :=
  onThread i (modify f)

/-- The thread of lane `i`. -/
def thread (w : Window M) (i : Nat) : Except Fault Thread :=
  match w.lanes[i]? with
  | some lane => .ok lane.thread
  | none => .error .indexOutOfBounds

/-- The lanes in turn, lane `first` being the first. -/
def rotation (w : Window M) (first : Nat) : List Nat :=
  (List.range w.lanes.size).map fun k => (first + k) % w.lanes.size

/-- The lane whose turn comes after that of lane `i`. -/
def turnAfter (w : Window M) (i : Nat) : Nat := (i + 1) % w.lanes.size

end Window

end CoreTiming
