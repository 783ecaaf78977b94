import CoreTiming.Machine.Calls
import CoreTiming.Simulation.Feed

/-!
# Simulations

A simulation runs one workload on every core of a machine.  Each core has a feed, and its host
thread gives the timing model one instruction after the other, and in the end drains it.  The host
threads take turns whenever one has to wait for others.
-/

namespace CoreTiming

/-- How far the host thread of a core has come. -/
inductive Stage
  /-- It has not begun; so many instructions are to be fed. -/
  | ready (left : Nat)
  /-- It waits inside the timing of an instruction; so many are left after it. -/
  | feeding (left : Nat)
  /-- It waits for its model to drain. -/
  | draining
  /-- It is through. -/
  | done
  /-- A call on its model was refused. -/
  | refused (e : CallError)
  /-- It could not go on. -/
  | died
  deriving DecidableEq, Inhabited

/-- A machine and what feeds it. -/
structure Simulation where
  /-- The machine. -/
  machine : Machine Hierarchy := {}
  /-- The feed of each core. -/
  feeds : Array Feed := #[]
  /-- Where each host thread stands. -/
  stages : Array Stage := #[]
  deriving Inhabited

namespace Simulation

/-- Runs an operation on the machine. -/
@[inline] def onMachine {α : Type} (x : Faulting (Machine Hierarchy) α) : Faulting Simulation α :=
  Faulting.zoom (·.machine) (fun machine s => { s with machine }) x

/-- Runs an operation on the feed of core `i`. -/
@[inline] def onFeed {α : Type} (i : Nat) (x : Faulting Feed α) : Faulting Simulation α :=
  Faulting.zoom (fun s => s.feeds.getD i default)
    (fun feed s => { s with feeds := s.feeds.setIfInBounds i feed }) x

/-- Moves the host thread of core `i` to a stage. -/
def setStage (i : Nat) (stage : Stage) (s : Simulation) : Simulation :=
  { s with stages := s.stages.setIfInBounds i stage }

/-! ## Host threads -/

/-- Feeds one instruction to core `i`. -/
def feedOne (i : Nat) : Faulting Simulation Progress := do
  let (u, infos) ← onFeed i Feed.next
  onMachine do
    infos.forM fun info => discard (Machine.call i (.info info))
    Machine.call i (.instruction u)

/-- Takes note of how the draining of core `i` has come along. -/
def drained (i : Nat) : Progress → Simulation → Simulation
  | .waiting => setStage i .draining
  | .refused e => setStage i (.refused e)
  | .completed _ => setStage i .done

/-- Feeds `left` instructions to core `i` and drains it, as far as it goes without waiting. -/
def feed (i : Nat) : (left : Nat) → Faulting Simulation Unit
  | 0 => do modify (drained i (← onMachine (Machine.call i .finish)))
  | left + 1 => do
    match ← feedOne i with
    | .waiting => modify (setStage i (.feeding left))
    | .refused e => modify (setStage i (.refused e))
    | .completed _ => feed i left

/-- Goes on with the host thread of core `i`. -/
def proceed (i : Nat) : Faulting Simulation Unit := do
  match (← get).stages.getD i .done with
  | .ready left => feed i left
  | .feeding left =>
    match ← onMachine (Machine.resume i) with
    | .waiting => pure ()
    | .refused e => modify (setStage i (.refused e))
    | .completed _ => feed i left
  | .draining => do modify (drained i (← onMachine (Machine.resume i)))
  | .done | .refused _ | .died => pure ()

/-- A turn of the host thread of core `i`, which dies of a fault. -/
def turn (i : Nat) : Faulting Simulation Unit :=
  tryCatch (proceed i) fun _ =>
    modify fun s => { s with machine := s.machine.abandon i }.setStage i .died

/-! ## Whole runs -/

/-- A machine of `cores` cores, each of which is to be fed `instructions` instructions. -/
def new (config : Config) (workload : Workload) (cores instructions : Nat) :
    Except Fault Simulation := do
  let period ← config.period
  let caches := Hierarchy.new config.memory period
  let attachAll := (List.range cores).forM fun core =>
    Machine.attach config core (some core) caches
  match attachAll {} with
  | .error f _ => .error f
  | .ok () machine =>
    .ok
      { machine
        feeds := (Array.range cores).map fun core => { core, workload, memory := caches }
        stages := Array.replicate cores (.ready instructions) }

/-- Lets all host threads run until they are through, or wait for each other for ever. -/
def run (s : Simulation) : Simulation :=
  match Schedule.settle (·.machine.woken) turn Schedule.maxTurns (List.range s.stages.size) s with
  | .ok () s | .error _ s => s

end Simulation

end CoreTiming
