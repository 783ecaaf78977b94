import CoreTiming.Simulation.Basic
import CoreTiming.Stats.Record

/-!
# What a simulation has shown

The summary of a simulation: cycles and instructions of every core, its caches, and the counters of
all windows, as a table or as a document.
-/

namespace CoreTiming

/-- The result of one core. -/
structure CoreSummary where
  /-- The core. -/
  core : Nat
  /-- Instructions timed. -/
  instructions : Nat
  /-- Cycles elapsed, rounded. -/
  cycles : Nat
  /-- Time elapsed. -/
  elapsed : Time
  /-- Counters of the caches in front of the core, level 1 for instructions first. -/
  caches : List CacheStats
  deriving Inhabited

/-- The result of a simulation. -/
structure Summary where
  /-- The timing model. -/
  model : ModelKind
  /-- The workload. -/
  workload : Workload
  /-- The result of each core. -/
  cores : List CoreSummary
  /-- The counters of all windows. -/
  windows : List WindowReport
  deriving Inhabited

/-- Instructions per cycle. -/
def CoreSummary.ipc (c : CoreSummary) : Float := WindowReport.average c.instructions c.cycles

/-! ## Collecting -/

namespace Simulation

/-- The message of a core whose host thread did not come through. -/
def diedMessage : String := "host thread panicked"

/-- The result of core `i`. -/
def coreSummary (s : Simulation) (i : Nat) : Except String CoreSummary :=
  match s.stages.getD i .died, s.machine.models[i]?, s.feeds[i]? with
  | .refused e, _, _ => .error e.message
  | .done, some model, some feed =>
    let state := model.state
    match state.clock.now.divideRounded state.clock.period.length with
    | .error _ => .error diedMessage
    | .ok cycles =>
      .ok { core := i, instructions := state.instructions, cycles, elapsed := state.clock.now,
            caches := feed.memory.stats }
  | _, _, _ => .error diedMessage

/-- The results of all cores, or what went wrong on the first core that has none. -/
def coreSummaries (s : Simulation) : Except String (List CoreSummary) :=
  (List.range s.stages.size).mapM fun i =>
    (s.coreSummary i).mapError fun e => s!"core {i}: {e}"

end Simulation

/-! ## As a document -/

/-- The result of a core as a document. -/
def CoreSummary.document (c : CoreSummary) : Document :=
  .record "CoreSummary" [
    ("core", c.core),
    ("instructions", c.instructions),
    ("cycles", c.cycles),
    ("elapsed", c.elapsed),
    ("ipc", c.ipc),
    ("caches", .list (c.caches.map CacheStats.document))]

/-- The result of a simulation as a document. -/
def Summary.document (s : Summary) : Document :=
  .record "RunSummary" [
    ("model", s.model.name),
    ("workload", s.workload.name),
    ("cores", .list (s.cores.map CoreSummary.document)),
    ("rob_timers", .list (s.windows.map WindowReport.document))]

/-! ## As a table -/

/-- Hits and misses of a cache, in columns of some width. -/
def CacheStats.column (width : Nat) (c : CacheStats) : String :=
  Decimal.padStart width ' ' (toString c.hits) ++ "/" ++ Decimal.padEnd width (toString c.misses)

/-- The line of a core. -/
def CoreSummary.line (c : CoreSummary) : String :=
  let number (width n : Nat) := Decimal.padStart width ' ' (toString n) ++ "  "
  number 4 c.core ++ number 12 c.instructions ++ number 12 c.cycles ++
    Decimal.padStart 6 ' ' (Decimal.fixed 3 c.ipc) ++ "   " ++
    (c.caches.getD 1 default).column 8 ++ "   " ++ (c.caches.getD 2 default).column 7

/-- The lines above the reports of the windows. -/
def Summary.table (s : Summary) : String :=
  let header := [s!"model: {s.model.name}  workload: {s.workload.name}", "",
    "core  instructions        cycles     IPC   L1-D hits/misses   L2 hits/misses"]
  String.join ((header ++ s.cores.map CoreSummary.line).map (· ++ "\n"))

/-- The summary as a text. -/
def Summary.render (s : Summary) : Except Fault String := do
  pure (s.table ++ String.join (← s.windows.mapM WindowReport.render))

end CoreTiming
