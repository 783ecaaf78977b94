import CoreTiming.Stats.ThreadStats
import CoreTiming.UnitPool

/-!
# Reports

A snapshot of a window and its hardware threads, and the text that shows it.
-/

namespace CoreTiming

/-- A snapshot of one hardware thread. -/
structure ThreadReport where
  /-- The slot of the thread. -/
  thread : Nat
  /-- Instructions committed. -/
  instructions : Nat
  /-- The time of the thread. -/
  elapsed : Time
  /-- Its counters. -/
  stats : ThreadStats
  deriving Inhabited

/-- Cycles per instruction at the given period. -/
def ThreadReport.cpi (r : ThreadReport) (period : Time) : Float :=
  if r.instructions = 0 ∨ period = 0 then 0.0
  else r.elapsed.fs.toFloat / period.fs.toFloat / r.instructions.toUInt64.toFloat

/-- A snapshot of one window. -/
structure WindowReport where
  /-- The length of a cycle. -/
  period : Time
  /-- The hardware threads. -/
  threads : List ThreadReport
  /-- Time that was jumped over. -/
  timeSkipped : Time
  /-- The load queue. -/
  loadQueue : PoolStats
  /-- The store queue. -/
  storeQueue : PoolStats
  /-- Serializing micro-ops issued. -/
  serializations : Nat
  /-- Fences issued. -/
  fences : Nat
  deriving Inhabited

namespace WindowReport

/-- `sum` over `count`, zero for an empty count. -/
def average (sum count : Nat) : Float :=
  if count = 0 then 0.0 else sum.toUInt64.toFloat / count.toUInt64.toFloat

/-- What part of `total` the time `t` is, in percent. -/
def share (t total : Time) : Float :=
  if total = 0 then 0.0 else t.fs.toFloat / total.fs.toFloat * 100.0

/-- The line for one cause. -/
def causeLine (period total : Time) (entry : String × Time) : Except Fault String := do
  let (key, time) := entry
  let cycles ← time.divideRounded period
  pure ("  " ++ Decimal.padEnd 26 key ++ " " ++ Decimal.padStart 10 ' ' (toString cycles) ++ " (" ++
    Decimal.fixed 2 (share time total) ++ "%)")

/-- The line for loads or stores. -/
def accessLine (label : String) (period : Time) (count : Nat) (latency : Time) :
    Except Fault String := do
  let cycles ← latency.divideRounded period
  pure ("  " ++ Decimal.padEnd 23 label ++ toString count ++ " (avg " ++
    Decimal.fixed 2 (average cycles count) ++ " cycles)")

/-- The line for a queue. -/
def queueLine (label : String) (period : Time) (stats : PoolStats) : Except Fault String := do
  let delay ← stats.totalDelay.divideRounded period
  pure (Decimal.padEnd 25 label ++ s!"{stats.requests} requests, {delay} cycles delay")

/-- The line that opens and closes a report. -/
def doubleRule : String := String.ofList (List.replicate 58 '=')

/-- The line between hardware threads. -/
def singleRule : String := String.ofList (List.replicate 58 '-')

/-- The lines for one hardware thread. -/
def threadLines (period : Time) (t : ThreadReport) : Except Fault (List String) := do
  let s := t.stats
  let cycles ← t.elapsed.divideRounded period
  let loads ← accessLine "loads" period s.loadsCount s.loadsLatency
  let stores ← accessLine "stores" period s.storesCount s.storesLatency
  let causes ← s.cpi.entries.mapM (causeLine period s.cpi.total)
  let branches :=
    if 0 < s.branches then [s!"  bp.mispredicts         {s.mispredictions} / {s.branches}"] else []
  pure ([singleRule, s!"THREAD {t.thread}",
      "  " ++ Decimal.padEnd 23 "instructions" ++ toString t.instructions,
      "  " ++ Decimal.padEnd 23 "cycles" ++ toString cycles,
      "  " ++ Decimal.padEnd 23 "cpi" ++ Decimal.fixed 4 (t.cpi period),
      "  " ++ Decimal.padEnd 23 "uops" ++ toString s.opsTotal,
      loads, stores] ++ branches ++ causes)

/-- The lines of the report, the first of which is blank. -/
def lines (r : WindowReport) : Except Fault (List String) := do
  let skipped ← r.timeSkipped.divideRounded r.period
  let loads ← queueLine "load_queue" r.period r.loadQueue
  let stores ← queueLine "store_queue" r.period r.storeQueue
  let threads ← r.threads.mapM (threadLines r.period)
  pure (["", doubleRule, "ROB TIMER STATISTICS", doubleRule,
      Decimal.padEnd 25 "time_skipped" ++ s!"{skipped} cycles",
      Decimal.padEnd 25 "serializations" ++ toString r.serializations,
      Decimal.padEnd 25 "mfences" ++ toString r.fences,
      loads, stores] ++ threads.flatten ++ [doubleRule])

/-- The report as a text. -/
def render (r : WindowReport) : Except Fault String := do
  pure (String.join ((← r.lines).map (· ++ "\n")))

end WindowReport

end CoreTiming
