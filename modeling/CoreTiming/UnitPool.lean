import CoreTiming.Time

/-!
# Pools of identical units

Each unit of a pool remembers when it becomes free.  A request takes the first unit that is free
at its start, or else the one that becomes free earliest, and keeps it busy for its duration.  A
pool without units stands for an unlimited number of them.

Requests are expected in the order of their start times.  One that starts before its predecessor
is served at once and leaves the units alone.
-/

namespace CoreTiming

/-- What a pool has counted. -/
structure PoolStats where
  /-- Requests served. -/
  requests : Nat := 0
  /-- Barriers served. -/
  barriers : Nat := 0
  /-- Requests that started before their predecessor. -/
  outOfOrder : Nat := 0
  /-- Requests that started together with their predecessor. -/
  simultaneous : Nat := 0
  /-- Time that requests waited for a unit. -/
  totalDelay : Time := 0
  /-- Time that barriers waited for the last unit. -/
  totalBarrierDelay : Time := 0
  deriving DecidableEq, Inhabited

/-- A pool of units. -/
structure UnitPool where
  /-- When each unit becomes free. -/
  freeAt : List Time
  /-- The start of the latest request served in order. -/
  lastStart : Time := 0
  /-- What happened so far. -/
  stats : PoolStats := {}
  deriving DecidableEq, Inhabited

namespace UnitPool

/-- A pool of `n` units, all of them free. -/
def new (n : Nat) : UnitPool := { freeAt := List.replicate n 0 }

/-- How many units there are. -/
def numUnits (p : UnitPool) : Nat := p.freeAt.length

/-- Looks for a unit free at `start`, from unit `i` on.  `best` is the first of the units before
`i` that become free earliest, at `bestTime`. -/
def scan (start : Time) : List Time → (i best : Nat) → (bestTime : Time) → Nat × Time
  | [], _, best, bestTime => (best, bestTime)
  | t :: rest, i, best, bestTime =>
    if t ≤ start then (i, t)
    else if t < bestTime then scan start rest (i + 1) i t
    else scan start rest (i + 1) best bestTime

/-- The unit that a request at `start` takes, and when that unit becomes free. -/
def choose (p : UnitPool) (start : Time) : Nat × Time :=
  scan start p.freeAt 0 0 (p.freeAt.headD 0)

/-- Reserves a unit for `delay`, not before `start`, and gives the time of completion. -/
def serve (p : UnitPool) (start delay : Time) : Time × UnitPool :=
  if p.freeAt.isEmpty then (start + delay, p)
  else if start < p.lastStart then
    (start + delay,
      { p with stats := { p.stats with
          outOfOrder := p.stats.outOfOrder + 1, requests := p.stats.requests + 1 } })
  else
    let (i, free) := p.choose start
    let begin' := max start free
    let done := begin' + delay
    (done,
      { freeAt := p.freeAt.set i done
        lastStart := start
        stats := { p.stats with
          simultaneous := p.stats.simultaneous + (if start = p.lastStart then 1 else 0)
          totalDelay := p.stats.totalDelay + (begin' - start)
          requests := p.stats.requests + 1 } })

/-- Waits until every unit is free, not before `start`, and keeps all of them busy for `delay`. -/
def serveBarrier (p : UnitPool) (start delay : Time) : Time × UnitPool :=
  let begin' := p.freeAt.foldl max start
  let done := begin' + delay
  (done,
    { p with
      freeAt := p.freeAt.map fun _ => done
      stats := { p.stats with
        totalBarrierDelay := p.stats.totalBarrierDelay + (begin' - start)
        barriers := p.stats.barriers + 1 } })

/-- Whether a request at `now` would find a free unit. -/
def hasFree (p : UnitPool) (now : Time) : Bool := p.freeAt.isEmpty || p.freeAt.any (· ≤ now)

/-- How many units are busy at `now`. -/
def numBusy (p : UnitPool) (now : Time) : Nat := p.freeAt.countP (now < ·)

@[simp] theorem numUnits_new (n : Nat) : (new n).numUnits = n := List.length_replicate

@[simp] theorem numUnits_serve (p : UnitPool) (start delay : Time) :
    (p.serve start delay).2.numUnits = p.numUnits := by
  unfold serve numUnits
  split
  · rfl
  · split
    · rfl
    · simp

end UnitPool

end CoreTiming
