import CoreTiming.Fault
import CoreTiming.MicroOp.Basic
import CoreTiming.Stats.CpiStack

/-!
# Counters of a hardware thread

What one hardware thread of a window has counted: its time by cause, the micro-ops pushed by kind,
the latency of its loads and stores, the distance from each micro-op to its youngest producer, the
long loads it had in flight, its branches, and, if wanted, the times of every committed micro-op.
-/

namespace CoreTiming

/-- The times of one committed micro-op. -/
structure CommitRecord where
  /-- The sequence number under which it committed. -/
  seq : Nat
  /-- When it entered the window. -/
  dispatched : Time
  /-- When it left its reservation station. -/
  issued : Time
  /-- When its result was available. -/
  done : Time
  /-- When it retired. -/
  committed : Time
  deriving DecidableEq, Inhabited

/-- A count for each kind of micro-op. -/
abbrev KindCounts := Vector Nat OpKind.count

/-- What a hardware thread has counted. -/
structure ThreadStats where
  /-- Time by cause. -/
  cpi : CpiStack := {}
  /-- Micro-ops pushed. -/
  opsTotal : Nat := 0
  /-- Of these, old-style floating point. -/
  opsX87 : Nat := 0
  /-- Of these, hints of a spin loop. -/
  opsPause : Nat := 0
  /-- Of these, by kind. -/
  opsByKind : KindCounts := Vector.replicate _ 0
  /-- Loads issued. -/
  loadsCount : Nat := 0
  /-- Their summed latency. -/
  loadsLatency : Time := 0
  /-- Stores issued. -/
  storesCount : Nat := 0
  /-- Their summed latency. -/
  storesLatency : Time := 0
  /-- Micro-ops by the distance to their youngest producer. -/
  producerDistance : Array Nat := #[]
  /-- The sum of all distances. -/
  totalProducerDistance : Nat := 0
  /-- Micro-ops with a producer in flight. -/
  totalConsumers : Nat := 0
  /-- Summed latency of long loads. -/
  longLoadTime : Time := 0
  /-- Time during which some long load was outstanding. -/
  longLoadSpan : Time := 0
  /-- Time by the number of outstanding loads. -/
  loadHistogram : Array Time := #[]
  /-- Branches committed. -/
  branches : Nat := 0
  /-- Of these, mispredicted. -/
  mispredictions : Nat := 0
  /-- The committed micro-ops, if they are kept. -/
  commitLog : Array CommitRecord := #[]
  deriving DecidableEq, Inhabited

namespace ThreadStats

/-- Counters with a bin for each distance below the size of the window, and, if wanted, a
histogram of outstanding loads. -/
def new (windowSize : Nat) (histogramBins : Option Nat) : ThreadStats :=
  { producerDistance := Array.replicate (max windowSize 1) 0
    loadHistogram := Array.replicate (histogramBins.getD 0) 0 }

/-- Counts a micro-op whose youngest producer is `distance` micro-ops older; zero if none is in
flight.  Distances beyond the window share the last bin. -/
def recordDistance (distance : Nat) : Faulting ThreadStats Unit := do
  modify fun s =>
    let last := s.producerDistance.size - 1
    { s with producerDistance := s.producerDistance.modify (min distance last) (· + 1) }
  if 0 < distance then
    let total ← Faulting.ofExcept (Word.add (← get).totalProducerDistance distance)
    modify fun s =>
      { s with totalProducerDistance := total, totalConsumers := s.totalConsumers + 1 }

/-- Counts a micro-op that is pushed. -/
def recordPush (s : ThreadStats) (op : MicroOp) : ThreadStats :=
  { s with
    opsByKind := s.opsByKind.set op.kind.index
      (s.opsByKind.get ⟨op.kind.index, op.kind.index_lt⟩ + 1) op.kind.index_lt
    opsTotal := s.opsTotal + 1
    opsX87 := s.opsX87 + (if op.x87 then 1 else 0)
    opsPause := s.opsPause + (if op.pause then 1 else 0) }

end ThreadStats

end CoreTiming
