import CoreTiming.Location
import CoreTiming.Time

/-!
# Where the time went

Every cycle that the window simulates is charged to one `Cause` per hardware thread.  A `CpiStack`
adds up the time per cause; `total` is all of it, `entries` lists what a report shows.
-/

namespace CoreTiming

/-- What a cycle is charged to. -/
inductive Cause
  /-- Useful work, or a stall without a better name. -/
  | base
  /-- Another hardware thread had the dispatch slot. -/
  | smt
  /-- The thread was not running, or ahead of the core. -/
  | idle
  /-- Fetching again after a misprediction. -/
  | branchPredictor
  /-- Waiting for a serializing micro-op or a fence. -/
  | serialization
  /-- No reservation station was free. -/
  | stationsFull
  /-- An instruction fetch served at a location. -/
  | instructionCache (l : Location)
  /-- A data access served at a location. -/
  | dataCache (l : Location)
  deriving DecidableEq, Inhabited, Repr

/-- The key of a cause in reports. -/
def Cause.key : Cause → String
  | .base => "cpiBase"
  | .smt => "cpiSMT"
  | .idle => "cpiIdle"
  | .branchPredictor => "cpiBranchPredictor"
  | .serialization => "cpiSerialization"
  | .stationsFull => "cpiRSFull"
  | .instructionCache l => "cpiInstructionCache" ++ l.name
  | .dataCache l => "cpiDataCache" ++ l.name

/-- A time for each location. -/
abbrev LocationTimes := Vector Time Location.count

/-- The time at a location. -/
def LocationTimes.at (v : LocationTimes) (l : Location) : Time := v.get ⟨l.index, l.index_lt⟩

/-- Adds to the time at a location. -/
def LocationTimes.charge (v : LocationTimes) (l : Location) (t : Time) : LocationTimes :=
  v.set l.index (v.at l + t) l.index_lt

theorem LocationTimes.at_charge (v : LocationTimes) (l m : Location) (t : Time) :
    (v.charge l t).at m = if m = l then v.at l + t else v.at m := by
  have hl := l.index_lt
  have hm := m.index_lt
  show (v.set l.index (v[l.index] + t))[m.index] = if m = l then v[l.index] + t else v[m.index]
  rw [Vector.getElem_set]
  by_cases h : m = l
  · simp [h]
  · have : ¬ l.index = m.index := fun e => h (Location.index_injective e).symm
    simp [h, this]

/-- Time by cause. -/
structure CpiStack where
  /-- Useful work. -/
  base : Time := 0
  /-- Lost to other hardware threads. -/
  smt : Time := 0
  /-- Idle. -/
  idle : Time := 0
  /-- Fetching again after mispredictions. -/
  branchPredictor : Time := 0
  /-- Serializing micro-ops and fences. -/
  serialization : Time := 0
  /-- No free reservation station. -/
  stationsFull : Time := 0
  /-- Instruction fetches, by location. -/
  instructionCache : LocationTimes := Vector.replicate _ 0
  /-- Data accesses, by location. -/
  dataCache : LocationTimes := Vector.replicate _ 0
  deriving DecidableEq

namespace CpiStack

instance : Inhabited CpiStack := ⟨{}⟩

/-- Charges a time to a cause. -/
def charge (s : CpiStack) (c : Cause) (t : Time) : CpiStack :=
  match c with
  | .base => { s with base := s.base + t }
  | .smt => { s with smt := s.smt + t }
  | .idle => { s with idle := s.idle + t }
  | .branchPredictor => { s with branchPredictor := s.branchPredictor + t }
  | .serialization => { s with serialization := s.serialization + t }
  | .stationsFull => { s with stationsFull := s.stationsFull + t }
  | .instructionCache l => { s with instructionCache := s.instructionCache.charge l t }
  | .dataCache l => { s with dataCache := s.dataCache.charge l t }

/-- The time charged to a cause. -/
def get (s : CpiStack) : Cause → Time
  | .base => s.base
  | .smt => s.smt
  | .idle => s.idle
  | .branchPredictor => s.branchPredictor
  | .serialization => s.serialization
  | .stationsFull => s.stationsFull
  | .instructionCache l => s.instructionCache.at l
  | .dataCache l => s.dataCache.at l

theorem get_charge (s : CpiStack) (c d : Cause) (t : Time) :
    (s.charge c t).get d = if d = c then s.get c + t else s.get d := by
  cases c <;> cases d <;> simp [charge, get, LocationTimes.at_charge]

/-- All the time charged. -/
def total (s : CpiStack) : Time :=
  let fixed := s.base + s.smt + s.idle + s.branchPredictor + s.serialization + s.stationsFull
  s.dataCache.toList.foldl (· + ·) (s.instructionCache.toList.foldl (· + ·) fixed)

/-- The causes that a report lists, in order. -/
def reportedCauses : List Cause :=
  [.base, .smt, .idle, .branchPredictor, .serialization, .stationsFull] ++
    (Location.all.filter Location.isReported).flatMap fun l => [.instructionCache l, .dataCache l]

/-- The causes with time charged to them, as a report lists them. -/
def entries (s : CpiStack) : List (String × Time) :=
  reportedCauses.filterMap fun c => if 0 < s.get c then some (c.key, s.get c) else none

end CpiStack

end CoreTiming
