/-!
# Where an access was served

The level of the memory hierarchy that answered an access.  Stalls are charged by this level.
-/

namespace CoreTiming

/-- A place that can serve an access. -/
inductive Location
  /-- The level-1 instruction cache. -/
  | l1i
  /-- The core's own level-1 data cache. -/
  | l1
  /-- The core's own level 2. -/
  | l2
  /-- The core's own level 3. -/
  | l3
  /-- The core's own level 4. -/
  | l4
  /-- A sibling's level 1. -/
  | l1Sibling
  /-- A sibling's level 2. -/
  | l2Sibling
  /-- A sibling's level 3. -/
  | l3Sibling
  /-- A sibling's level 4. -/
  | l4Sibling
  /-- Missed everywhere; the source is not tracked. -/
  | miss
  /-- Local main memory. -/
  | dramLocal
  /-- Remote main memory. -/
  | dramRemote
  /-- A remote cache. -/
  | cacheRemote
  /-- Not known yet: memory is asked when the access issues. -/
  | unresolved
  /-- A predicated access that never reached memory. -/
  | predicateFalse
  deriving DecidableEq, Inhabited, Repr

namespace Location

/-- Every location, in the order of their indices. -/
def all : List Location :=
  [.l1i, .l1, .l2, .l3, .l4, .l1Sibling, .l2Sibling, .l3Sibling, .l4Sibling, .miss, .dramLocal,
    .dramRemote, .cacheRemote, .unresolved, .predicateFalse]

/-- How many locations there are. -/
def count : Nat := 15

/-- The position of a location in tables. -/
def index : Location → Nat
  | .l1i => 0
  | .l1 => 1
  | .l2 => 2
  | .l3 => 3
  | .l4 => 4
  | .l1Sibling => 5
  | .l2Sibling => 6
  | .l3Sibling => 7
  | .l4Sibling => 8
  | .miss => 9
  | .dramLocal => 10
  | .dramRemote => 11
  | .cacheRemote => 12
  | .unresolved => 13
  | .predicateFalse => 14

/-- The name used in the keys of statistics. -/
def name : Location → String
  | .l1i => "L1I"
  | .l1 => "L1"
  | .l2 => "L2"
  | .l3 => "L3"
  | .l4 => "L4"
  | .l1Sibling => "L1_S"
  | .l2Sibling => "L2_S"
  | .l3Sibling => "L3_S"
  | .l4Sibling => "L4_S"
  | .miss => "miss"
  | .dramLocal => "dram-local"
  | .dramRemote => "dram-remote"
  | .cacheRemote => "cache-remote"
  | .unresolved => "unknown"
  | .predicateFalse => "predicate-false"

/-- Whether reports list the time charged to this location. -/
def isReported : Location → Bool
  | .unresolved | .predicateFalse => false
  | _ => true

theorem index_lt (l : Location) : l.index < count := by cases l <;> decide

theorem getElem?_all (l : Location) : all[l.index]? = some l := by cases l <;> rfl

theorem index_injective {a b : Location} (h : a.index = b.index) : a = b := by
  cases a <;> cases b <;> first | rfl | cases h

end Location

end CoreTiming
