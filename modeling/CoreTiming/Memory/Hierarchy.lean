import CoreTiming.Cache.SetAssociative
import CoreTiming.Memory.System

/-!
# The cache hierarchy

Private first-level caches for instructions and data, a second and a third level for both, and
main memory.  Levels may be missing.  An access walks down its path until a level holds the line;
every level on the way is looked up and allocates the line, and the latencies of all levels looked
up add.
-/

namespace CoreTiming

/-- Caches in front of main memory. -/
structure Hierarchy where
  /-- Level-1 instruction cache. -/
  l1i : Option Cache
  /-- Level-1 data cache. -/
  l1d : Option Cache
  /-- Level 2. -/
  l2 : Option Cache
  /-- Level 3. -/
  l3 : Option Cache
  /-- Cycles that main memory takes. -/
  dramLatency : Nat
  /-- The length of a cycle. -/
  period : Period
  deriving Inhabited

namespace Hierarchy

/-- The cache that `c` describes, if it is enabled. -/
def level (c : CacheConfig) : Option Cache := if c.enabled then some (.new c) else none

/-- The hierarchy that `c` describes, at the given period. -/
def new (c : MemoryConfig) (period : Period) : Hierarchy :=
  { l1i := level c.l1i, l1d := level c.l1d, l2 := level c.l2, l3 := level c.l3,
    dramLatency := c.dramLatency, period }

/-- A level on the path of an access. -/
inductive Level
  /-- The level-1 instruction cache. -/
  | l1i
  /-- The level-1 data cache. -/
  | l1d
  /-- Level 2. -/
  | l2
  /-- Level 3. -/
  | l3
  deriving DecidableEq, Inhabited, Repr

namespace Level

/-- Where an access is served that hits this level. -/
def hit : Level → Location
  | .l1i => .l1i
  | .l1d => .l1
  | .l2 => .l2
  | .l3 => .l3

/-- The levels that a data access looks up. -/
def dataPath : List Level := [.l1d, .l2, .l3]

/-- The levels that a fetch looks up. -/
def fetchPath : List Level := [.l1i, .l2, .l3]

end Level

/-- The cache at a level. -/
def cache? (h : Hierarchy) : Level → Option Cache
  | .l1i => h.l1i
  | .l1d => h.l1d
  | .l2 => h.l2
  | .l3 => h.l3

/-- Puts a cache, or none, in its place. -/
def setCache (h : Hierarchy) (c : Option Cache) : Level → Hierarchy
  | .l1i => { h with l1i := c }
  | .l1d => { h with l1d := c }
  | .l2 => { h with l2 := c }
  | .l3 => { h with l3 := c }

/-- Walks down a path; `cycles` is what the levels above have taken. -/
def walk (address : Address) (isWrite : Bool) : List Level → (cycles : Nat) →
    Faulting Hierarchy Served
  | [], cycles => do
    let h ← get
    let total ← Faulting.ofExcept (Word.add cycles h.dramLatency)
    pure ⟨h.period.cycles total, .dramLocal⟩
  | level :: path, cycles => do
    let h ← get
    match h.cache? level with
    | none => walk address isWrite path cycles
    | some cache =>
      let cycles ← Faulting.ofExcept (Word.add cycles cache.latency)
      -- The cache is taken out while it changes, so that nothing else refers to its sets.
      set (h.setCache none level)
      let (hit, cache) := cache.access address isWrite
      modify (·.setCache (some cache) level)
      if hit then pure ⟨h.period.cycles cycles, level.hit⟩ else walk address isWrite path cycles

/-- The counts of the four levels, zero for a missing one. -/
def stats (h : Hierarchy) : List CacheStats :=
  [h.l1i, h.l1d, h.l2, h.l3].map fun
    | some cache => cache.stats
    | none => {}

instance : MemorySystem Hierarchy where
  access a := walk a.address a.isWrite Level.dataPath 0
  fetch address _ := walk address false Level.fetchPath 0

theorem cache?_setCache (h : Hierarchy) (c : Option Cache) (l k : Level) :
    (h.setCache c l).cache? k = if k = l then c else h.cache? k := by
  cases l <;> cases k <;> rfl

end Hierarchy

end CoreTiming
