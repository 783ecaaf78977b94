import CoreTiming.Cache.Replacement

/-!
# Set-associative caches

A cache keeps tags only: which lines are resident, and which of them were written.  A miss always
allocates the line, in the way that the replacement policy gives up.

Each set holds its lines together with its replacement state, so that an access is a function on
one set (`CacheSet.access`), lifted to the cache by the line's address.
-/

namespace CoreTiming

/-- A line of a cache. -/
structure CacheLine where
  /-- What tells the line from others of its set. -/
  tag : Nat := 0
  /-- Whether it holds anything. -/
  valid : Bool := false
  /-- Whether it was written since it was allocated. -/
  dirty : Bool := false
  deriving DecidableEq, Inhabited

/-- What a cache has counted. -/
structure CacheStats where
  /-- Accesses that found their line. -/
  hits : Nat := 0
  /-- Accesses that allocated their line. -/
  misses : Nat := 0
  /-- Written lines that were evicted. -/
  writebacks : Nat := 0
  deriving DecidableEq, Inhabited

/-- What an access found. -/
inductive CacheOutcome
  /-- The line was resident. -/
  | hit
  /-- The line was allocated; `writeback` if a written line made room. -/
  | miss (writeback : Bool)
  deriving DecidableEq, Inhabited

/-- Counts one access. -/
def CacheStats.count (s : CacheStats) : CacheOutcome → CacheStats
  | .hit => { s with hits := s.hits + 1 }
  | .miss writeback =>
    { s with misses := s.misses + 1, writebacks := s.writebacks + (if writeback then 1 else 0) }

/-- One set of a cache. -/
structure CacheSet where
  /-- Its lines. -/
  lines : List CacheLine
  /-- Its replacement state. -/
  order : SetOrder
  deriving DecidableEq, Inhabited

namespace CacheSet

/-- A set of `ways` empty lines. -/
def new (kind : ReplacementKind) (ways : Nat) : CacheSet :=
  ⟨List.replicate ways {}, .new kind ways⟩

/-- The way that holds the line of `tag`. -/
def find? (s : CacheSet) (tag : Nat) : Option Nat :=
  s.lines.findIdx? fun line => line.valid && line.tag == tag

/-- Looks the line of `tag` up, and allocates it if it is missing. -/
def access (s : CacheSet) (tag : Nat) (isWrite : Bool) : CacheOutcome × CacheSet :=
  match s.find? tag with
  | some way =>
    (.hit,
      { lines := s.lines.modify way fun line => { line with dirty := line.dirty || isWrite }
        order := s.order.touch way })
  | none =>
    let way := s.order.victim % s.lines.length
    let old := s.lines[way]?.getD {}
    (.miss (old.valid && old.dirty),
      { lines := s.lines.set way { tag, valid := true, dirty := isWrite }
        order := s.order.fill way })

end CacheSet

/-- A level of cache. -/
structure Cache where
  /-- Cycles that an access takes. -/
  latency : Nat
  /-- Bytes in a line. -/
  lineBytes : Nat
  /-- The sets. -/
  sets : Array CacheSet
  /-- What happened so far. -/
  stats : CacheStats := {}
  deriving Inhabited

namespace Cache

/-- The cache that `c` describes; a degenerate geometry becomes one set of one line of 64 bytes. -/
def new (c : CacheConfig) : Cache :=
  let ways := max c.ways 1
  let lineBytes := if c.lineBytes = 0 then 64 else c.lineBytes
  let sets := max (c.sizeBytes / lineBytes / ways) 1
  { latency := c.latency, lineBytes, sets := Array.replicate sets (.new c.policy ways) }

/-- The set and the tag of an address. -/
def locate (c : Cache) (address : Address) : Nat × Nat :=
  let line := address.toNat / c.lineBytes
  (line % c.sets.size, line / c.sets.size)

/-- Whether the line of an address is resident. -/
def contains (c : Cache) (address : Address) : Bool :=
  let (set, tag) := c.locate address
  ((c.sets[set]?).bind (·.find? tag)).isSome

/-- Looks an address up and allocates its line if it is missing; gives whether it was resident. -/
def access (c : Cache) (address : Address) (isWrite : Bool) : Bool × Cache :=
  let (i, tag) := c.locate address
  match c.sets[i]? with
  | none => (false, c)
  | some set =>
    let (outcome, set) := set.access tag isWrite
    (outcome == .hit, { c with sets := c.sets.setIfInBounds i set, stats := c.stats.count outcome })

end Cache

end CoreTiming
