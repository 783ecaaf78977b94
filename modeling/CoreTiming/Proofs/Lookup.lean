import Mathlib.Algebra.GroupWithZero.Nat
import CoreTiming.Memory.Hierarchy
import CoreTiming.Proofs.Outcome
import CoreTiming.Proofs.Ranking

/-!
# Where the cache hierarchy serves a request

A request walks down its path: the enabled levels on it are looked up in turn, and the first that holds the line of the
address serves the request.  `Hierarchy.lookedUp` says which levels that are, `Hierarchy.cost` how many cycles they
take together, and `Hierarchy.Accessed` what a hierarchy looks like after some of its levels have been accessed.

The walk either answers with just that, or it stops where the sum of the cycles leaves the range of a word
(`Built.ends_walk`); either way what has become of the levels is known, so that every hierarchy stays one that its
configuration describes (`Built`).
-/

namespace CoreTiming

open Faulting

/-! ## Section 1: Requests -/

namespace MemoryRequest

/-- The address that is asked for. -/
def address : MemoryRequest → Address
  | .data access => access.address
  | .fetch address _ => address

/-- Whether memory is written. -/
def isWrite : MemoryRequest → Bool
  | .data access => access.isWrite
  | .fetch _ _ => false

/-- The levels that the request looks up, as far as they are enabled. -/
def path : MemoryRequest → List Hierarchy.Level
  | .data _ => Hierarchy.Level.dataPath
  | .fetch _ _ => Hierarchy.Level.fetchPath

/-- Every level is looked up once. -/
theorem nodup_path (r : MemoryRequest) : r.path.Nodup := by
  cases r with
  | data access => exact (by decide : Hierarchy.Level.dataPath.Nodup)
  | fetch address size => exact (by decide : Hierarchy.Level.fetchPath.Nodup)

end MemoryRequest

/-- The description of a level. -/
def MemoryConfig.cache (config : MemoryConfig) : Hierarchy.Level → CacheConfig
  | .l1i => config.l1i
  | .l1d => config.l1d
  | .l2 => config.l2
  | .l3 => config.l3

namespace Hierarchy

variable {config : MemoryConfig} {period : Period} {h h' : Hierarchy} {r : MemoryRequest} {address : Address}
  {isWrite : Bool} {path : List Level} {levels : List (Level × Cache)} {level : Level} {cache : Cache} {n : Nat}

/-- Serves a request. -/
def serve : MemoryRequest → Faulting Hierarchy Served
  | .data access => MemorySystem.access access
  | .fetch address size => MemorySystem.fetch address size

/-- The hierarchy that is left, whether the request was served or not. -/
def left : EStateM.Result Fault Hierarchy Served → Hierarchy
  | .ok _ h => h
  | .error _ h => h

/-- The hierarchy after some requests. -/
def after (h : Hierarchy) (rs : List MemoryRequest) : Hierarchy := rs.foldl (fun h r => left (serve r h)) h

theorem after_concat (h : Hierarchy) (rs : List MemoryRequest) (r : MemoryRequest) :
    h.after (rs ++ [r]) = left (serve r (h.after rs)) := by
  unfold after
  rw [List.foldl_concat]

/-- Some requests lead from a new hierarchy to this one. -/
def Reached (config : MemoryConfig) (period : Period) (h : Hierarchy) : Prop := ∃ rs, (new config period).after rs = h

theorem serve_eq (r : MemoryRequest) : serve r = walk r.address r.isWrite r.path 0 := by
  cases r with
  | data access => rfl
  | fetch address size => rfl

theorem setCache_setCache (h : Hierarchy) (c c' : Option Cache) (level : Level) :
    (h.setCache c level).setCache c' level = h.setCache c' level := by
  cases level <;> rfl

theorem dramLatency_setCache (h : Hierarchy) (c : Option Cache) (level : Level) :
    (h.setCache c level).dramLatency = h.dramLatency := by
  cases level <;> rfl

theorem period_setCache (h : Hierarchy) (c : Option Cache) (level : Level) :
    (h.setCache c level).period = h.period := by
  cases level <;> rfl

/-! ## Section 2: The levels that are looked up -/

/-- The enabled levels on a path with their caches. -/
def enabled (h : Hierarchy) (path : List Level) : List (Level × Cache) :=
  path.filterMap fun level => (h.cache? level).map (level, ·)

/-- The first of some levels that contains the address. -/
def holder? (address : Address) (levels : List (Level × Cache)) : Option (Level × Cache) :=
  levels.find? fun e => e.2.contains address

/-- The levels above the one that contains the address, and that one. -/
def lookedUp (address : Address) (levels : List (Level × Cache)) : List (Level × Cache) :=
  (levels.takeWhile fun e => !e.2.contains address) ++ (holder? address levels).toList

/-- The cycles that all levels take that a request looks up, and main memory where none of them contains the line. -/
def cost (h : Hierarchy) (address : Address) (levels : List (Level × Cache)) : Nat :=
  ((lookedUp address levels).map fun e => e.2.latency).sum +
    if (holder? address levels).isSome then 0 else h.dramLatency

/-- The first level that contains the address, or main memory. -/
def servedAt (address : Address) (levels : List (Level × Cache)) : Location :=
  match holder? address levels with
  | some e => e.1.hit
  | none => .dramLocal

theorem mem_enabled : (level, cache) ∈ h.enabled path ↔ level ∈ path ∧ h.cache? level = some cache := by
  unfold enabled
  rw [List.mem_filterMap]
  constructor
  · rintro ⟨other, mem, found⟩
    obtain ⟨c, there, same⟩ := Option.map_eq_some_iff.mp found
    obtain ⟨rfl, rfl⟩ := Prod.mk.inj same
    exact ⟨mem, there⟩
  · rintro ⟨mem, there⟩
    exact ⟨level, mem, by rw [there]; rfl⟩

theorem enabled_cons_none (missing : h.cache? level = none) : h.enabled (level :: path) = h.enabled path := by
  unfold enabled
  rw [List.filterMap_cons, missing]
  rfl

theorem enabled_cons_some (there : h.cache? level = some cache) :
    h.enabled (level :: path) = (level, cache) :: h.enabled path := by
  unfold enabled
  rw [List.filterMap_cons, there]
  rfl

/-- A level that is not on the path does not count. -/
theorem enabled_setCache (c : Option Cache) (absent : level ∉ path) :
    (h.setCache c level).enabled path = h.enabled path := by
  unfold enabled
  apply List.filterMap_congr
  intro other mem
  rw [cache?_setCache, if_neg (ne_of_mem_of_not_mem mem absent)]

theorem map_fst_enabled (h : Hierarchy) (path : List Level) :
    (h.enabled path).map Prod.fst = path.filter fun level => (h.cache? level).isSome := by
  induction path with
  | nil => rfl
  | cons level path ih =>
    cases there : h.cache? level with
    | none => rw [enabled_cons_none there, ih, List.filter_cons_of_neg (by simp [there])]
    | some cache => rw [enabled_cons_some there, List.map_cons, ih, List.filter_cons_of_pos (by simp [there])]

theorem lookedUp_cons_of_contains (hit : cache.contains address = true) :
    lookedUp address ((level, cache) :: levels) = [(level, cache)] := by
  simp [lookedUp, holder?, hit]

theorem lookedUp_cons_of_not (miss : cache.contains address = false) :
    lookedUp address ((level, cache) :: levels) = (level, cache) :: lookedUp address levels := by
  simp [lookedUp, holder?, miss]

theorem cost_cons_of_contains (hit : cache.contains address = true) :
    h.cost address ((level, cache) :: levels) = cache.latency := by
  simp [cost, lookedUp_cons_of_contains hit, holder?, hit]

theorem cost_cons_of_not (miss : cache.contains address = false) :
    h.cost address ((level, cache) :: levels) = cache.latency + h.cost address levels := by
  have holder : holder? address ((level, cache) :: levels) = holder? address levels := by simp [holder?, miss]
  unfold cost
  rw [lookedUp_cons_of_not miss, holder, List.map_cons, List.sum_cons, Nat.add_assoc]

theorem servedAt_cons_of_contains (hit : cache.contains address = true) :
    servedAt address ((level, cache) :: levels) = level.hit := by
  simp [servedAt, holder?, hit]

theorem servedAt_cons_of_not (miss : cache.contains address = false) :
    servedAt address ((level, cache) :: levels) = servedAt address levels := by
  simp [servedAt, holder?, miss]

/-- The first level is looked up in any case. -/
theorem head_mem_lookedUp (address : Address) (e : Level × Cache) (levels : List (Level × Cache)) :
    e ∈ lookedUp address (e :: levels) := by
  obtain ⟨level, cache⟩ := e
  cases contained : cache.contains address with
  | true => rw [lookedUp_cons_of_contains contained]; exact List.mem_cons_self
  | false => rw [lookedUp_cons_of_not contained]; exact List.mem_cons_self

/-- A request takes at least as long as its first level. -/
theorem latency_le_cost (h : Hierarchy) (address : Address) (e : Level × Cache) (levels : List (Level × Cache)) :
    e.2.latency ≤ h.cost address (e :: levels) := by
  obtain ⟨level, cache⟩ := e
  cases contained : cache.contains address with
  | true => rw [cost_cons_of_contains contained]
  | false =>
    rw [cost_cons_of_not contained]
    exact Nat.le_add_right _ _

/-- The levels that are looked up are some of the first. -/
theorem lookedUp_isPrefix (address : Address) (levels : List (Level × Cache)) :
    lookedUp address levels <+: levels := by
  induction levels with
  | nil => exact List.prefix_rfl
  | cons e levels ih =>
    obtain ⟨level, cache⟩ := e
    cases contained : cache.contains address with
    | true =>
      rw [lookedUp_cons_of_contains contained]
      exact ⟨levels, rfl⟩
    | false =>
      rw [lookedUp_cons_of_not contained]
      exact List.cons_prefix_cons.mpr ⟨rfl, ih⟩

/-! ## Section 3: Accessed levels -/

/-- `h'` is `h` after an access to each of the levels. -/
structure Accessed (h : Hierarchy) (address : Address) (isWrite : Bool) (levels : List (Level × Cache))
    (h' : Hierarchy) : Prop where
  /-- They are levels of the hierarchy. -/
  there : ∀ e ∈ levels, h.cache? e.1 = some e.2
  /-- Each of them has been accessed. -/
  changed : ∀ e ∈ levels, h'.cache? e.1 = some (e.2.access address isWrite).2
  /-- No other level has. -/
  others : ∀ level, level ∉ levels.map Prod.fst → h'.cache? level = h.cache? level
  /-- Main memory takes as long as before. -/
  dramLatency : h'.dramLatency = h.dramLatency
  /-- A cycle takes as long as before. -/
  period : h'.period = h.period

theorem accessed_nil (h : Hierarchy) (address : Address) (isWrite : Bool) : h.Accessed address isWrite [] h where
  there _ mem := absurd mem List.not_mem_nil
  changed _ mem := absurd mem List.not_mem_nil
  others _ _ := rfl
  dramLatency := rfl
  period := rfl

/-- One level more. -/
theorem Accessed.cons (there : h.cache? level = some cache) (absent : level ∉ levels.map Prod.fst)
    (rest : (h.setCache (some (cache.access address isWrite).2) level).Accessed address isWrite levels h') :
    h.Accessed address isWrite ((level, cache) :: levels) h' := by
  -- so the other levels are in `h` as they are once this one has been accessed
  have elsewhere : ∀ e ∈ levels, e.1 ≠ level := by
    rintro e mem rfl
    exact absent (List.mem_map_of_mem mem)
  constructor
  · intro e mem
    rcases List.mem_cons.mp mem with rfl | mem
    · exact there
    · have was := rest.there e mem
      rwa [cache?_setCache, if_neg (elsewhere e mem)] at was
  · intro e mem
    rcases List.mem_cons.mp mem with rfl | mem
    · rw [rest.others _ absent, cache?_setCache, if_pos rfl]
    · exact rest.changed e mem
  · intro other notMem
    rw [List.map_cons, List.mem_cons, not_or] at notMem
    rw [rest.others other notMem.2, cache?_setCache, if_neg notMem.1]
  · rw [rest.dramLatency, dramLatency_setCache]
  · rw [rest.period, period_setCache]

/-- A level is there after the accesses if it was there before. -/
theorem Accessed.isSome_cache? (a : h.Accessed address isWrite levels h') (level : Level) :
    (h'.cache? level).isSome = (h.cache? level).isSome := by
  by_cases mem : level ∈ levels.map Prod.fst
  · obtain ⟨e, accessed, rfl⟩ := List.mem_map.mp mem
    rw [a.changed e accessed, a.there e accessed]
    rfl
  · rw [a.others level mem]

/-- The same levels are enabled. -/
theorem Accessed.map_fst_enabled (a : h.Accessed address isWrite levels h') (path : List Level) :
    (h'.enabled path).map Prod.fst = (h.enabled path).map Prod.fst := by
  rw [Hierarchy.map_fst_enabled, Hierarchy.map_fst_enabled]
  exact List.filter_congr fun level _ => a.isSome_cache? level

/-! ## Section 4: Hierarchies as they are described -/

/-- The hierarchy has the levels that `config` describes, and each of them holds its lines by rank. -/
structure Built (config : MemoryConfig) (period : Period) (h : Hierarchy) : Prop where
  /-- The levels are those that are enabled. -/
  isSome : ∀ level, (h.cache? level).isSome = (config.cache level).enabled
  /-- A level is as large and takes as long as described. -/
  geometry : ∀ level cache, h.cache? level = some cache → Cache.SameGeometry (.new (config.cache level)) cache
  /-- It follows the policy described. -/
  ranked : ∀ level cache, h.cache? level = some cache →
    ∃ held, cache.Ranked (config.cache level).policy (max (config.cache level).ways 1) held
  /-- Main memory takes as long as described. -/
  dramLatency : h.dramLatency = config.dramLatency
  /-- A cycle takes that long. -/
  period : h.period = period

theorem cache?_new (config : MemoryConfig) (period : Period) (level : Level) :
    (new config period).cache? level =
      if (config.cache level).enabled then some (.new (config.cache level)) else none := by
  cases level <;> rfl

theorem built_new (config : MemoryConfig) (period : Period) : (new config period).Built config period where
  isSome level := by
    rw [cache?_new]
    split <;> rename_i enabled <;> simp [enabled]
  geometry level cache there := by
    rw [cache?_new, Option.ite_none_right_eq_some, Option.some.injEq] at there
    obtain ⟨-, rfl⟩ := there
    exact Cache.SameGeometry.refl _
  ranked level cache there := by
    rw [cache?_new, Option.ite_none_right_eq_some, Option.some.injEq] at there
    obtain ⟨-, rfl⟩ := there
    exact ⟨_, Cache.ranked_new _⟩
  dramLatency := rfl
  period := rfl

/-- Accesses leave the hierarchy one that `config` describes. -/
theorem Built.accessed (b : h.Built config period) (a : h.Accessed address isWrite levels h') :
    h'.Built config period := by
  -- a level has been accessed, or it is the same as before
  have known : ∀ level cache, h'.cache? level = some cache → h.cache? level = some cache ∨
      ∃ before, h.cache? level = some before ∧ cache = (before.access address isWrite).2 := by
    intro level cache now
    by_cases mem : level ∈ levels.map Prod.fst
    · obtain ⟨e, accessed, rfl⟩ := List.mem_map.mp mem
      rw [a.changed e accessed] at now
      exact .inr ⟨e.2, a.there e accessed, (Option.some.inj now).symm⟩
    · rw [a.others level mem] at now
      exact .inl now
  constructor
  · intro level
    rw [a.isSome_cache?, b.isSome]
  · intro level cache now
    rcases known level cache now with was | ⟨before, was, rfl⟩
    · exact b.geometry level cache was
    · exact (b.geometry level before was).trans (Cache.sameGeometry_access before address isWrite)
  · intro level cache now
    rcases known level cache now with was | ⟨before, was, rfl⟩
    · exact b.ranked level cache was
    · obtain ⟨held, ranked⟩ := b.ranked level before was
      obtain ⟨outcome, lines, -, -, ranked', -⟩ := ranked.access address isWrite
      exact ⟨_, ranked'⟩
  · rw [a.dramLatency, b.dramLatency]
  · rw [a.period, b.period]

/-! ## Section 5: The walk -/

/-- How a walk ends that has `levels` in front of it, after `n` cycles in the levels above them. -/
inductive Ends (h : Hierarchy) (address : Address) (isWrite : Bool) (levels : List (Level × Cache)) (n : Nat) :
    EStateM.Result Fault Hierarchy Served → Prop
  /-- The first level that contains the address answers, or main memory does. -/
  | answered {h' : Hierarchy} (fits : n + h.cost address levels ≤ Word.max)
    (accessed : h.Accessed address isWrite (lookedUp address levels) h') :
    Ends h address isWrite levels n
      (.ok ⟨h.period.cycles (n + h.cost address levels), servedAt address levels⟩ h')
  /-- The cycles have left the range of a word. -/
  | stopped {h' : Hierarchy} {met : List (Level × Cache)} (exceeds : Word.max < n + h.cost address levels)
    (part : met ⊆ levels) (accessed : h.Accessed address isWrite met h') :
    Ends h address isWrite levels n (.error .arithmeticOverflow h')

/-- Behind a level that does not contain the address the walk goes on. -/
theorem Ends.cons {result : EStateM.Result Fault Hierarchy Served} (there : h.cache? level = some cache)
    (absent : level ∉ levels.map Prod.fst) (miss : cache.contains address = false)
    (rest : Ends (h.setCache (some (cache.access address isWrite).2) level) address isWrite levels
      (n + cache.latency) result) :
    Ends h address isWrite ((level, cache) :: levels) n result := by
  have sum : n + h.cost address ((level, cache) :: levels) =
      n + cache.latency + (h.setCache (some (cache.access address isWrite).2) level).cost address levels := by
    rw [cost_cons_of_not miss, Nat.add_assoc, cost, cost, dramLatency_setCache]
  cases rest with
  | answered fits accessed =>
    have fresh : level ∉ (lookedUp address levels).map Prod.fst :=
      fun mem => absent (List.map_subset Prod.fst (lookedUp_isPrefix address levels).subset mem)
    have location : servedAt address ((level, cache) :: levels) = servedAt address levels := servedAt_cons_of_not miss
    rw [period_setCache, ← sum, ← location]
    refine .answered (sum ▸ fits) ?_
    rw [lookedUp_cons_of_not miss]
    exact accessed.cons there fresh
  | stopped exceeds part accessed =>
    have fresh := fun mem => absent (List.map_subset Prod.fst part mem)
    exact .stopped (sum ▸ exceeds) (List.cons_subset_cons _ part) (accessed.cons there fresh)

/-- Where no level is left, main memory answers. -/
theorem ends_walk_nil (h : Hierarchy) (address : Address) (isWrite : Bool) (n : Nat) :
    Ends h address isWrite [] n (walk address isWrite [] n h) := by
  have all : n + h.cost address [] = n + h.dramLatency := by simp [cost, lookedUp, holder?]
  unfold walk
  rw [get_bind]
  rcases Nat.lt_or_ge Word.max (n + h.dramLatency) with exceeds | fits
  · rw [Word.add, if_neg (Nat.not_le_of_lt exceeds)]
    exact .stopped (all ▸ exceeds) (List.nil_subset _) (accessed_nil h address isWrite)
  · rw [Word.add_eq_ok_iff.mpr ⟨fits, rfl⟩, ofExcept_ok_bind, ← all]
    exact .answered (all ▸ fits) (accessed_nil h address isWrite)

/-- A missing level is passed over. -/
theorem walk_cons_none (missing : h.cache? level = none) :
    walk address isWrite (level :: path) n h = walk address isWrite path n h := by
  rw [walk, get_bind]
  simp only [missing]

/-- One enabled level: its cycles are added, and it is accessed. -/
theorem walk_cons_some (there : h.cache? level = some cache) (fits : n + cache.latency ≤ Word.max) :
    walk address isWrite (level :: path) n h =
      if (cache.access address isWrite).1 then
        .ok ⟨h.period.cycles (n + cache.latency), level.hit⟩
          (h.setCache (some (cache.access address isWrite).2) level)
      else walk address isWrite path (n + cache.latency)
        (h.setCache (some (cache.access address isWrite).2) level) := by
  rw [walk, get_bind]
  simp only [there, Word.add_eq_ok_iff.mpr ⟨fits, rfl⟩, ofExcept_ok_bind, set_bind, modify_bind]
  -- that the cache is taken out while it changes is not seen
  rw [setCache_setCache]
  split
  · rfl
  · rfl

/-- The cycles of a level may exceed a word. -/
theorem walk_cons_of_exceeds (there : h.cache? level = some cache) (exceeds : Word.max < n + cache.latency) :
    walk address isWrite (level :: path) n h = .error .arithmeticOverflow h := by
  rw [walk, get_bind]
  simp only [there, Word.add, if_neg (Nat.not_le_of_lt exceeds)]
  rfl

/-- A walk looks its levels up in turn. -/
theorem Built.ends_walk (b : h.Built config period) (nodup : path.Nodup) (n : Nat) :
    Ends h address isWrite (h.enabled path) n (walk address isWrite path n h) := by
  -- the hierarchy changes from level to level, but not in the levels that the walk has in front of it
  induction path generalizing h n with
  | nil => exact ends_walk_nil h address isWrite n
  | cons level path ih =>
    obtain ⟨absent, nodup⟩ := List.nodup_cons.mp nodup
    cases there : h.cache? level with
    | none =>
      rw [enabled_cons_none there, walk_cons_none there]
      exact ih b nodup n
    | some cache =>
      rw [enabled_cons_some there]
      rcases Nat.lt_or_ge Word.max (n + cache.latency) with exceeds | fits
      · -- what the level takes is part of what the walk would take
        have atLeast := h.latency_le_cost address (level, cache) (h.enabled path)
        rw [walk_cons_of_exceeds there exceeds]
        exact .stopped (Nat.lt_of_lt_of_le exceeds (Nat.add_le_add_left atLeast n)) (List.nil_subset _)
          (accessed_nil h address isWrite)
      · obtain ⟨held, ranked⟩ := b.ranked level cache there
        have accessed : h.Accessed address isWrite [(level, cache)] _ :=
          (accessed_nil _ address isWrite).cons there List.not_mem_nil
        rw [walk_cons_some there fits, ranked.access_eq]
        cases contained : cache.contains address with
        | true =>
          have cost : h.cost address ((level, cache) :: h.enabled path) = cache.latency :=
            cost_cons_of_contains contained
          have location : servedAt address ((level, cache) :: h.enabled path) = level.hit :=
            servedAt_cons_of_contains contained
          rw [if_pos rfl, ← cost, ← location]
          refine .answered (cost.symm ▸ fits) ?_
          rw [lookedUp_cons_of_contains contained]
          exact accessed
        | false =>
          -- the path has no level twice, so the levels further down are still as they were
          have fresh : level ∉ (h.enabled path).map Prod.fst := by
            rw [map_fst_enabled]
            exact fun mem => absent (List.mem_filter.mp mem).1
          have rest := ih (b.accessed accessed) nodup (n + cache.latency)
          rw [enabled_setCache _ absent] at rest
          rw [if_neg Bool.false_ne_true]
          exact rest.cons there fresh contained

/-! ## Section 6: Requests in turn -/

/-- A request ends as its walk does. -/
theorem Built.ends_serve (b : h.Built config period) (r : MemoryRequest) :
    Ends h r.address r.isWrite (h.enabled r.path) 0 (serve r h) := by
  rw [serve_eq]
  exact b.ends_walk r.nodup_path 0

theorem Built.left_serve (b : h.Built config period) (r : MemoryRequest) : (left (serve r h)).Built config period := by
  have ends := b.ends_serve r
  generalize serve r h = result at ends ⊢
  cases ends with
  | answered fits accessed => exact b.accessed accessed
  | stopped exceeds part accessed => exact b.accessed accessed

/-- Every hierarchy that requests lead to is one that its configuration describes. -/
theorem Reached.built (reached : Reached config period h) : h.Built config period := by
  obtain ⟨rs, rfl⟩ := reached
  induction rs using List.reverseRecOn with
  | nil => exact built_new config period
  | append_singleton rs r ih =>
    rw [after_concat]
    exact ih.left_serve r

/-- The first enabled level before and after a request: it has been accessed. -/
theorem Accessed.exists_first (a : h.Accessed address isWrite (lookedUp address (h.enabled path)) h')
    {first : Level × Cache} (head : (h.enabled path).head? = some first) :
    ∃ rest, h'.enabled path = (first.1, (first.2.access address isWrite).2) :: rest := by
  obtain ⟨levels, split⟩ := List.head?_eq_some_iff.mp head
  have changed : h'.cache? first.1 = some (first.2.access address isWrite).2 := by
    refine a.changed first ?_
    rw [split]
    exact head_mem_lookedUp address first levels
  -- the same level comes first afterwards
  have names := a.map_fst_enabled path
  rw [split, List.map_cons] at names
  obtain ⟨now, rest, split', same, -⟩ := List.map_eq_cons_iff.mp names
  have there : h'.cache? now.1 = some now.2 := (mem_enabled.mp (split' ▸ List.mem_cons_self)).2
  rw [same, changed] at there
  refine ⟨rest, ?_⟩
  rw [split', ← same, Option.some.inj there]

/-- A request whose cycles do not exceed a word is answered. -/
theorem Built.serve_eq_ok (b : h.Built config period) (r : MemoryRequest)
    (fits : h.cost r.address (h.enabled r.path) ≤ Word.max) :
    ∃ h', serve r h = .ok ⟨period.cycles (h.cost r.address (h.enabled r.path)),
        servedAt r.address (h.enabled r.path)⟩ h' ∧
      h.Accessed r.address r.isWrite (lookedUp r.address (h.enabled r.path)) h' := by
  have ends := b.ends_serve r
  generalize serve r h = result at ends ⊢
  cases ends with
  | answered fits' accessed =>
    rw [Nat.zero_add, b.period]
    exact ⟨_, rfl, accessed⟩
  | stopped exceeds part accessed =>
    rw [Nat.zero_add] at exceeds
    exact absurd fits (Nat.not_le_of_lt exceeds)

/-- A request is served by the first enabled level on its path that contains the address, or by main memory if none
does, after the cycles of all enabled levels down to that one and of main memory if none does.  Afterwards all these
levels contain the address, and all others are as they were, be they below on the path or not on it.  If some level on
the path is enabled, then the first of these serves the request if it comes again at once. -/
theorem serves_at_first_holder (reached : Reached config period h) (r : MemoryRequest)
    (fits : h.cost r.address (h.enabled r.path) ≤ Word.max) :
    ∃ h', serve r h = .ok ⟨period.cycles (h.cost r.address (h.enabled r.path)),
        servedAt r.address (h.enabled r.path)⟩ h' ∧
      (∀ e ∈ lookedUp r.address (h.enabled r.path),
        ∃ cache, h'.cache? e.1 = some cache ∧ cache.contains r.address = true) ∧
      (∀ level, level ∉ (lookedUp r.address (h.enabled r.path)).map Prod.fst → h'.cache? level = h.cache? level) ∧
      ∀ first ∈ (h.enabled r.path).head?,
        ∃ h'', serve r h' = .ok ⟨period.cycles first.2.latency, first.1.hit⟩ h'' := by
  have b := reached.built
  obtain ⟨h', served, accessed⟩ := b.serve_eq_ok r fits
  have contains : ∀ level cache, h.cache? level = some cache →
      (cache.access r.address r.isWrite).2.contains r.address = true := by
    intro level cache there
    obtain ⟨held, ranked⟩ := b.ranked level cache there
    exact ranked.contains_access r.address r.isWrite
  refine ⟨h', served, ?_, accessed.others, ?_⟩
  · intro e mem
    exact ⟨_, accessed.changed e mem, contains e.1 e.2 (accessed.there e mem)⟩
  · intro first head
    obtain ⟨rest, split⟩ := accessed.exists_first head
    have mem : first ∈ h.enabled r.path := List.mem_of_mem_head? head
    have contained := contains first.1 first.2 (mem_enabled.mp mem).2
    have latency := (Cache.sameGeometry_access first.2 r.address r.isWrite).latency
    -- the first level contains the address now, and alone is looked up
    have cost : h'.cost r.address (h'.enabled r.path) = first.2.latency := by
      rw [split, cost_cons_of_contains contained, latency]
    have location : servedAt r.address (h'.enabled r.path) = first.1.hit := by
      rw [split, servedAt_cons_of_contains contained]
    -- it was looked up before, too, so that its cycles are a word
    have fits' : first.2.latency ≤ Word.max := by
      obtain ⟨levels, split⟩ := List.head?_eq_some_iff.mp head
      rw [split] at fits
      exact Nat.le_trans (h.latency_le_cost r.address first levels) fits
    obtain ⟨h'', again, -⟩ := (b.accessed accessed).serve_eq_ok r (cost.symm ▸ fits')
    rw [cost, location] at again
    exact ⟨h'', again⟩

/-- Two first levels of different policies in front of a second level with longer lines. -/
def twoLevels : MemoryConfig where
  l1i := { enabled := true, sizeBytes := 64, ways := 1, policy := .fifo }
  l1d := { enabled := true, sizeBytes := 128, ways := 2 }
  l2 := { enabled := true, sizeBytes := 256, lineBytes := 128, ways := 2, latency := 8 }

/-- They have a cycle of a picosecond, and data has been read. -/
def afterRead : Hierarchy := (new twoLevels (.ofTime (.ofNat 1000))).after [.data ⟨0x1000, 8, false, 0⟩]

/-- The second level holds an instruction next to which data has been read. -/
theorem serves_at_first_holder_beside_data :
    Reached twoLevels (.ofTime (.ofNat 1000)) afterRead ∧
      afterRead.cost 0x1044 (afterRead.enabled Level.fetchPath) ≤ Word.max ∧
      ∃ h' h'', serve (.fetch 0x1044 4) afterRead = .ok ⟨.ofNat 12000, .l2⟩ h' ∧
        (∃ cache, h'.cache? .l1i = some cache ∧ cache.contains 0x1044 = true) ∧
        h'.cache? .l1d = afterRead.cache? .l1d ∧
        serve (.fetch 0x1044 4) h' = .ok ⟨.ofNat 4000, .l1i⟩ h'' := by
  have cost : afterRead.cost 0x1044 (afterRead.enabled Level.fetchPath) = 12 := by decide +kernel
  have location : servedAt 0x1044 (afterRead.enabled Level.fetchPath) = .l2 := by decide +kernel
  have names : (lookedUp 0x1044 (afterRead.enabled Level.fetchPath)).map Prod.fst = [.l1i, .l2] := by decide +kernel
  have first : ((afterRead.enabled Level.fetchPath).head?.map fun e => (e.1, e.2.latency)) = some (.l1i, 4) := by
    decide +kernel
  have fits : afterRead.cost 0x1044 (afterRead.enabled Level.fetchPath) ≤ Word.max := by
    rw [cost]
    decide
  have reached : Reached twoLevels (.ofTime (.ofNat 1000)) afterRead := ⟨_, rfl⟩
  obtain ⟨h', served, holds, others, again⟩ := serves_at_first_holder reached (.fetch 0x1044 4) fits
  simp only [MemoryRequest.address, MemoryRequest.path, cost, location, names] at served holds others again
  obtain ⟨e, head, same⟩ := Option.map_eq_some_iff.mp first
  obtain ⟨level, latency⟩ := Prod.mk.inj same
  obtain ⟨h'', again⟩ := again e head
  rw [level, latency] at again
  have mem : Level.l1i ∈ (lookedUp 0x1044 (afterRead.enabled Level.fetchPath)).map Prod.fst := by
    rw [names]
    exact List.mem_cons_self
  obtain ⟨looked, mem, name⟩ := List.mem_map.mp mem
  exact ⟨reached, fits, h', h'', served, name ▸ holds looked mem, others .l1d (by decide), again⟩

end Hierarchy

end CoreTiming
