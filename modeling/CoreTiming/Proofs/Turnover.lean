import Mathlib.Algebra.BigOperators.Group.Finset.Basic
import Mathlib.Algebra.GroupWithZero.Nat
import CoreTiming.Proofs.Residency

/-!
# What a reference changes in a cache

The contents of a cache are seen as a function from lines to whether they are dirty (`Cache.dirt`).  A reference updates
this function at its own line, and at the line that it evicts if its set is full (`Turn`); the number of dirty lines and
the count of lines written back follow (`Cache.Ranked.turn`).  The sets, their ways and the policy do not appear in this
description.
-/

namespace CoreTiming

/-! ## Section 1: What a reference changes -/

/-- What a reference to `key` changes, where `dirt` tells of each key that is there whether it is dirty: the dirty keys
lose `leaving` and gain `entering`, and as many as `back` are written back. -/
inductive Turn (key : Nat) (isWrite : Bool) (dirt : Nat → Option Bool) :
    (dirt' : Nat → Option Bool) → (entering leaving back : Nat) → Prop
  /-- The key is there. -/
  | hit {dirty : Bool} (there : dirt key = some dirty) :
    Turn key isWrite dirt (Function.update dirt key (some (dirty || isWrite))) (dirty || isWrite).toNat dirty.toNat 0
  /-- The key comes, and there is room. -/
  | miss (absent : dirt key = none) :
    Turn key isWrite dirt (Function.update dirt key (some isWrite)) isWrite.toNat 0 0
  /-- The key comes, and another one leaves. -/
  | evict {victim : Nat} {dirty : Bool} (absent : dirt key = none) (there : dirt victim = some dirty) :
    Turn key isWrite dirt (Function.update (Function.update dirt victim none) key (some isWrite)) isWrite.toNat
      dirty.toNat dirty.toNat

/-- Whether the line of a tag is dirty, if it is among the lines. -/
def dirtOf (held : List CacheLine) (tag : Nat) : Option Bool :=
  (held.find? fun l => l.tag == tag).map CacheLine.dirty

theorem dirtOf_eq_none {held : List CacheLine} {tag : Nat} (absent : tag ∉ held.map CacheLine.tag) :
    dirtOf held tag = none := by
  unfold dirtOf
  rw [Option.map_eq_none_iff, List.find?_eq_none]
  intro l mem same
  exact absent (List.mem_map.mpr ⟨l, mem, beq_iff_eq.mp same⟩)

theorem isSome_dirtOf (held : List CacheLine) (tag : Nat) :
    (dirtOf held tag).isSome = true ↔ tag ∈ held.map CacheLine.tag := by
  unfold dirtOf
  rw [Option.isSome_map, List.find?_isSome, List.mem_map]
  simp only [beq_iff_eq]

theorem dirtOf_cons (l : CacheLine) (held : List CacheLine) :
    dirtOf (l :: held) = Function.update (dirtOf held) l.tag (some l.dirty) := by
  funext tag
  unfold dirtOf
  rw [List.find?_cons]
  by_cases same : tag = l.tag
  · subst same
    rw [Function.update_self, beq_self_eq_true]
    rfl
  · rw [Function.update_of_ne same, beq_false_of_ne (Ne.symm same)]

theorem dirtOf_append {front back : List CacheLine} {tag : Nat} :
    dirtOf (front ++ back) tag = (dirtOf front tag).or (dirtOf back tag) := by
  unfold dirtOf
  rw [List.find?_append, Option.map_or]

/-- A line that no other one shares its tag with may stand anywhere. -/
theorem dirtOf_middle {front back : List CacheLine} {l : CacheLine} (absent : l.tag ∉ front.map CacheLine.tag) :
    dirtOf (front ++ l :: back) = dirtOf (l :: (front ++ back)) := by
  funext tag
  rw [dirtOf_append, dirtOf_cons, dirtOf_cons]
  by_cases same : tag = l.tag
  · subst same
    rw [dirtOf_eq_none absent, Function.update_self, Function.update_self]
    rfl
  · rw [Function.update_of_ne same, Function.update_of_ne same, dirtOf_append]

namespace CacheSet

variable {kind : ReplacementKind} {ways tag : Nat} {isWrite : Bool} {held held' : List CacheLine}
  {outcome : CacheOutcome} {s : CacheSet}

/-- How many lines an access writes back. -/
def writtenBack : CacheOutcome → Nat
  | .hit => 0
  | .miss writeback => writeback.toNat

/-- An access to a set seen by tags. -/
theorem Serves.turn (h : Serves kind ways tag isWrite held outcome held') (pos : 0 < ways) (le : held.length ≤ ways)
    (nodup : (held.map CacheLine.tag).Nodup) :
    ∃ entering leaving, Turn tag isWrite (dirtOf held) (dirtOf held') entering leaving (writtenBack outcome) ∧
      held'.countP CacheLine.dirty + leaving = held.countP CacheLine.dirty + entering := by
  cases h with
  | @hit front back l found =>
    subst found
    have absent : l.tag ∉ front.map CacheLine.tag := by
      rw [List.map_append, List.map_cons] at nodup
      exact notMem_front nodup
    have there : dirtOf (front ++ l :: back) l.tag = some l.dirty := by
      rw [dirtOf_middle absent, dirtOf_cons, Function.update_self]
    -- a promotion changes the order of the lines, but not which tags there are
    have promoted : dirtOf (promote kind front (l.touch isWrite) back) =
        Function.update (dirtOf (front ++ l :: back)) l.tag (some (l.dirty || isWrite)) := by
      have ahead : dirtOf (l.touch isWrite :: (front ++ back)) =
          Function.update (dirtOf (front ++ l :: back)) l.tag (some (l.dirty || isWrite)) := by
        rw [dirtOf_middle absent, dirtOf_cons, dirtOf_cons, Function.update_idem]
        rfl
      cases kind with
      | lru => exact ahead
      | fifo =>
        have stay : dirtOf (front ++ l.touch isWrite :: back) = dirtOf (l.touch isWrite :: (front ++ back)) :=
          dirtOf_middle absent
        exact stay.trans ahead
    rw [promoted]
    refine ⟨_, _, Turn.hit there, ?_⟩
    have perm : (promote kind front (l.touch isWrite) back).Perm (l.touch isWrite :: (front ++ back)) := by
      cases kind with
      | lru => exact List.Perm.refl _
      | fifo => exact List.perm_middle
    rw [perm.countP_eq, List.perm_middle.countP_eq, List.countP_cons, List.countP_cons]
    cases dirty : l.dirty <;> cases isWrite <;> simp [CacheLine.touch, dirty]
  | miss absent =>
    rcases Nat.lt_or_ge held.length ways with free | full
    · -- a way is free, so that nothing is cut off
      rw [List.getElem?_eq_none (by omega), List.take_of_length_le (by rw [List.length_cons]; omega), dirtOf_cons]
      refine ⟨_, _, Turn.miss (dirtOf_eq_none absent), ?_⟩
      rw [List.countP_cons]
      cases isWrite <;> rfl
    -- no way is free, so the line at the end of the list has to go
    · rcases List.eq_nil_or_concat held with rfl | ⟨front, victim, split⟩
      · exact absurd (Nat.le_antisymm le full) (Nat.ne_of_lt pos)
      rw [List.concat_eq_append] at split
      subst split
      obtain rfl : front.length + 1 = ways := by
        rw [List.length_append, List.length_singleton] at le full
        omega
      have fresh : victim.tag ∉ front.map CacheLine.tag := by
        rw [List.map_append, List.map_singleton] at nodup
        exact notMem_front nodup
      have there : dirtOf (front ++ [victim]) victim.tag = some victim.dirty := by
        rw [dirtOf_middle fresh, dirtOf_cons, Function.update_self]
      have left : dirtOf front = Function.update (dirtOf (front ++ [victim])) victim.tag none := by
        rw [dirtOf_middle fresh, dirtOf_cons, Function.update_idem, List.append_nil, ← dirtOf_eq_none fresh,
          Function.update_eq_self]
      rw [Nat.add_sub_cancel, List.getElem?_concat_length, List.take_succ_cons, List.take_left, dirtOf_cons, left]
      refine ⟨_, _, Turn.evict (dirtOf_eq_none absent) there, ?_⟩
      rw [List.countP_cons, List.countP_append, List.countP_singleton]
      cases dirty : victim.dirty <;> cases isWrite <;> simp [dirty]

end CacheSet

/-! ## Section 2: What a reference changes in a cache -/

/-- As many lines of the set are dirty as of the lines that it holds. -/
theorem CacheSet.Ranks.countP_lines {kind : ReplacementKind} {ways : Nat} {held : List CacheLine} {s : CacheSet}
    (h : s.Ranks kind ways held) : s.lines.countP (fun l => l.valid && l.dirty) = held.countP CacheLine.dirty := by
  have shown : s.lines.map CacheLine.content? = (List.range ways).map s.content? := by
    apply List.ext_getElem?
    intro way
    rw [List.getElem?_map, List.getElem?_map]
    by_cases within : way < ways
    · have line := List.getElem?_eq_getElem (h.size.symm ▸ within : way < s.lines.length)
      rw [List.getElem?_range within, line, Option.map_some, Option.map_some, CacheSet.content?, line, Option.bind_some]
    · have none : s.lines[way]? = none := List.getElem?_eq_none (by rw [h.size]; omega)
      rw [none, List.getElem?_eq_none (by rw [List.length_range]; omega), Option.map_none, Option.map_none]
  calc s.lines.countP (fun l => l.valid && l.dirty)
      = (s.lines.map CacheLine.content?).countP (Option.any CacheLine.dirty) := by
        rw [List.countP_map]
        apply List.countP_congr
        intro l _
        cases valid : l.valid <;> simp [CacheLine.content?, valid]
    _ = (s.order.ranked.map s.content?).countP (Option.any CacheLine.dirty) := by
        rw [shown]
        exact ((h.covers.perm.map s.content?).countP_eq _).symm
    _ = held.countP CacheLine.dirty := by
        rw [h.ranking, List.countP_append, List.countP_map, List.countP_replicate]
        rfl

namespace Cache

variable {kind : ReplacementKind} {ways : Nat} {held : Nat → List CacheLine} {c : Cache} {address : Address}
  {r : Reference}

/-- The number of lines that are dirty. -/
def dirtyLines (c : Cache) : Nat := (c.sets.toList.map fun s => s.lines.countP fun l => l.valid && l.dirty).sum

/-- A sum over the sets is one over their numbers. -/
theorem Ranked.dirtyLines_eq (h : c.Ranked kind ways held) :
    c.dirtyLines = ∑ set ∈ Finset.range c.sets.size, (held set).countP CacheLine.dirty := by
  have shown : c.sets.toList.map (fun s => s.lines.countP fun l => l.valid && l.dirty) =
      (List.range c.sets.size).map fun set => (held set).countP CacheLine.dirty := by
    apply List.ext_getElem?
    intro set
    rw [List.getElem?_map, List.getElem?_map, Array.getElem?_toList]
    by_cases within : set < c.sets.size
    · have found := Array.getElem?_eq_getElem within
      rw [found, List.getElem?_range within, Option.map_some, Option.map_some, (h.ranks set _ found).countP_lines]
    · rw [Array.getElem?_eq_none (by omega), List.getElem?_eq_none (by rw [List.length_range]; omega), Option.map_none,
        Option.map_none]
  unfold dirtyLines
  rw [shown]
  rfl

/-- To replace the lines of one set is to replace its part of the sum. -/
theorem sum_countP_update (held : Nat → List CacheLine) {n set : Nat} (within : set < n) (lines : List CacheLine) :
    ∑ i ∈ Finset.range n, (Function.update held set lines i).countP CacheLine.dirty +
        (held set).countP CacheLine.dirty =
      ∑ i ∈ Finset.range n, (held i).countP CacheLine.dirty + lines.countP CacheLine.dirty := by
  have mem := Finset.mem_range.mpr within
  have others : ∑ i ∈ (Finset.range n).erase set, (Function.update held set lines i).countP CacheLine.dirty =
      ∑ i ∈ (Finset.range n).erase set, (held i).countP CacheLine.dirty := by
    refine Finset.sum_congr rfl fun i other => ?_
    rw [Function.update_of_ne (Finset.ne_of_mem_erase other)]
  rw [← Finset.add_sum_erase _ _ mem, ← Finset.add_sum_erase _ (fun i => (held i).countP CacheLine.dirty) mem, others,
    Function.update_self]
  omega

/-- Whether a line is dirty, if the cache contains it. -/
def dirt (c : Cache) (held : Nat → List CacheLine) (line : Nat) : Option Bool :=
  dirtOf (held (c.setOf line)) (line / c.sets.size)

theorem Ranked.contains_eq (h : c.Ranked kind ways held) :
    c.contains address = (c.dirt held (c.line address)).isSome := by
  rw [Bool.eq_iff_iff, h.contains_iff]
  exact (isSome_dirtOf _ _).symm

/-- What `seen` tells by lines, with the lines of one set told by `tags` instead. -/
def withSet (c : Cache) (seen : Nat → Option Bool) (set : Nat) (tags : Nat → Option Bool) (line : Nat) : Option Bool :=
  if c.setOf line = set then tags (line / c.sets.size) else seen line

theorem withSet_dirt (c : Cache) (held : Nat → List CacheLine) (set : Nat) :
    c.withSet (c.dirt held) set (dirtOf (held set)) = c.dirt held := by
  funext line
  unfold withSet
  split <;> rename_i own
  · rw [← own]
    rfl
  · rfl

theorem dirt_update (c : Cache) (held : Nat → List CacheLine) (set : Nat) (lines : List CacheLine) :
    c.dirt (Function.update held set lines) = c.withSet (c.dirt held) set (dirtOf lines) := by
  funext line
  unfold withSet dirt
  split <;> rename_i own
  · rw [own, Function.update_self]
  · rw [Function.update_of_ne own]

theorem withSet_update {seen tags : Nat → Option Bool} {set tag : Nat} {x : Option Bool} (within : set < c.sets.size) :
    c.withSet seen set (Function.update tags tag x) =
      Function.update (c.withSet seen set tags) (c.lineOf set tag) x := by
  funext line
  have pos : 0 < c.sets.size := Nat.lt_of_le_of_lt (Nat.zero_le _) within
  by_cases same : line = c.lineOf set tag
  · subst same
    have own : c.setOf (c.lineOf set tag) = set := by
      unfold setOf lineOf
      rw [Nat.mul_add_mod, Nat.mod_eq_of_lt within]
    have same : c.lineOf set tag / c.sets.size = tag := by
      unfold lineOf
      rw [Nat.mul_add_div pos, Nat.div_eq_of_lt within, Nat.add_zero]
    rw [Function.update_self, withSet, if_pos own, same, Function.update_self]
  · rw [Function.update_of_ne same]
    unfold withSet
    split <;> rename_i own
    · have other : line / c.sets.size ≠ tag := by
        rintro rfl
        apply same
        rw [← own]
        exact (Nat.div_add_mod _ _).symm
      rw [Function.update_of_ne other]
    · rfl

/-- What a reference changes in a set, it changes in the cache. -/
theorem turn_withSet {seen tags tags' : Nat → Option Bool} {set tag entering leaving back : Nat} {isWrite : Bool}
    (within : set < c.sets.size) (h : Turn tag isWrite tags tags' entering leaving back)
    (start : c.withSet seen set tags = seen) :
    Turn (c.lineOf set tag) isWrite seen (c.withSet seen set tags') entering leaving back := by
  have pos : 0 < c.sets.size := Nat.lt_of_le_of_lt (Nat.zero_le _) within
  have told : ∀ tag, seen (c.lineOf set tag) = tags tag := by
    intro tag
    have shown : c.withSet seen set (Function.update tags tag (tags tag)) (c.lineOf set tag) =
        Function.update (c.withSet seen set tags) (c.lineOf set tag) (tags tag) (c.lineOf set tag) :=
      congrFun (withSet_update within) _
    rw [Function.update_eq_self, Function.update_self, start] at shown
    exact shown
  cases h with
  | hit there =>
    rw [withSet_update within, start]
    exact Turn.hit ((told tag).trans there)
  | miss absent =>
    rw [withSet_update within, start]
    exact Turn.miss ((told tag).trans absent)
  | evict absent there =>
    rw [withSet_update within, withSet_update within, start]
    exact Turn.evict ((told tag).trans absent) ((told _).trans there)

/-- What a reference changes in a cache: the contents, the dirty lines, and the counts. -/
theorem Ranked.turn (h : c.Ranked kind ways held) (r : Reference) :
    ∃ held' entering leaving back, (c.refer r).Ranked kind ways held' ∧
      Turn (c.line r.address) r.isWrite (c.dirt held) ((c.refer r).dirt held') entering leaving back ∧
      (c.refer r).dirtyLines + leaving = c.dirtyLines + entering ∧
      (c.refer r).stats.writebacks = c.stats.writebacks + back ∧
      (c.refer r).stats.hits + (c.refer r).stats.misses = c.stats.hits + c.stats.misses + 1 := by
  obtain ⟨s, -, ranks⟩ := h.exists_set r.address
  obtain ⟨outcome, lines, serves, -, ranked, stats⟩ := h.access r.address r.isWrite
  change (c.refer r).Ranked kind ways _ at ranked
  change (c.refer r).stats = _ at stats
  have same : SameGeometry c (c.refer r) := sameGeometry_access c r.address r.isWrite
  have within : (c.locate r.address).1 < c.sets.size := Nat.mod_lt _ h.pos
  obtain ⟨entering, leaving, turn, dirty⟩ := serves.turn ranks.pos ranks.length_le ranks.nodup
  refine ⟨_, entering, leaving, CacheSet.writtenBack outcome, ranked, ?_, ?_, ?_, ?_⟩
  · have dirt : (c.refer r).dirt = c.dirt := by
      funext held line
      unfold Cache.dirt
      rw [same.setOf_eq, same.size]
    rw [dirt, dirt_update, ← lineOf_locate]
    exact turn_withSet within turn (withSet_dirt c held _)
  · have replaced := sum_countP_update held within lines
    rw [ranked.dirtyLines_eq, h.dirtyLines_eq, same.size]
    omega
  · rw [stats]
    cases outcome with
    | hit => rfl
    | miss writeback => cases writeback <;> rfl
  · rw [stats]
    cases outcome with
    | hit => exact Nat.add_right_comm _ _ _
    | miss writeback => exact (Nat.add_assoc _ _ _).symm

end Cache

end CoreTiming
