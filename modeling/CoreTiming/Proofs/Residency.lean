import Mathlib.Data.List.Dedup
import CoreTiming.Proofs.Ranking

/-!
# Which lines a cache contains

Under the recency stack a set holds the lines of it that were accessed last, as many different ones as it has ways, and
under the pointer those that missed last.  Either is an invariant of the list of held lines: read from the front, it is
the history of the set, cut off at the number of ways (`ranked_lru`, `ranked_fifo`).

Since more ways cut the same history off later, a cache with more ways contains all that one with fewer contains.
-/

namespace CoreTiming

/-! ## Section 1: Histories -/

/-- The `n` different lines that were accessed last, the last one in front, from all accesses in their order. -/
def recentLines (n : Nat) (lines : List Nat) : List Nat := lines.dedup.reverse.take n

/-- Of the lines that were accessed only the last access counts. -/
theorem dedup_concat (lines : List Nat) (line : Nat) :
    (lines ++ [line]).dedup = lines.dedup.erase line ++ [line] := by
  induction lines with
  | nil => rfl
  | cons first lines ih =>
    by_cases later : first ∈ lines
    · rw [List.cons_append, List.dedup_cons_of_mem (List.mem_append_left _ later), List.dedup_cons_of_mem later, ih]
    · by_cases same : first = line
      · subst same
        have absent : first ∉ lines.dedup := fun mem => later (List.mem_dedup.mp mem)
        rw [List.cons_append, List.dedup_cons_of_mem (List.mem_append_right _ List.mem_cons_self),
          List.dedup_cons_of_notMem later, ih, List.erase_cons_head, List.erase_of_not_mem absent]
      · have absent : first ∉ lines ++ [line] := by simp [later, same]
        rw [List.cons_append, List.dedup_cons_of_notMem absent, List.dedup_cons_of_notMem later, ih,
          List.erase_cons_tail (by simpa using same), List.cons_append]

theorem erase_reverse {lines : List Nat} (nodup : lines.Nodup) (line : Nat) :
    (lines.erase line).reverse = lines.reverse.erase line := by
  rw [nodup.erase_eq_filter, (List.nodup_reverse.mpr nodup).erase_eq_filter, List.filter_reverse]

/-- One more access puts its line in front. -/
theorem recentLines_concat (n : Nat) (lines : List Nat) (line : Nat) :
    recentLines (n + 1) (lines ++ [line]) = line :: (lines.dedup.reverse.erase line).take n := by
  unfold recentLines
  rw [dedup_concat, List.reverse_concat, erase_reverse (List.nodup_dedup lines), List.take_succ_cons]

/-- To cut off a line of the front part before it is cut off once more is the same as to take it out of the whole. -/
theorem take_erase_take (n : Nat) (lines : List Nat) (line : Nat) :
    ((lines.take (n + 1)).erase line).take n = (lines.erase line).take n := by
  induction lines generalizing n with
  | nil => rfl
  | cons first lines ih =>
    rw [List.take_succ_cons]
    by_cases same : first = line
    · subst same
      rw [List.erase_cons_head, List.erase_cons_head, List.take_take, Nat.min_self]
    · rw [List.erase_cons_tail (by simpa using same), List.erase_cons_tail (by simpa using same)]
      cases n with
      | zero => rfl
      | succ n => rw [List.take_succ_cons, List.take_succ_cons, ih]

namespace CacheSet

variable {ways tag : Nat} {isWrite : Bool} {held held' : List CacheLine} {outcome : CacheOutcome} {lines : List Nat}
  {number : Nat → Nat}

/-- Under a recency stack an access keeps the lines of a set to those that were accessed last.  `number` tells the line
of a tag. -/
theorem Serves.lru (h : Serves .lru ways tag isWrite held outcome held') (pos : 0 < ways)
    (injective : Function.Injective number)
    (shown : held.map (number ∘ CacheLine.tag) = recentLines ways lines) :
    held'.map (number ∘ CacheLine.tag) = recentLines ways (lines ++ [number tag]) := by
  obtain ⟨n, rfl⟩ := Nat.exists_eq_succ_of_ne_zero (Nat.ne_of_gt pos)
  rw [recentLines_concat, ← take_erase_take]
  change _ = recentLines (n + 1) lines at shown
  change _ = number tag :: ((recentLines (n + 1) lines).erase (number tag)).take n
  have nodup : (recentLines (n + 1) lines).Nodup :=
    (List.nodup_reverse.mpr (List.nodup_dedup lines)).sublist (List.take_sublist _ _)
  have length : (recentLines (n + 1) lines).length ≤ n + 1 := List.length_take_le _ _
  rw [← shown] at nodup length ⊢
  cases h with
  | @hit front back l found =>
    subst found
    rw [List.map_append, List.map_cons] at nodup length ⊢
    have absent : (number ∘ CacheLine.tag) l ∉ front.map (number ∘ CacheLine.tag) :=
      notMem_front nodup
    have short : (front.map (number ∘ CacheLine.tag) ++ back.map (number ∘ CacheLine.tag)).length ≤ n := by
      rw [List.length_append, List.length_cons] at length
      rw [List.length_append]
      omega
    rw [show number l.tag = (number ∘ CacheLine.tag) l from rfl, List.erase_append_right _ absent,
      List.erase_cons_head, List.take_of_length_le short]
    show number l.tag :: (front ++ back).map (number ∘ CacheLine.tag) = _
    rw [List.map_append]
    rfl
  | miss missing =>
    -- what is not held is not among the last lines either, so nothing is taken out of them
    have absent : number tag ∉ held.map (number ∘ CacheLine.tag) := by
      intro mem
      obtain ⟨l, mem, same⟩ := List.mem_map.mp mem
      exact missing (List.mem_map.mpr ⟨l, mem, injective same⟩)
    rw [List.erase_of_not_mem absent, List.take_succ_cons, List.map_cons, List.map_take]
    rfl

/-- Under a pointer an access keeps the lines of a set to those that missed last. -/
theorem Serves.fifo (h : Serves .fifo ways tag isWrite held outcome held') (pos : 0 < ways)
    (shown : held.map (number ∘ CacheLine.tag) = lines.reverse.take ways) :
    held'.map (number ∘ CacheLine.tag) =
      (lines ++ if outcome = .hit then [] else [number tag]).reverse.take ways := by
  cases h with
  | @hit front back l found =>
    -- a hit marks its line at most
    rw [if_pos rfl, List.append_nil, ← shown]
    show (front ++ l.touch isWrite :: back).map (number ∘ CacheLine.tag) = _
    rw [List.map_append, List.map_append, List.map_cons, List.map_cons]
    rfl
  | miss missing =>
    obtain ⟨n, rfl⟩ := Nat.exists_eq_succ_of_ne_zero (Nat.ne_of_gt pos)
    rw [if_neg CacheOutcome.noConfusion, List.reverse_concat, List.take_succ_cons, List.take_succ_cons,
      List.map_cons, List.map_take, shown, List.take_take, Nat.min_eq_left (Nat.le_succ n)]
    rfl

end CacheSet

namespace Cache

variable {kind : ReplacementKind} {ways : Nat} {held : Nat → List CacheLine} {c : Cache} {config : CacheConfig}
  {address : Address}

/-! ## Section 2: The history of a set -/

/-- The lines of set `set` that the references access, in their order. -/
def linesIn (c : Cache) (set : Nat) (rs : List Reference) : List Nat :=
  (rs.map fun r => c.line r.address).filter fun line => c.setOf line = set

/-- The references that miss, in their order. -/
def misses (c : Cache) : List Reference → List Reference
  | [] => []
  | r :: rs =>
    if (c.access r.address r.isWrite).1 then misses (c.refer r) rs else r :: misses (c.refer r) rs

theorem misses_concat (c : Cache) (rs : List Reference) (r : Reference) :
    c.misses (rs ++ [r]) =
      c.misses rs ++ if ((c.after rs).access r.address r.isWrite).1 then [] else [r] := by
  induction rs generalizing c with
  | nil =>
    show (if _ then _ else _) = _
    rfl
  | cons first rs ih =>
    rw [List.cons_append, misses, misses, ih]
    split
    · rfl
    · rfl

theorem linesIn_append (c : Cache) (set : Nat) (rs rs' : List Reference) :
    c.linesIn set (rs ++ rs') = c.linesIn set rs ++ c.linesIn set rs' := by
  unfold linesIn
  rw [List.map_append, List.filter_append]

theorem linesIn_single (c : Cache) (set : Nat) (r : Reference) :
    c.linesIn set [r] = if set = (c.locate r.address).1 then [c.line r.address] else [] := by
  unfold linesIn
  rw [List.map_singleton, List.filter_cons, List.filter_nil]
  by_cases own : set = (c.locate r.address).1
  · rw [if_pos own, if_pos (decide_eq_true (show c.setOf (c.line r.address) = set from own.symm))]
  · rw [if_neg own, if_neg (by simpa using fun same => own same.symm)]

/-- The number of the line that has a tag in a set. -/
def lineOf (c : Cache) (set tag : Nat) : Nat := c.sets.size * tag + set

theorem lineOf_locate (c : Cache) (address : Address) :
    c.lineOf (c.locate address).1 (c.locate address).2 = c.line address := Nat.div_add_mod _ _

theorem lineOf_injective (pos : 0 < c.sets.size) (set : Nat) : Function.Injective (c.lineOf set) := by
  intro tag tag' same
  exact Nat.eq_of_mul_eq_mul_left pos (Nat.add_right_cancel same)

/-- Each set holds the lines that its history shows. -/
structure Shows (kind : ReplacementKind) (ways : Nat) (history : Nat → List Nat) (held : Nat → List CacheLine)
    (c : Cache) : Prop extends c.Ranked kind ways held where
  /-- The lines of a set, by the rank of their ways. -/
  lines : ∀ set, (held set).map (c.lineOf set ∘ CacheLine.tag) = history set

/-- What the cache contains can be read off the history. -/
theorem Shows.contains_iff {history : Nat → List Nat} (h : c.Shows kind ways history held) :
    c.contains address = true ↔ c.line address ∈ history (c.setOf (c.line address)) := by
  have own : c.setOf (c.line address) = (c.locate address).1 := rfl
  rw [h.toRanked.contains_iff, ← h.lines, ← List.map_map, own, ← lineOf_locate c address]
  exact (List.mem_map_of_injective (lineOf_injective h.pos _)).symm

/-- A reference changes the history of the set that it goes to. -/
theorem Shows.step {history history' : Nat → List Nat} {lines : List CacheLine} {r : Reference}
    (h : c.Shows kind ways history held)
    (ranked : (c.refer r).Ranked kind ways (Function.update held (c.locate r.address).1 lines))
    (here : lines.map (c.lineOf (c.locate r.address).1 ∘ CacheLine.tag) = history' (c.locate r.address).1)
    (elsewhere : ∀ set, set ≠ (c.locate r.address).1 → history' set = history set) :
    (c.refer r).Shows kind ways history' (Function.update held (c.locate r.address).1 lines) where
  toRanked := ranked
  lines set := by
    have numbers : (c.refer r).lineOf = c.lineOf := by
      funext set tag
      unfold lineOf refer
      rw [(sameGeometry_access c r.address r.isWrite).size]
    rw [numbers]
    by_cases own : set = (c.locate r.address).1
    · subst own
      rw [Function.update_self, here]
    · rw [Function.update_of_ne own, h.lines, elsewhere set own]

/-! ## Section 3: Both policies -/

/-- Under a recency stack each set holds the lines of it that were accessed last. -/
theorem shows_lru (policy : config.policy = .lru) (rs : List Reference) :
    ∃ held, ((new config).after rs).Shows .lru (max config.ways 1)
      (fun set => recentLines (max config.ways 1) ((new config).linesIn set rs)) held := by
  induction rs using List.reverseRecOn with
  | nil => exact ⟨fun _ => [], policy ▸ ranked_new config, fun _ => List.take_nil.symm⟩
  | append_singleton rs r ih =>
    obtain ⟨held, h⟩ := ih
    have same := sameGeometry_after (new config) rs
    obtain ⟨outcome, lines, serves, -, ranked, -⟩ := h.access r.address r.isWrite
    rw [after_concat]
    refine ⟨_, h.step ranked ?_ ?_⟩
    · have shown := serves.lru (by omega) (lineOf_injective h.pos _) (h.lines _)
      rw [shown, lineOf_locate, linesIn_append, linesIn_single, same.locate_eq, if_pos rfl, same.line_eq]
    · intro set other
      rw [linesIn_append, linesIn_single, ← same.locate_eq, if_neg other, List.append_nil]

/-- Under a pointer each set holds the lines of it that missed last. -/
theorem shows_fifo (policy : config.policy = .fifo) (rs : List Reference) :
    ∃ held, ((new config).after rs).Shows .fifo (max config.ways 1)
      (fun set => ((new config).linesIn set ((new config).misses rs)).reverse.take (max config.ways 1)) held := by
  induction rs using List.reverseRecOn with
  | nil => exact ⟨fun _ => [], policy ▸ ranked_new config, fun _ => List.take_nil.symm⟩
  | append_singleton rs r ih =>
    obtain ⟨held, h⟩ := ih
    have same := sameGeometry_after (new config) rs
    obtain ⟨outcome, lines, serves, result, ranked, -⟩ := h.access r.address r.isWrite
    have missed : ∀ set, (new config).linesIn set ((new config).misses (rs ++ [r])) =
        (new config).linesIn set ((new config).misses rs) ++
          if outcome = .hit then [] else (new config).linesIn set [r] := by
      intro set
      rw [misses_concat, linesIn_append, result]
      by_cases hit : outcome = .hit
      · rw [if_pos hit, if_pos (beq_iff_eq.mpr hit)]
        rfl
      · rw [if_neg hit, if_neg (mt beq_iff_eq.mp hit)]
    rw [after_concat]
    refine ⟨_, h.step ranked ?_ ?_⟩
    · have shown := serves.fifo (by omega) (h.lines _)
      rw [shown, missed, linesIn_single, lineOf_locate, same.locate_eq, if_pos rfl, same.line_eq]
    · intro set other
      rw [missed, linesIn_single, ← same.locate_eq, if_neg other, ite_self, List.append_nil]

/-- A cache with a recency stack contains an address exactly if its line is among the lines of its set that were
accessed last, as many different ones as there are ways; an access hits exactly if the cache contained the address
before; and a cache with more ways contains all that one with the same sets and fewer ways contains. -/
theorem lru_keeps_recent_lines (policy : config.policy = .lru) (rs : List Reference) :
    (∀ address, ((new config).after rs).contains address = true ↔
      (new config).line address ∈ recentLines (max config.ways 1)
        ((new config).linesIn ((new config).setOf ((new config).line address)) rs)) ∧
    (∀ address isWrite, (((new config).after rs).access address isWrite).1 =
      ((new config).after rs).contains address) ∧
    ∀ larger : CacheConfig, larger.policy = .lru → (new larger).sets.size = (new config).sets.size →
      (new larger).lineBytes = (new config).lineBytes → config.ways ≤ larger.ways →
      ∀ address, ((new config).after rs).contains address = true →
        ((new larger).after rs).contains address = true := by
  have keeps : ∀ {config : CacheConfig}, config.policy = .lru → ∀ address,
      ((new config).after rs).contains address = true ↔ (new config).line address ∈
        recentLines (max config.ways 1) ((new config).linesIn ((new config).setOf ((new config).line address)) rs) := by
    intro config policy address
    obtain ⟨held, h⟩ := shows_lru policy rs
    have same := sameGeometry_after (new config) rs
    rw [h.contains_iff, same.line_eq, same.setOf_eq]
  refine ⟨keeps policy, ?_, ?_⟩
  · intro address isWrite
    obtain ⟨held, h⟩ := shows_lru policy rs
    exact h.access_eq address isWrite
  · intro larger policy' size lineBytes ways address contained
    have geometry : SameGeometry (new config) { new larger with latency := (new config).latency } :=
      ⟨lineBytes, size, rfl⟩
    have line : (new larger).line = (new config).line := geometry.line_eq
    have setOf : (new larger).setOf = (new config).setOf := geometry.setOf_eq
    have linesIn : (new larger).linesIn = (new config).linesIn := by
      funext set rs
      unfold Cache.linesIn
      rw [line, setOf]
    rw [keeps policy] at contained
    rw [keeps policy', line, setOf, linesIn]
    exact (List.take_sublist_take_left (by omega)).subset contained

/-- A cache of one set of lines of 64 bytes. -/
def singleSet (policy : ReplacementKind) (ways : Nat) : CacheConfig :=
  { enabled := true, sizeBytes := 64 * ways, ways, policy }

/-- Three lines are accessed, and the first of them again before the third. -/
def returning : List Reference := [⟨0x00, false⟩, ⟨0x40, true⟩, ⟨0x08, false⟩, ⟨0x80, false⟩]

theorem lru_keeps_recent_lines_of_two_ways :
    (singleSet .lru 2).policy = .lru ∧ ((new (singleSet .lru 2)).after returning).contains 0x10 = true ∧
      ((new (singleSet .lru 2)).after returning).contains 0x50 = false ∧
      (((new (singleSet .lru 2)).after returning).access 0x50 false).1 = false ∧
      (new (singleSet .lru 3)).sets.size = (new (singleSet .lru 2)).sets.size ∧
      ((new (singleSet .lru 3)).after returning).contains 0x10 = true := by
  obtain ⟨keeps, hits, included⟩ := lru_keeps_recent_lines (show (singleSet .lru 2).policy = .lru from rfl) returning
  have first : ((new (singleSet .lru 2)).after returning).contains 0x10 = true := (keeps 0x10).mpr (by decide)
  have second : ((new (singleSet .lru 2)).after returning).contains 0x50 = false :=
    Bool.eq_false_iff.mpr (mt (keeps 0x50).mp (by decide))
  refine ⟨rfl, first, second, (hits 0x50 false).trans second, by decide, ?_⟩
  exact included (singleSet .lru 3) rfl (by decide) rfl (by decide) 0x10 first

end Cache

end CoreTiming
