import Mathlib.Data.List.Rotate
import Mathlib.Logic.Function.Basic
import CoreTiming.Cache.SetAssociative

/-!
# The lines of a cache set by rank

A replacement state ranks the ways of its set, the one that makes room next behind all others: a recency stack is
this ranking itself, and a pointer that goes round the ways ranks first the way that it has just left.  In this order a
set is a list of the lines that it holds, behind which stand the ways that hold nothing (`CacheSet.Ranks`), so ways that
have not been used yet make room before any line does.

An access is a step on that list (`CacheSet.Serves`): a hit finds its line there and, under the recency stack, moves it
to the front; a miss puts the new line in front and cuts the list off behind as many lines as there are ways.  The last
section lifts this to a whole cache, whose sets do not touch each other.
-/

namespace CoreTiming

/-- An element that stands once in a list does not stand in front of itself. -/
theorem notMem_front {α : Type} {front back : List α} {a : α} (nodup : (front ++ a :: back).Nodup) : a ∉ front := by
  intro mem
  exact List.disjoint_of_nodup_append nodup mem List.mem_cons_self

/-! ## Section 1: The ways by rank -/

namespace SetOrder

variable {o : SetOrder} {n way : Nat}

/-- The ways of the set, the one that makes room next behind all others. -/
def ranked : SetOrder → List Nat
  | .recency stack => stack
  | .turn next ways => ((List.range ways).rotate next).reverse

/-- The policy that keeps such a state. -/
def kind : SetOrder → ReplacementKind
  | .recency _ => .lru
  | .turn _ _ => .fifo

/-- The state belongs to a set of `n` ways. -/
def Covers (n : Nat) : SetOrder → Prop
  | .recency stack => stack.Perm (List.range n)
  | .turn next ways => ways = n ∧ next < n

theorem Covers.perm (h : o.Covers n) : o.ranked.Perm (List.range n) := by
  cases o with
  | recency stack => exact h
  | turn next ways =>
    obtain ⟨rfl, -⟩ := h
    exact (List.reverse_perm _).trans (List.rotate_perm _ _)

theorem Covers.nodup (h : o.Covers n) : o.ranked.Nodup := h.perm.nodup_iff.mpr List.nodup_range

theorem Covers.length_ranked (h : o.Covers n) : o.ranked.length = n := by
  rw [h.perm.length_eq, List.length_range]

theorem Covers.mem_ranked_iff (h : o.Covers n) : way ∈ o.ranked ↔ way < n := by
  rw [h.perm.mem_iff, List.mem_range]

theorem kind_new (kind : ReplacementKind) (n : Nat) : (new kind n).kind = kind := by
  cases kind with
  | lru => rfl
  | fifo => rfl

theorem covers_new (kind : ReplacementKind) (pos : 0 < n) : (new kind n).Covers n := by
  cases kind with
  | lru => exact List.Perm.refl _
  | fifo => exact ⟨by omega, pos⟩

@[simp] theorem kind_touch (o : SetOrder) (way : Nat) : (o.touch way).kind = o.kind := by
  cases o with
  | recency stack => rfl
  | turn next ways => rfl

@[simp] theorem kind_fill (o : SetOrder) (way : Nat) : (o.fill way).kind = o.kind := by
  cases o with
  | recency stack => rfl
  | turn next ways => rfl

/-- A hit moves its way to the front of a recency stack, and does not move a pointer. -/
theorem ranked_touch (o : SetOrder) (way : Nat) :
    (o.touch way).ranked = match o.kind with
      | .lru => way :: o.ranked.erase way
      | .fifo => o.ranked := by
  cases o with
  | recency stack => rfl
  | turn next ways => rfl

theorem Covers.touch (h : o.Covers n) (mem : way ∈ o.ranked) : (o.touch way).Covers n := by
  cases o with
  | recency stack => exact (List.perm_cons_erase mem).symm.trans h
  | turn next ways => exact h

/-- The way that makes room stands behind all others, and in front of them once it has been filled. -/
theorem Covers.fill (h : o.Covers n) (pos : 0 < n) :
    ∃ rest, o.ranked = rest ++ [o.victim] ∧ (o.fill o.victim).ranked = o.victim :: rest ∧
      (o.fill o.victim).Covers n := by
  cases o with
  | recency stack =>
    have length := h.length_ranked
    rcases List.eq_nil_or_concat stack with rfl | ⟨rest, last, split⟩
    · exact absurd length (Nat.ne_of_lt pos)
    rw [List.concat_eq_append] at split
    subst split
    have victim : (SetOrder.recency (rest ++ [last])).victim = last := List.getLastD_concat
    have fresh : last ∉ rest := notMem_front h.nodup
    have filled : (SetOrder.recency (rest ++ [last])).fill last = .recency (last :: rest) := by
      show SetOrder.recency (last :: (rest ++ [last]).erase last) = _
      rw [List.erase_append_right _ fresh, List.erase_cons_head, List.append_nil]
    rw [victim, filled]
    exact ⟨rest, rfl, rfl, (List.perm_append_singleton last rest).symm.trans h⟩
  | turn next ways =>
    obtain ⟨rfl, within⟩ := h
    have length : (List.range ways).length = ways := List.length_range
    -- the rotation starts with the way that the pointer names
    have rotated : (List.range ways).rotate next =
        next :: ((List.range ways).drop (next + 1) ++ (List.range ways).take next) := by
      rw [List.rotate_eq_drop_append_take (by omega), List.drop_eq_getElem_cons (by omega), List.getElem_range,
        List.cons_append]
    have advanced : (List.range ways).rotate ((next + 1) % ways) = ((List.range ways).rotate next).rotate 1 := by
      have wrap := List.rotate_mod (List.range ways) (next + 1)
      rw [length] at wrap
      rw [wrap, List.rotate_rotate]
    have victim : (SetOrder.turn next ways).victim = next := rfl
    have filled : (SetOrder.turn next ways).fill next = .turn ((next + 1) % ways) ways := by
      show SetOrder.turn (if next = next then (next + 1) % ways else next) ways = _
      rw [if_pos rfl]
    rw [victim, filled]
    refine ⟨((List.range ways).drop (next + 1) ++ (List.range ways).take next).reverse, ?_, ?_, rfl, Nat.mod_lt _ pos⟩
    · show ((List.range ways).rotate next).reverse = _
      rw [rotated, List.reverse_cons]
    · show ((List.range ways).rotate ((next + 1) % ways)).reverse = _
      rw [advanced, rotated, List.rotate_cons_succ, List.rotate_zero, List.reverse_concat]

end SetOrder

/-! ## Section 2: The lines by rank -/

/-- The line, if it holds anything. -/
def CacheLine.content? (l : CacheLine) : Option CacheLine := if l.valid then some l else none

/-- The line after an access has found it. -/
def CacheLine.touch (isWrite : Bool) (l : CacheLine) : CacheLine := { l with dirty := l.dirty || isWrite }

theorem CacheLine.content?_eq_some {l k : CacheLine} : l.content? = some k ↔ l.valid = true ∧ l = k := by
  unfold content?
  split <;> rename_i valid
  · simp [valid]
  · simp [valid]

namespace CacheSet

variable {kind : ReplacementKind} {ways tag way : Nat} {isWrite : Bool} {s : CacheSet} {held : List CacheLine}
  {l : CacheLine}

/-- The line in a way, if it holds anything. -/
def content? (s : CacheSet) (way : Nat) : Option CacheLine := (s.lines[way]?).bind CacheLine.content?

theorem content?_eq_some : s.content? way = some l ↔ s.lines[way]? = some l ∧ l.valid = true := by
  unfold content?
  rw [Option.bind_eq_some_iff]
  constructor
  · rintro ⟨k, found, holds⟩
    obtain ⟨valid, rfl⟩ := CacheLine.content?_eq_some.mp holds
    exact ⟨found, valid⟩
  · rintro ⟨found, valid⟩
    exact ⟨l, found, CacheLine.content?_eq_some.mpr ⟨valid, rfl⟩⟩

/-- `held` are the lines that the set holds, by the rank of their ways; the ways behind them hold nothing. -/
structure Ranks (kind : ReplacementKind) (ways : Nat) (held : List CacheLine) (s : CacheSet) : Prop where
  /-- A set has a way. -/
  pos : 0 < ways
  /-- Each way has a line. -/
  size : s.lines.length = ways
  /-- The replacement state is one of the policy. -/
  policy : s.order.kind = kind
  /-- It ranks all ways. -/
  covers : s.order.Covers ways
  /-- In the order of their rank the ways hold the lines of the list, and then nothing. -/
  ranking : s.order.ranked.map s.content? = held.map some ++ List.replicate (ways - held.length) none
  /-- No line is held twice. -/
  nodup : (held.map CacheLine.tag).Nodup

theorem ranks_new (kind : ReplacementKind) (pos : 0 < ways) : (new kind ways).Ranks kind ways [] where
  pos := pos
  size := List.length_replicate
  policy := SetOrder.kind_new kind ways
  covers := SetOrder.covers_new kind pos
  ranking := by
    have covers := SetOrder.covers_new kind pos
    have empty : ∀ way, (new kind ways).content? way = none := by
      intro way
      rw [Option.eq_none_iff_forall_ne_some]
      intro l found
      obtain ⟨found, valid⟩ := content?_eq_some.mp found
      obtain ⟨-, rfl⟩ := List.mem_replicate.mp (List.mem_of_getElem? found)
      cases valid
    rw [funext empty, List.map_const', show (new kind ways).order = .new kind ways from rfl, covers.length_ranked]
    rfl
  nodup := List.nodup_nil

/-- A set holds no more lines than it has ways. -/
theorem Ranks.length_le (h : s.Ranks kind ways held) : held.length ≤ ways := by
  have lengths := congrArg List.length h.ranking
  rw [List.length_map, h.covers.length_ranked, List.length_append, List.length_map, List.length_replicate] at lengths
  omega

theorem Ranks.mem_iff (h : s.Ranks kind ways held) : l ∈ held ↔ ∃ way, s.content? way = some l := by
  have ranked : some l ∈ s.order.ranked.map s.content? ↔ l ∈ held := by
    rw [h.ranking, List.mem_append, List.mem_map_of_injective fun _ _ => Option.some.inj, List.mem_replicate]
    simp
  rw [← ranked, List.mem_map]
  constructor
  · rintro ⟨way, -, found⟩
    exact ⟨way, found⟩
  · rintro ⟨way, found⟩
    have within := (List.getElem?_eq_some_iff.mp (content?_eq_some.mp found).1).1
    exact ⟨way, h.covers.mem_ranked_iff.mpr (h.size ▸ within), found⟩

/-- A way that is found holds the line that was looked for. -/
theorem exists_of_find? (found : s.find? tag = some way) : ∃ l, s.content? way = some l ∧ l.tag = tag := by
  obtain ⟨within, fits, -⟩ := List.findIdx?_eq_some_iff_getElem.mp found
  simp only [Bool.and_eq_true, beq_iff_eq] at fits
  exact ⟨s.lines[way], content?_eq_some.mpr ⟨List.getElem?_eq_getElem within, fits.1⟩, fits.2⟩

/-- A line is found where it is held. -/
theorem Ranks.isSome_find?_iff (h : s.Ranks kind ways held) :
    (s.find? tag).isSome = true ↔ tag ∈ held.map CacheLine.tag := by
  unfold find?
  rw [List.findIdx?_isSome, List.any_eq_true, List.mem_map]
  constructor
  · rintro ⟨l, mem, fits⟩
    simp only [Bool.and_eq_true, beq_iff_eq] at fits
    obtain ⟨way, found⟩ := List.mem_iff_getElem?.mp mem
    exact ⟨l, h.mem_iff.mpr ⟨way, content?_eq_some.mpr ⟨found, fits.1⟩⟩, fits.2⟩
  · rintro ⟨l, mem, rfl⟩
    obtain ⟨way, found⟩ := h.mem_iff.mp mem
    obtain ⟨found, valid⟩ := content?_eq_some.mp found
    exact ⟨l, List.mem_of_getElem? found, by simp [valid]⟩

/-! ## Section 3: One access to a set -/

/-- Where a line goes that a hit finds between `front` and `back`: to the front under a recency stack, nowhere under
a pointer. -/
def promote (kind : ReplacementKind) (front : List CacheLine) (l : CacheLine) (back : List CacheLine) :
    List CacheLine :=
  match kind with
  | .lru => l :: (front ++ back)
  | .fifo => front ++ l :: back

/-- What one access does to the lines that a set of `ways` ways holds. -/
inductive Serves (kind : ReplacementKind) (ways tag : Nat) (isWrite : Bool) :
    List CacheLine → CacheOutcome → List CacheLine → Prop
  /-- The line is there. -/
  | hit {front back : List CacheLine} {l : CacheLine} (found : l.tag = tag) :
    Serves kind ways tag isWrite (front ++ l :: back) .hit (promote kind front (l.touch isWrite) back)
  /-- The line comes in front of the others, and where they fill all ways the last of them leaves. -/
  | miss {held : List CacheLine} (absent : tag ∉ held.map CacheLine.tag) :
    Serves kind ways tag isWrite held (.miss (held[ways - 1]?.any CacheLine.dirty))
      (({ tag, valid := true, dirty := isWrite } :: held).take ways)

/-- The lines around one that the ranking shows. -/
theorem exists_around {before after : List (Option CacheLine)} {n : Nat}
    (h : before ++ some l :: after = held.map some ++ List.replicate n none) :
    ∃ front back, held = front ++ l :: back ∧ before = front.map some ∧
      after = back.map some ++ List.replicate n none := by
  induction before generalizing held with
  | nil =>
    cases held with
    | nil =>
      -- behind all lines the ranking shows none
      have mem : some l ∈ List.replicate n (none : Option CacheLine) := by
        rw [List.map_nil, List.nil_append, List.nil_append] at h
        rw [← h]
        exact List.mem_cons_self
      cases (List.mem_replicate.mp mem).2
    | cons k held =>
      obtain ⟨same, rfl⟩ := List.cons.inj h
      obtain rfl := Option.some.inj same
      exact ⟨[], held, rfl, rfl, rfl⟩
  | cons c before ih =>
    cases held with
    | nil =>
      have mem : some l ∈ List.replicate n (none : Option CacheLine) := by
        rw [List.map_nil, List.nil_append] at h
        rw [← h]
        exact List.mem_append_right _ List.mem_cons_self
      cases (List.mem_replicate.mp mem).2
    | cons k held =>
      obtain ⟨rfl, rest⟩ := List.cons.inj h
      obtain ⟨front, back, rfl, rfl, rfl⟩ := ih rest
      exact ⟨k :: front, back, rfl, rfl, rfl⟩

/-- A hit leaves the other ways alone. -/
theorem content?_modify {order : SetOrder} (found : s.content? way = some l) (other : Nat) :
    content? ⟨s.lines.modify way (CacheLine.touch isWrite), order⟩ other =
      if other = way then some (l.touch isWrite) else s.content? other := by
  unfold content?
  rw [List.getElem?_modify]
  by_cases same : other = way
  · subst same
    obtain ⟨there, valid⟩ := content?_eq_some.mp found
    rw [there, if_pos rfl]
    simp [CacheLine.content?, CacheLine.touch, valid]
  · rw [if_neg same]
    simp [Ne.symm same]

/-- A fill leaves the other ways alone. -/
theorem content?_set {order : SetOrder} (within : way < s.lines.length) (valid : l.valid = true) (other : Nat) :
    content? ⟨s.lines.set way l, order⟩ other = if other = way then some l else s.content? other := by
  unfold content?
  rw [List.getElem?_set]
  by_cases same : other = way
  · subst same
    simp [within, CacheLine.content?, valid]
  · simp [same, Ne.symm same]

/-- An access that hits. -/
theorem Ranks.hit (h : s.Ranks kind ways held) (found : s.find? tag = some way) :
    ∃ held', Serves kind ways tag isWrite held .hit held' ∧
      Ranks kind ways held' ⟨s.lines.modify way (CacheLine.touch isWrite), s.order.touch way⟩ := by
  obtain ⟨l, content, rfl⟩ := exists_of_find? found
  have within : way < ways := h.size ▸ (List.getElem?_eq_some_iff.mp (content?_eq_some.mp content).1).1
  have mem := h.covers.mem_ranked_iff.mpr within
  obtain ⟨before, after, ranked⟩ := List.append_of_mem mem
  have nodup := h.covers.nodup
  rw [ranked] at nodup
  have notBefore : way ∉ before := notMem_front nodup
  have notAfter : way ∉ after := (List.nodup_cons.mp (List.nodup_append.mp nodup).2.1).1
  -- the line stands in the list where its way stands in the ranking
  have ranking := h.ranking
  rw [ranked, List.map_append, List.map_cons, content] at ranking
  obtain ⟨front, back, rfl, shownBefore, shownAfter⟩ := exists_around ranking
  refine ⟨promote kind front (l.touch isWrite) back, .hit rfl, h.pos, ?_, ?_, h.covers.touch mem, ?_, ?_⟩
  · rw [List.length_modify, h.size]
  · rw [SetOrder.kind_touch, h.policy]
  · have elsewhere : ∀ {ways : List Nat}, way ∉ ways →
        ways.map (content? ⟨s.lines.modify way (CacheLine.touch isWrite), s.order.touch way⟩) =
          ways.map s.content? := by
      intro ways absent
      apply List.map_congr_left
      intro other mem
      rw [content?_modify content, if_neg (ne_of_mem_of_not_mem mem absent)]
    have here : content? ⟨s.lines.modify way (CacheLine.touch isWrite), s.order.touch way⟩ way =
        some (l.touch isWrite) := by
      rw [content?_modify content, if_pos rfl]
    rw [SetOrder.ranked_touch, h.policy]
    cases kind with
    | lru =>
      show (way :: s.order.ranked.erase way).map _ = _
      rw [ranked, List.erase_append_right _ notBefore, List.erase_cons_head, List.map_cons, List.map_append,
        elsewhere notBefore, elsewhere notAfter, here, shownBefore, shownAfter]
      simp [promote, Nat.add_assoc]
    | fifo =>
      show s.order.ranked.map _ = _
      rw [ranked, List.map_append, List.map_cons, elsewhere notBefore, elsewhere notAfter, here, shownBefore,
        shownAfter]
      simp [promote]
  · have same : ((front ++ l.touch isWrite :: back).map CacheLine.tag).Nodup := by
      have nodup := h.nodup
      rw [List.map_append, List.map_cons] at nodup ⊢
      exact nodup
    cases kind with
    | lru => exact (List.perm_middle.map CacheLine.tag).nodup_iff.mp same
    | fifo => exact same

/-- The end of the ranking: what the last way holds, and what the others hold. -/
theorem exists_last {others : List (Option CacheLine)} {last : Option CacheLine} (pos : 0 < ways)
    (le : held.length ≤ ways) (h : others ++ [last] = held.map some ++ List.replicate (ways - held.length) none) :
    last = held[ways - 1]? ∧
      others = (held.take (ways - 1)).map some ++ List.replicate (ways - 1 - (held.take (ways - 1)).length) none := by
  rcases Nat.lt_or_ge held.length ways with free | full
  · -- a way is free, and the last one is
    have split : List.replicate (ways - held.length) (none : Option CacheLine) =
        List.replicate (ways - 1 - held.length) none ++ [none] := by
      rw [← List.replicate_succ', show ways - 1 - held.length + 1 = ways - held.length by omega]
    rw [split, ← List.append_assoc] at h
    obtain ⟨same, lasts⟩ := List.append_inj' h rfl
    rw [List.take_of_length_le (by omega), List.getElem?_eq_none (by omega)]
    exact ⟨(List.cons.inj lasts).1, same⟩
  · have filled : held.length = ways := by omega
    rcases List.eq_nil_or_concat held with rfl | ⟨front, l, split⟩
    · exact absurd filled (Nat.ne_of_lt pos)
    rw [List.concat_eq_append] at split
    subst split
    rw [List.length_append, List.length_singleton] at filled
    rw [List.length_append, List.length_singleton, filled, Nat.sub_self, List.replicate_zero, List.append_nil,
      List.map_append] at h
    obtain ⟨same, lasts⟩ := List.append_inj' h rfl
    subst filled
    rw [Nat.add_sub_cancel, List.take_left, List.getElem?_concat_length, Nat.sub_self, List.replicate_zero,
      List.append_nil]
    exact ⟨(List.cons.inj lasts).1, same⟩

/-- An access that misses: the way that makes room holds the last line of a full set. -/
theorem Ranks.miss (h : s.Ranks kind ways held) (isWrite : Bool) (absent : tag ∉ held.map CacheLine.tag) :
    s.order.victim < ways ∧ s.content? s.order.victim = held[ways - 1]? ∧
      Ranks kind ways (({ tag, valid := true, dirty := isWrite } :: held).take ways)
        ⟨s.lines.set s.order.victim { tag, valid := true, dirty := isWrite }, s.order.fill s.order.victim⟩ := by
  obtain ⟨rest, ranked, filled, covers⟩ := h.covers.fill h.pos
  have within : s.order.victim < ways := by
    rw [← h.covers.mem_ranked_iff, ranked]
    exact List.mem_append_right _ List.mem_cons_self
  have fresh : s.order.victim ∉ rest := by
    have nodup := h.covers.nodup
    rw [ranked] at nodup
    exact notMem_front nodup
  have ranking := h.ranking
  rw [ranked, List.map_append, List.map_singleton] at ranking
  obtain ⟨last, others⟩ := exists_last h.pos h.length_le ranking
  refine ⟨within, last, h.pos, ?_, ?_, covers, ?_, ?_⟩
  · rw [List.length_set, h.size]
  · rw [SetOrder.kind_fill, h.policy]
  · have content : ∀ other, content? ⟨s.lines.set s.order.victim { tag, valid := true, dirty := isWrite },
        s.order.fill s.order.victim⟩ other =
          if other = s.order.victim then some { tag, valid := true, dirty := isWrite } else s.content? other :=
      content?_set (h.size.symm ▸ within) rfl
    have elsewhere : rest.map (content? ⟨s.lines.set s.order.victim { tag, valid := true, dirty := isWrite },
        s.order.fill s.order.victim⟩) = rest.map s.content? := by
      apply List.map_congr_left
      intro other mem
      rw [content, if_neg (ne_of_mem_of_not_mem mem fresh)]
    obtain ⟨n, rfl⟩ := Nat.exists_eq_succ_of_ne_zero (Nat.ne_of_gt h.pos)
    show (s.order.fill s.order.victim).ranked.map _ = _
    rw [filled, List.map_cons, elsewhere, others, content, if_pos rfl]
    simp [Nat.add_sub_add_right]
  · have nodup : (({ tag, valid := true, dirty := isWrite } :: held).map CacheLine.tag).Nodup :=
      List.nodup_cons.mpr ⟨absent, h.nodup⟩
    exact nodup.sublist ((List.take_sublist _ _).map _)

/-- An access is a step on the list of the lines that the set holds. -/
theorem Ranks.access (h : s.Ranks kind ways held) (tag : Nat) (isWrite : Bool) :
    ∃ held', Serves kind ways tag isWrite held (s.access tag isWrite).1 held' ∧
      (s.access tag isWrite).2.Ranks kind ways held' := by
  unfold CacheSet.access
  cases found : s.find? tag with
  | some way => exact h.hit found
  | none =>
    have absent : tag ∉ held.map CacheLine.tag := by
      intro mem
      have some := h.isSome_find?_iff.mpr mem
      rw [found] at some
      cases some
    obtain ⟨within, last, ranks⟩ := h.miss isWrite absent
    have wrap : s.order.victim % s.lines.length = s.order.victim := Nat.mod_eq_of_lt (h.size.symm ▸ within)
    have old : ∀ l : Option CacheLine, ((l.getD {}).valid && (l.getD {}).dirty) =
        (l.bind CacheLine.content?).any CacheLine.dirty := by
      intro l
      cases l with
      | none => rfl
      | some l => cases valid : l.valid <;> simp [CacheLine.content?, valid]
    refine ⟨_, ?_, by simpa only [wrap] using ranks⟩
    simp only [wrap, old]
    rw [show s.lines[s.order.victim]?.bind CacheLine.content? = held[ways - 1]? from last]
    exact .miss absent

/-- An access hits where the set holds the line. -/
theorem Serves.hit_iff {outcome : CacheOutcome} {held' : List CacheLine}
    (h : Serves kind ways tag isWrite held outcome held') : outcome = .hit ↔ tag ∈ held.map CacheLine.tag := by
  cases h with
  | hit found =>
    rw [List.map_append, List.map_cons, found]
    simp
  | miss absent =>
    constructor
    · intro hit
      cases hit
    · exact fun mem => absurd mem absent

/-- After an access the set holds the line. -/
theorem Serves.mem {outcome : CacheOutcome} {held' : List CacheLine} (pos : 0 < ways)
    (h : Serves kind ways tag isWrite held outcome held') : tag ∈ held'.map CacheLine.tag := by
  cases h with
  | @hit front back l found =>
    refine List.mem_map.mpr ⟨l.touch isWrite, ?_, found⟩
    cases kind with
    | lru => exact List.mem_cons_self
    | fifo => exact List.mem_append_right _ List.mem_cons_self
  | miss absent =>
    obtain ⟨n, rfl⟩ := Nat.exists_eq_succ_of_ne_zero (Nat.ne_of_gt pos)
    exact List.mem_map.mpr ⟨_, List.mem_cons_self, rfl⟩

end CacheSet

/-! ## Section 4: Caches -/

/-- A read or a write of an address. -/
structure Reference where
  /-- The address. -/
  address : Address
  /-- Whether it is written. -/
  isWrite : Bool := false
  deriving DecidableEq, Inhabited

namespace Cache

variable {kind : ReplacementKind} {ways : Nat} {held : Nat → List CacheLine} {c : Cache} {address : Address}
  {isWrite : Bool}

/-- The cache after a reference. -/
def refer (c : Cache) (r : Reference) : Cache := (c.access r.address r.isWrite).2

/-- The cache after some references. -/
def after (c : Cache) (rs : List Reference) : Cache := rs.foldl refer c

theorem after_concat (c : Cache) (rs : List Reference) (r : Reference) :
    c.after (rs ++ [r]) = (c.after rs).refer r := by
  unfold after
  rw [List.foldl_concat]

/-- The line of an address, by its number in memory. -/
def line (c : Cache) (address : Address) : Nat := address.toNat / c.lineBytes

/-- The set that a line belongs to. -/
def setOf (c : Cache) (line : Nat) : Nat := line % c.sets.size

/-- The two caches have sets and lines of the same number and size, and take the same time. -/
structure SameGeometry (c c' : Cache) : Prop where
  /-- As many bytes in a line. -/
  lineBytes : c'.lineBytes = c.lineBytes
  /-- As many sets. -/
  size : c'.sets.size = c.sets.size
  /-- As many cycles for an access. -/
  latency : c'.latency = c.latency

theorem SameGeometry.refl (c : Cache) : SameGeometry c c := ⟨rfl, rfl, rfl⟩

theorem SameGeometry.trans {c₁ c₂ c₃ : Cache} (h : SameGeometry c₁ c₂) (h' : SameGeometry c₂ c₃) :
    SameGeometry c₁ c₃ :=
  ⟨h'.lineBytes.trans h.lineBytes, h'.size.trans h.size, h'.latency.trans h.latency⟩

theorem SameGeometry.locate_eq {c' : Cache} (h : SameGeometry c c') : c'.locate = c.locate := by
  funext address
  unfold locate
  rw [h.lineBytes, h.size]

theorem SameGeometry.line_eq {c' : Cache} (h : SameGeometry c c') : c'.line = c.line := by
  funext address
  unfold line
  rw [h.lineBytes]

theorem SameGeometry.setOf_eq {c' : Cache} (h : SameGeometry c c') : c'.setOf = c.setOf := by
  funext line
  unfold setOf
  rw [h.size]

theorem sameGeometry_access (c : Cache) (address : Address) (isWrite : Bool) :
    SameGeometry c (c.access address isWrite).2 := by
  unfold access
  simp only
  split
  · exact SameGeometry.refl c
  · exact ⟨rfl, Array.size_setIfInBounds, rfl⟩

theorem sameGeometry_after (c : Cache) (rs : List Reference) : SameGeometry c (c.after rs) := by
  induction rs generalizing c with
  | nil => exact SameGeometry.refl c
  | cons r rs ih => exact (sameGeometry_access c r.address r.isWrite).trans (ih (c.refer r))

/-- Each set `i` of the cache holds the lines `held i`. -/
structure Ranked (kind : ReplacementKind) (ways : Nat) (held : Nat → List CacheLine) (c : Cache) : Prop where
  /-- A cache has a set. -/
  pos : 0 < c.sets.size
  /-- The lines of a set by rank. -/
  ranks : ∀ (i : Nat) (s : CacheSet), c.sets[i]? = some s → s.Ranks kind ways (held i)

theorem ranked_new (config : CacheConfig) : (new config).Ranked config.policy (max config.ways 1) fun _ => [] where
  pos := by
    unfold new
    rw [Array.size_replicate]
    omega
  ranks i s found := by
    unfold new at found
    obtain ⟨within, rfl⟩ := Array.getElem?_eq_some_iff.mp found
    rw [Array.getElem_replicate]
    exact CacheSet.ranks_new _ (by omega)

theorem Ranked.exists_set (h : c.Ranked kind ways held) (address : Address) :
    ∃ s, c.sets[(c.locate address).1]? = some s ∧ s.Ranks kind ways (held (c.locate address).1) := by
  have within : (c.locate address).1 < c.sets.size := Nat.mod_lt _ h.pos
  exact ⟨_, Array.getElem?_eq_getElem within, h.ranks _ _ (Array.getElem?_eq_getElem within)⟩

theorem Ranked.contains_iff (h : c.Ranked kind ways held) :
    c.contains address = true ↔ (c.locate address).2 ∈ (held (c.locate address).1).map CacheLine.tag := by
  obtain ⟨s, found, ranks⟩ := h.exists_set address
  unfold contains
  simp only [found, Option.bind_some]
  exact ranks.isSome_find?_iff

/-- An access is a step on the lines of one set. -/
theorem Ranked.access (h : c.Ranked kind ways held) (address : Address) (isWrite : Bool) :
    ∃ outcome lines,
      CacheSet.Serves kind ways (c.locate address).2 isWrite (held (c.locate address).1) outcome lines ∧
      (c.access address isWrite).1 = (outcome == .hit) ∧
      (c.access address isWrite).2.Ranked kind ways (Function.update held (c.locate address).1 lines) ∧
      (c.access address isWrite).2.stats = c.stats.count outcome := by
  obtain ⟨s, found, ranks⟩ := h.exists_set address
  obtain ⟨lines, serves, ranks'⟩ := ranks.access (c.locate address).2 isWrite
  refine ⟨_, lines, serves, ?_, ⟨?_, ?_⟩, ?_⟩
  · unfold Cache.access
    simp only [found]
  · rw [(sameGeometry_access c address isWrite).size]
    exact h.pos
  · intro i s' there
    unfold Cache.access at there
    simp only [found] at there
    rw [Array.getElem?_setIfInBounds] at there
    by_cases same : (c.locate address).1 = i
    · subst same
      obtain ⟨-, rfl⟩ : _ ∧ (s.access (c.locate address).2 isWrite).2 = s' := by simpa using there
      rw [Function.update_self]
      exact ranks'
    · rw [if_neg same] at there
      rw [Function.update_of_ne (Ne.symm same)]
      exact h.ranks i s' there
  · unfold Cache.access
    simp only [found]

/-- An access finds its line where the cache contained it. -/
theorem Ranked.access_eq (h : c.Ranked kind ways held) (address : Address) (isWrite : Bool) :
    (c.access address isWrite).1 = c.contains address := by
  obtain ⟨outcome, lines, serves, result, -⟩ := h.access address isWrite
  rw [result, Bool.eq_iff_iff, h.contains_iff, beq_iff_eq]
  exact serves.hit_iff

/-- After an access the cache contains the line. -/
theorem Ranked.contains_access (h : c.Ranked kind ways held) (address : Address) (isWrite : Bool) :
    (c.access address isWrite).2.contains address = true := by
  obtain ⟨outcome, lines, serves, -, ranked, -⟩ := h.access address isWrite
  obtain ⟨s, -, ranks⟩ := h.exists_set address
  rw [ranked.contains_iff, (sameGeometry_access c address isWrite).locate_eq, Function.update_self]
  exact serves.mem ranks.pos

end Cache

end CoreTiming
