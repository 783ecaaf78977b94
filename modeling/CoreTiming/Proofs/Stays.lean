import CoreTiming.Proofs.Turnover

/-!
# The stays of lines in a cache

A line stays in a cache from the reference that allocates it until it is evicted.  A stay is named by the position of
the reference that begins it, and all that happens to it is told by the references and by what the cache contains after
each of them.  The main statement of this module is that a cache has written back the lines of those stays, and of no
others, that are over and in which the line was written; the lines that are dirty belong to those that go on.

The proof keeps an account of the stays (`Cache.Accounts`): each line that the cache contains has a stay that goes on,
there are not two of them, and the line is dirty if it was written in this stay.
-/

namespace CoreTiming

/-- Two counts that agree off one member differ by what they say of it. -/
theorem countP_of_agree_off {members : List Nat} {p q : Nat → Bool} {i : Nat} (nodup : members.Nodup)
    (mem : i ∈ members) (agree : ∀ j ∈ members, j ≠ i → q j = p j) :
    members.countP q + (p i).toNat = members.countP p + (q i).toNat := by
  have perm := List.perm_cons_erase mem
  have others : (members.erase i).countP q = (members.erase i).countP p := by
    apply List.countP_congr
    intro j inside
    rw [agree j (List.mem_of_mem_erase inside) (nodup.mem_erase_iff.mp inside).1]
  rw [perm.countP_eq, perm.countP_eq, List.countP_cons, List.countP_cons, others]
  cases p i <;> cases q i <;> simp

namespace Cache

variable {kind : ReplacementKind} {ways : Nat} {held : Nat → List CacheLine} {c : Cache} {config : CacheConfig}
  {rs : List Reference} {r q : Reference} {i j n : Nat} {address : Address}

/-! ## Section 1: Stays -/

/-- The cache after the first `n` references. -/
def upTo (c : Cache) (rs : List Reference) (n : Nat) : Cache := c.after (rs.take n)

/-- A stay begins with reference `i`: it misses. -/
def begins (c : Cache) (rs : List Reference) (i : Nat) : Bool :=
  rs[i]?.any fun r => !(c.upTo rs i).contains r.address

/-- What begins with reference `i` lasts until after the first `n` references: after each of them from `i` on, the cache
contains the line. -/
def lasts (c : Cache) (rs : List Reference) (i n : Nat) : Bool :=
  rs[i]?.any fun r => (List.range n).all fun k => k < i || (c.upTo rs (k + 1)).contains r.address

/-- One of the first `n` references writes the line of reference `i` while what begins with it lasts. -/
def written (c : Cache) (rs : List Reference) (i n : Nat) : Bool :=
  rs[i]?.any fun r => (List.range n).any fun k =>
    i ≤ k && c.lasts rs i k && rs[k]?.any fun q => q.isWrite && c.line q.address == c.line r.address

/-! ## Section 2: One more reference -/

theorem upTo_concat (h : n ≤ rs.length) : c.upTo (rs ++ [r]) n = c.upTo rs n := by
  unfold upTo
  rw [List.take_append_of_le_length h]

theorem begins_concat (h : i < rs.length) : c.begins (rs ++ [r]) i = c.begins rs i := by
  unfold begins
  rw [List.getElem?_append_left h, upTo_concat (by omega)]

theorem begins_concat_last : c.begins (rs ++ [r]) rs.length = !(c.after rs).contains r.address := by
  unfold begins
  rw [List.getElem?_concat_length, upTo_concat (Nat.le_refl _), upTo, List.take_length]
  rfl

theorem lasts_concat (h : i < rs.length) (le : n ≤ rs.length) : c.lasts (rs ++ [r]) i n = c.lasts rs i n := by
  unfold lasts
  rw [List.getElem?_append_left h]
  congr 1
  funext q
  rw [Bool.eq_iff_iff, List.all_eq_true, List.all_eq_true]
  refine forall₂_congr fun k mem => ?_
  rw [upTo_concat (by have := List.mem_range.mp mem; omega)]

theorem lasts_self (found : rs[i]? = some q) : c.lasts rs i i = true := by
  unfold lasts
  rw [found, Option.any_some, List.all_eq_true]
  intro k mem
  rw [decide_eq_true (List.mem_range.mp mem), Bool.true_or]

theorem lasts_succ (found : rs[i]? = some q) (le : i ≤ n) :
    c.lasts rs i (n + 1) = (c.lasts rs i n && (c.upTo rs (n + 1)).contains q.address) := by
  unfold lasts
  rw [found, Option.any_some, Option.any_some, List.range_succ, List.all_append, List.all_cons, List.all_nil,
    Bool.and_true, decide_eq_false (Nat.not_lt.mpr le), Bool.false_or]

theorem written_self : c.written rs i i = false := by
  unfold written
  rw [Option.any_eq_false_iff_get]
  intro some
  rw [List.any_eq_false]
  intro k mem
  rw [decide_eq_false (Nat.not_le.mpr (List.mem_range.mp mem)), Bool.false_and, Bool.false_and]
  exact Bool.false_ne_true

theorem written_succ (found : rs[i]? = some q) (found' : rs[n]? = some r) (le : i ≤ n) :
    c.written rs i (n + 1) =
      (c.written rs i n || (c.lasts rs i n && (r.isWrite && c.line r.address == c.line q.address))) := by
  unfold written
  rw [found, Option.any_some, Option.any_some, List.range_succ, List.any_append, List.any_cons, List.any_nil,
    Bool.or_false, decide_eq_true le, Bool.true_and, found', Option.any_some]

theorem written_concat (h : i < rs.length) (le : n ≤ rs.length) : c.written (rs ++ [r]) i n = c.written rs i n := by
  unfold written
  rw [List.getElem?_append_left h]
  congr 1
  funext q
  rw [Bool.eq_iff_iff, List.any_eq_true, List.any_eq_true]
  refine exists_congr fun k => and_congr_right fun mem => ?_
  have before := List.mem_range.mp mem
  rw [lasts_concat h (by omega), List.getElem?_append_left (by omega)]

theorem contains_congr {a b : Address} (same : c.line a = c.line b) : c.contains a = c.contains b := by
  have located : c.locate a = c.locate b := by
    show (c.line a % c.sets.size, c.line a / c.sets.size) = (c.line b % c.sets.size, c.line b / c.sets.size)
    rw [same]
  unfold contains
  rw [located]

/-! ## Section 3: The account of the stays -/

/-- The contents of the cache after the references, and a stay that goes on for each line that is there. -/
structure Accounts (c : Cache) (rs : List Reference) (dirt : Nat → Option Bool) : Prop where
  /-- The cache contains the lines that `dirt` knows. -/
  contains : ∀ address, (c.after rs).contains address = (dirt (c.line address)).isSome
  /-- Each of them has a stay, in which it was written if it is dirty. -/
  stay : ∀ line dirty, dirt line = some dirty → ∃ i q, rs[i]? = some q ∧ c.line q.address = line ∧
    c.begins rs i = true ∧ c.lasts rs i rs.length = true ∧ c.written rs i rs.length = dirty

/-- The line was written in the stay that begins with reference `i`. -/
def writtenStay (c : Cache) (rs : List Reference) (i : Nat) : Bool := c.begins rs i && c.written rs i rs.length

/-- While a line stays, no other stay of it begins. -/
theorem begins_of_lasts (found : rs[i]? = some q) (found' : rs[j]? = some r) (later : i < j) (le : j ≤ n)
    (same : c.line q.address = c.line r.address) (lasts : c.lasts rs i n = true) : c.begins rs j = false := by
  obtain ⟨k, rfl⟩ := Nat.exists_eq_add_one_of_ne_zero (Nat.ne_zero_of_lt later)
  unfold Cache.lasts at lasts
  rw [found, Option.any_some, List.all_eq_true] at lasts
  have there := lasts k (List.mem_range.mpr le)
  rw [decide_eq_false (by omega), Bool.false_or] at there
  have geometry := (sameGeometry_after c (rs.take (k + 1))).line_eq
  have there' : (c.upTo rs (k + 1)).contains r.address = true := by
    rw [← there]
    apply contains_congr
    unfold upTo
    rw [geometry, same]
  unfold begins
  rw [found', Option.any_some, there']
  rfl

theorem begins_unique (found : rs[i]? = some q) (found' : rs[j]? = some r)
    (same : c.line q.address = c.line r.address) (begins : c.begins rs i = true) (begins' : c.begins rs j = true)
    (lasts : c.lasts rs i rs.length = true) (lasts' : c.lasts rs j rs.length = true) : i = j := by
  have within := (List.getElem?_eq_some_iff.mp found).1
  have within' := (List.getElem?_eq_some_iff.mp found').1
  rcases Nat.lt_trichotomy i j with earlier | rfl | later
  · rw [begins_of_lasts found found' earlier (by omega) same lasts] at begins'
    cases begins'
  · rfl
  · rw [begins_of_lasts found' found later (by omega) same.symm lasts'] at begins
    cases begins

/-- The line was written in the stay that begins with reference `i`, and this stay is over. -/
def isOver (c : Cache) (rs : List Reference) (i : Nat) : Bool := c.writtenStay rs i && !c.lasts rs i rs.length

/-- The line was written in the stay that begins with reference `i`, and this stay goes on. -/
def goesOn (c : Cache) (rs : List Reference) (i : Nat) : Bool := c.writtenStay rs i && c.lasts rs i rs.length

section Step

variable {dirt dirt' : Nat → Option Bool} {dirty : Bool} {entering leaving back : Nat}

/-- A stay that goes on is the one of its line. -/
theorem Accounts.dirt_eq (h : c.Accounts rs dirt) (found : rs[i]? = some q) (begins : c.begins rs i = true)
    (lasts : c.lasts rs i rs.length = true) : dirt (c.line q.address) = some (c.written rs i rs.length) := by
  have there : (dirt (c.line q.address)).isSome = true := by
    have within := (List.getElem?_eq_some_iff.mp found).1
    obtain ⟨n, le⟩ : ∃ n, rs.length = n + 1 := Nat.exists_eq_add_one_of_ne_zero (by omega)
    have last := lasts
    rw [le, lasts_succ found (by omega), ← le, Bool.and_eq_true] at last
    have all : c.upTo rs rs.length = c.after rs := by
      unfold upTo
      rw [List.take_length]
    rw [← h.contains, ← all]
    exact last.2
  obtain ⟨dirty, known⟩ := Option.isSome_iff_exists.mp there
  obtain ⟨j, r, found', same, begins', lasts', rfl⟩ := h.stay _ _ known
  rw [known, begins_unique found found' same.symm begins begins' lasts lasts']

/-- A line that is not there has no stay that goes on. -/
theorem Accounts.line_ne (h : c.Accounts rs dirt) (absent : dirt (c.line r.address) = none) (found : rs[i]? = some q)
    (begins : c.begins rs i = true) (lasts : c.lasts rs i rs.length = true) :
    c.line r.address ≠ c.line q.address := by
  intro same
  have known := h.dirt_eq found begins lasts
  rw [← same, absent] at known
  cases known

variable (after' : ∀ address, (c.after (rs ++ [r])).contains address = (dirt' (c.line address)).isSome)

include after' in
theorem lasts_step (found : (rs ++ [r])[i]? = some q) (le : i ≤ rs.length) :
    c.lasts (rs ++ [r]) i (rs ++ [r]).length =
      (c.lasts (rs ++ [r]) i rs.length && (dirt' (c.line q.address)).isSome) := by
  have all : c.upTo (rs ++ [r]) (rs.length + 1) = c.after (rs ++ [r]) := by
    unfold upTo
    rw [List.take_of_length_le (by simp)]
  rw [List.length_append, List.length_singleton, lasts_succ found le, all, after']

include after' in
/-- For an earlier reference. -/
theorem lasts_before (found : rs[i]? = some q) :
    c.lasts (rs ++ [r]) i (rs ++ [r]).length = (c.lasts rs i rs.length && (dirt' (c.line q.address)).isSome) := by
  have within := (List.getElem?_eq_some_iff.mp found).1
  have found' : (rs ++ [r])[i]? = some q := by rw [List.getElem?_append_left within, found]
  rw [lasts_step after' found' (by omega), lasts_concat within (Nat.le_refl _)]

theorem written_before (found : rs[i]? = some q) :
    c.written (rs ++ [r]) i (rs ++ [r]).length = (c.written rs i rs.length ||
      (c.lasts rs i rs.length && (r.isWrite && c.line r.address == c.line q.address))) := by
  have within := (List.getElem?_eq_some_iff.mp found).1
  have found' : (rs ++ [r])[i]? = some q := by rw [List.getElem?_append_left within, found]
  rw [List.length_append, List.length_singleton, written_succ found' List.getElem?_concat_length (by omega),
    written_concat within (Nat.le_refl _), lasts_concat within (Nat.le_refl _)]

include after' in
/-- A stay that the last reference does not end is over if it was over before. -/
theorem isOver_before (found : rs[i]? = some q)
    (there : c.begins rs i = true → c.lasts rs i rs.length = true → (dirt' (c.line q.address)).isSome = true) :
    c.isOver (rs ++ [r]) i = c.isOver rs i := by
  have within := (List.getElem?_eq_some_iff.mp found).1
  unfold isOver writtenStay
  rw [begins_concat within, lasts_before after' found, written_before found]
  cases begins : c.begins rs i with
  | false => rfl
  | true =>
    cases lasts : c.lasts rs i rs.length with
    | false => simp
    | true => simp [there begins lasts]

include after' in
/-- A stay of another line goes on as before. -/
theorem goesOn_before (found : rs[i]? = some q)
    (there : c.begins rs i = true → c.lasts rs i rs.length = true → (dirt' (c.line q.address)).isSome = true)
    (other : c.begins rs i = true → c.lasts rs i rs.length = true → c.line r.address ≠ c.line q.address) :
    c.goesOn (rs ++ [r]) i = c.goesOn rs i := by
  have within := (List.getElem?_eq_some_iff.mp found).1
  unfold goesOn writtenStay
  rw [begins_concat within, lasts_before after' found, written_before found]
  cases begins : c.begins rs i with
  | false => rfl
  | true =>
    cases lasts : c.lasts rs i rs.length with
    | false => simp
    | true => simp [there begins lasts, other begins lasts]

include after' in
/-- The stay of a line that the last reference does not touch. -/
theorem Accounts.persists (h : c.Accounts rs dirt) {line : Nat} (known : dirt line = some dirty)
    (other : line ≠ c.line r.address) (there : dirt' line = some dirty) :
    ∃ i q, (rs ++ [r])[i]? = some q ∧ c.line q.address = line ∧ c.begins (rs ++ [r]) i = true ∧
      c.lasts (rs ++ [r]) i (rs ++ [r]).length = true ∧ c.written (rs ++ [r]) i (rs ++ [r]).length = dirty := by
  obtain ⟨i, q, found, rfl, begins, lasts, written⟩ := h.stay line dirty known
  have within := (List.getElem?_eq_some_iff.mp found).1
  refine ⟨i, q, ?_, rfl, ?_, ?_, ?_⟩
  · rw [List.getElem?_append_left within, found]
  · rw [begins_concat within, begins]
  · rw [lasts_before after' found, lasts, there]
    rfl
  · rw [written_before found, written, beq_false_of_ne (Ne.symm other), Bool.and_false, Bool.and_false, Bool.or_false]

include after' in
/-- What the last reference itself begins. -/
theorem Accounts.arrives (h : c.Accounts rs dirt) (there : dirt' (c.line r.address) = some dirty) :
    c.begins (rs ++ [r]) rs.length = (dirt (c.line r.address)).isNone ∧
      c.lasts (rs ++ [r]) rs.length (rs ++ [r]).length = true ∧
      c.written (rs ++ [r]) rs.length (rs ++ [r]).length = r.isWrite := by
  have found : (rs ++ [r])[rs.length]? = some r := List.getElem?_concat_length
  refine ⟨?_, ?_, ?_⟩
  · rw [begins_concat_last, h.contains, Option.not_isSome]
  · rw [lasts_step after' found (Nat.le_refl _), lasts_self found, there]
    rfl
  · rw [List.length_append, List.length_singleton, written_succ found found (Nat.le_refl _), written_self,
      lasts_self found, beq_self_eq_true, Bool.false_or, Bool.true_and, Bool.and_true]

theorem countP_concat (f : Nat → Bool) :
    (List.range (rs ++ [r]).length).countP f = (List.range rs.length).countP f + (f rs.length).toNat := by
  rw [List.length_append, List.length_singleton, List.range_succ, List.countP_append, List.countP_singleton]
  cases f rs.length <;> rfl

theorem exists_reference (mem : i ∈ List.range rs.length) : ∃ q, rs[i]? = some q :=
  ⟨_, List.getElem?_eq_getElem (List.mem_range.mp mem)⟩

include after' in
/-- A line that is found goes on, and is written if the last reference writes it. -/
theorem Accounts.hit (h : c.Accounts rs dirt) (there : dirt (c.line r.address) = some dirty)
    (change : dirt' = Function.update dirt (c.line r.address) (some (dirty || r.isWrite))) :
    (List.range (rs ++ [r]).length).countP (c.isOver (rs ++ [r])) = (List.range rs.length).countP (c.isOver rs) ∧
      (List.range (rs ++ [r]).length).countP (c.goesOn (rs ++ [r])) + dirty.toNat =
        (List.range rs.length).countP (c.goesOn rs) + (dirty || r.isWrite).toNat := by
  have stays : ∀ {i q}, rs[i]? = some q → c.begins rs i = true → c.lasts rs i rs.length = true →
      (dirt' (c.line q.address)).isSome = true := by
    intro i q found begins lasts
    rw [change, Function.update_apply]
    split
    · rfl
    · rw [h.dirt_eq found begins lasts]
      rfl
  have last : c.begins (rs ++ [r]) rs.length = false := by
    rw [begins_concat_last, h.contains, there]
    rfl
  rw [countP_concat, countP_concat]
  constructor
  · have same : (List.range rs.length).countP (c.isOver (rs ++ [r])) = (List.range rs.length).countP (c.isOver rs) := by
      apply List.countP_congr
      intro i mem
      obtain ⟨q, found⟩ := exists_reference mem
      rw [isOver_before after' found (stays found)]
    rw [same]
    unfold isOver writtenStay
    rw [last]
    rfl
  -- the stay that the line is on is the only one that may become dirty
  · obtain ⟨i, q, found, line, begins, lasts, rfl⟩ := h.stay _ _ there
    have within := (List.getElem?_eq_some_iff.mp found).1
    have agree : ∀ j ∈ List.range rs.length, j ≠ i → c.goesOn (rs ++ [r]) j = c.goesOn rs j := by
      intro j mem other
      obtain ⟨p, found'⟩ := exists_reference mem
      refine goesOn_before after' found' (stays found') fun begins' lasts' same => other ?_
      exact begins_unique found' found (same.symm.trans line.symm) begins' begins lasts' lasts
    have counts := countP_of_agree_off List.nodup_range (List.mem_range.mpr within) agree
    have before : c.goesOn rs i = c.written rs i rs.length := by
      unfold goesOn writtenStay
      rw [begins, lasts, Bool.true_and, Bool.and_true]
    have after : c.goesOn (rs ++ [r]) i = (c.written rs i rs.length || r.isWrite) := by
      unfold goesOn writtenStay
      have stay := stays found begins lasts
      rw [begins_concat within, lasts_before after' found, written_before found]
      rw [line] at stay ⊢
      simp [begins, lasts, stay]
    rw [before, after] at counts
    have none : c.goesOn (rs ++ [r]) rs.length = false := by
      unfold goesOn writtenStay
      rw [last]
      rfl
    rw [none]
    exact counts

include after' in
/-- The stay that the last reference begins. -/
theorem Accounts.comes (h : c.Accounts rs dirt) (absent : dirt (c.line r.address) = none)
    (there : dirt' (c.line r.address) = some r.isWrite) :
    c.isOver (rs ++ [r]) rs.length = false ∧ c.goesOn (rs ++ [r]) rs.length = r.isWrite := by
  obtain ⟨begins, lasts, written⟩ := h.arrives after' there
  unfold isOver goesOn writtenStay
  rw [begins, lasts, written, absent]
  simp

include after' in
/-- A line that comes begins a stay, in which it is written if the last reference writes it. -/
theorem Accounts.miss (h : c.Accounts rs dirt) (absent : dirt (c.line r.address) = none)
    (change : dirt' = Function.update dirt (c.line r.address) (some r.isWrite)) :
    (List.range (rs ++ [r]).length).countP (c.isOver (rs ++ [r])) = (List.range rs.length).countP (c.isOver rs) ∧
      (List.range (rs ++ [r]).length).countP (c.goesOn (rs ++ [r])) =
        (List.range rs.length).countP (c.goesOn rs) + r.isWrite.toNat := by
  have stays : ∀ {i q}, rs[i]? = some q → c.begins rs i = true → c.lasts rs i rs.length = true →
      (dirt' (c.line q.address)).isSome = true := by
    intro i q found begins lasts
    rw [change, Function.update_of_ne (h.line_ne absent found begins lasts).symm, h.dirt_eq found begins lasts]
    rfl
  obtain ⟨ended, ongoing⟩ := h.comes after' absent (by rw [change, Function.update_self])
  rw [countP_concat, countP_concat, ended, ongoing]
  constructor
  · apply List.countP_congr
    intro i mem
    obtain ⟨q, found⟩ := exists_reference mem
    rw [isOver_before after' found (stays found)]
  · congr 1
    apply List.countP_congr
    intro i mem
    obtain ⟨q, found⟩ := exists_reference mem
    rw [goesOn_before after' found (stays found) (h.line_ne absent found)]

include after' in
/-- The stay of a line that leaves is over. -/
theorem Accounts.evict (h : c.Accounts rs dirt) {victim : Nat} (absent : dirt (c.line r.address) = none)
    (there : dirt victim = some dirty)
    (change : dirt' = Function.update (Function.update dirt victim none) (c.line r.address) (some r.isWrite)) :
    (List.range (rs ++ [r]).length).countP (c.isOver (rs ++ [r])) =
        (List.range rs.length).countP (c.isOver rs) + dirty.toNat ∧
      (List.range (rs ++ [r]).length).countP (c.goesOn (rs ++ [r])) + dirty.toNat =
        (List.range rs.length).countP (c.goesOn rs) + r.isWrite.toNat := by
  obtain ⟨i, q, found, rfl, begins, lasts, rfl⟩ := h.stay _ _ there
  have within := (List.getElem?_eq_some_iff.mp found).1
  -- all stays but the one that ends go on
  have stays : ∀ {j p}, j ≠ i → rs[j]? = some p → c.begins rs j = true → c.lasts rs j rs.length = true →
      (dirt' (c.line p.address)).isSome = true := by
    intro j p apart found' begins' lasts'
    have line : c.line p.address ≠ c.line q.address :=
      fun same => apart (begins_unique found' found same begins' begins lasts' lasts)
    rw [change, Function.update_of_ne (h.line_ne absent found' begins' lasts').symm, Function.update_of_ne line,
      h.dirt_eq found' begins' lasts']
    rfl
  have gone : dirt' (c.line q.address) = none := by
    rw [change, Function.update_of_ne (h.line_ne absent found begins lasts).symm, Function.update_self]
  have lasts' : c.lasts (rs ++ [r]) i (rs ++ [r]).length = false := by
    rw [lasts_before after' found, gone]
    exact Bool.and_false _
  have written : c.written (rs ++ [r]) i (rs ++ [r]).length = c.written rs i rs.length := by
    rw [written_before found, beq_false_of_ne (h.line_ne absent found begins lasts), Bool.and_false, Bool.and_false,
      Bool.or_false]
  obtain ⟨ended, ongoing⟩ := h.comes after' absent (by rw [change, Function.update_self])
  rw [countP_concat, countP_concat, ended, ongoing]
  constructor
  · have counts := countP_of_agree_off (p := c.isOver rs) (q := c.isOver (rs ++ [r])) List.nodup_range
      (List.mem_range.mpr within) (by
        intro j mem apart
        obtain ⟨p, found'⟩ := exists_reference mem
        exact isOver_before after' found' (stays apart found'))
    have before : c.isOver rs i = false := by
      unfold isOver
      rw [lasts]
      exact Bool.and_false _
    have after : c.isOver (rs ++ [r]) i = c.written rs i rs.length := by
      unfold isOver writtenStay
      rw [begins_concat within, begins, lasts', written]
      simp
    rw [before, after] at counts
    exact counts
  · have counts := countP_of_agree_off (p := c.goesOn rs) (q := c.goesOn (rs ++ [r])) List.nodup_range
      (List.mem_range.mpr within) (by
        intro j mem apart
        obtain ⟨p, found'⟩ := exists_reference mem
        exact goesOn_before after' found' (stays apart found') (h.line_ne absent found'))
    have before : c.goesOn rs i = c.written rs i rs.length := by
      unfold goesOn writtenStay
      rw [begins, lasts, Bool.true_and, Bool.and_true]
    have after : c.goesOn (rs ++ [r]) i = false := by
      unfold goesOn
      rw [lasts']
      exact Bool.and_false _
    rw [before, after] at counts
    have none : (false : Bool).toNat = 0 := rfl
    omega

include after' in
/-- A line that is there and goes on in its stay. -/
theorem Accounts.remains (h : c.Accounts rs dirt) (known : dirt (c.line r.address) = some dirty)
    (there : dirt' (c.line r.address) = some (dirty || r.isWrite)) :
    ∃ i q, (rs ++ [r])[i]? = some q ∧ c.line q.address = c.line r.address ∧ c.begins (rs ++ [r]) i = true ∧
      c.lasts (rs ++ [r]) i (rs ++ [r]).length = true ∧
      c.written (rs ++ [r]) i (rs ++ [r]).length = (dirty || r.isWrite) := by
  obtain ⟨i, q, found, line, begins, lasts, written⟩ := h.stay _ _ known
  have within := (List.getElem?_eq_some_iff.mp found).1
  refine ⟨i, q, ?_, line, ?_, ?_, ?_⟩
  · rw [List.getElem?_append_left within, found]
  · rw [begins_concat within, begins]
  · rw [lasts_before after' found, lasts, line, there]
    rfl
  · rw [written_before found, written, lasts, line, beq_self_eq_true, Bool.and_true, Bool.true_and]

include after' in
/-- The account after one more reference. -/
theorem Accounts.step (h : c.Accounts rs dirt)
    (turn : Turn (c.line r.address) r.isWrite dirt dirt' entering leaving back) :
    c.Accounts (rs ++ [r]) dirt' ∧
      (List.range (rs ++ [r]).length).countP (c.isOver (rs ++ [r])) =
        (List.range rs.length).countP (c.isOver rs) + back ∧
      (List.range (rs ++ [r]).length).countP (c.goesOn (rs ++ [r])) + leaving =
        (List.range rs.length).countP (c.goesOn rs) + entering := by
  -- a line other than the one of the reference has been there before
  have stay : ∀ line dirty, line ≠ c.line r.address → dirt' line = some dirty → dirt line = some dirty := by
    intro line dirty other known
    cases turn with
    | hit there => rwa [Function.update_of_ne other] at known
    | miss absent => rwa [Function.update_of_ne other] at known
    | @evict victim d absent there =>
      rw [Function.update_of_ne other, Function.update_apply] at known
      split at known
      · cases known
      · exact known
  refine ⟨⟨after', ?_⟩, ?_⟩
  · intro line dirty known
    by_cases own : line = c.line r.address
    · subst own
      cases was : dirt (c.line r.address) with
      | some d =>
        cases turn with
        | hit there =>
          obtain rfl := Option.some.inj (was.symm.trans there)
          rw [Function.update_self] at known
          obtain rfl := Option.some.inj known
          exact h.remains after' was (Function.update_self ..)
        | miss absent => cases was.symm.trans absent
        | evict absent there => cases was.symm.trans absent
      | none =>
        obtain ⟨begins, lasts, written⟩ := h.arrives after' known
        rw [was] at begins
        refine ⟨rs.length, r, List.getElem?_concat_length, rfl, begins, lasts, written.trans ?_⟩
        cases turn with
        | hit there => cases was.symm.trans there
        | miss absent => simpa using known
        | evict absent there => simpa using known
    · exact h.persists after' (stay line dirty own known) own known
  · cases turn with
    | hit there => exact h.hit after' there rfl
    | miss absent => exact h.miss after' absent rfl
    | evict absent there => exact h.evict after' absent there rfl

end Step

/-! ## Section 4: All references -/

/-- What the account of the stays says of a cache. -/
structure Reckoned (c : Cache) (rs : List Reference) : Prop where
  /-- The account holds of the lines of the cache. -/
  accounts : ∃ kind ways held, (c.after rs).Ranked kind ways held ∧ c.Accounts rs ((c.after rs).dirt held)
  /-- Each reference is counted once. -/
  total : (c.after rs).stats.hits + (c.after rs).stats.misses = rs.length
  /-- Each written line that has left has been written back. -/
  ended : (c.after rs).stats.writebacks = (List.range rs.length).countP (c.isOver rs)
  /-- Each written line that is there is dirty. -/
  ongoing : (c.after rs).dirtyLines = (List.range rs.length).countP (c.goesOn rs)

theorem reckoned_nil (config : CacheConfig) : (new config).Reckoned [] where
  accounts := by
    refine ⟨_, _, _, ranked_new config, ⟨fun address => (ranked_new config).contains_eq, ?_⟩⟩
    intro line dirty known
    cases known
  total := rfl
  ended := rfl
  ongoing := (ranked_new config).dirtyLines_eq.trans (Finset.sum_const_zero)

theorem Reckoned.concat (h : c.Reckoned rs) (r : Reference) : c.Reckoned (rs ++ [r]) := by
  obtain ⟨kind, ways, held, ranked, accounts⟩ := h.accounts
  obtain ⟨held', entering, leaving, back, ranked', turn, dirty, writebacks, total⟩ := ranked.turn r
  have same := sameGeometry_after c rs
  have after' : ∀ address, (c.after (rs ++ [r])).contains address =
      (((c.after rs).refer r).dirt held' (c.line address)).isSome := by
    intro address
    rw [after_concat, ranked'.contains_eq, ← (sameGeometry_after c (rs ++ [r])).line_eq, after_concat]
  rw [same.line_eq] at turn
  obtain ⟨accounts', ended, ongoing⟩ := accounts.step after' turn
  have endedNow := h.ended
  have ongoingNow := h.ongoing
  have totalNow := h.total
  constructor
  · rw [after_concat]
    exact ⟨kind, ways, held', ranked', accounts'⟩
  · rw [after_concat, total, totalNow, List.length_append, List.length_singleton]
  · rw [after_concat, ended, writebacks, endedNow]
  · rw [after_concat]
    omega

theorem reckoned (config : CacheConfig) (rs : List Reference) : (new config).Reckoned rs := by
  induction rs using List.reverseRecOn with
  | nil => exact reckoned_nil config
  | append_singleton rs r ih => exact ih.concat r

/-- A stay in which the line was written is over or goes on. -/
theorem countP_isOver_add (c : Cache) (rs : List Reference) :
    (List.range rs.length).countP (c.isOver rs) + (List.range rs.length).countP (c.goesOn rs) =
      (List.range rs.length).countP (c.writtenStay rs) := by
  have split := List.countP_eq_countP_filter_add (List.range rs.length) (c.writtenStay rs)
    fun i => c.lasts rs i rs.length
  rw [List.countP_filter, List.countP_filter] at split
  exact (Nat.add_comm _ _).trans split.symm

/-- Under a pointer a cache contains an address exactly if its line is among those of its set that missed last, as many
as there are ways.  Whatever the policy, hits and misses together count the references, the lines written back are those
of the stays that are over and in which the line was written, and together with the dirty lines they are as many as all
stays in which the line was written. -/
theorem keeps_recent_misses_and_counts_stays (config : CacheConfig) (rs : List Reference) :
    (config.policy = .fifo → ∀ address, ((new config).after rs).contains address = true ↔
      (new config).line address ∈ ((new config).linesIn ((new config).setOf ((new config).line address))
        ((new config).misses rs)).reverse.take (max config.ways 1)) ∧
    ((new config).after rs).stats.hits + ((new config).after rs).stats.misses = rs.length ∧
    ((new config).after rs).stats.writebacks = (List.range rs.length).countP ((new config).isOver rs) ∧
    ((new config).after rs).stats.writebacks + ((new config).after rs).dirtyLines =
      (List.range rs.length).countP ((new config).writtenStay rs) := by
  have h := reckoned config rs
  refine ⟨?_, h.total, h.ended, ?_⟩
  · intro policy address
    obtain ⟨held, shows⟩ := shows_fifo policy rs
    have same := sameGeometry_after (new config) rs
    rw [shows.contains_iff, same.line_eq, same.setOf_eq]
  · rw [h.ended, h.ongoing, countP_isOver_add]

/-- The first line is written, found again, and evicted by the third; then it comes back. -/
def evicting : List Reference := [⟨0x00, true⟩, ⟨0x40, false⟩, ⟨0x08, false⟩, ⟨0x80, true⟩, ⟨0x00, false⟩]

theorem keeps_recent_misses_and_counts_stays_of_two_ways :
    (singleSet .fifo 2).policy = .fifo ∧ ((new (singleSet .fifo 2)).after evicting).contains 0x40 = false ∧
      ((new (singleSet .fifo 2)).after evicting).contains 0x80 = true ∧
      ((new (singleSet .fifo 2)).after evicting).stats.hits +
        ((new (singleSet .fifo 2)).after evicting).stats.misses = 5 ∧
      ((new (singleSet .fifo 2)).after evicting).stats.writebacks = 1 ∧
      ((new (singleSet .fifo 2)).after evicting).dirtyLines = 1 := by
  obtain ⟨keeps, total, ended, all⟩ := keeps_recent_misses_and_counts_stays (singleSet .fifo 2) evicting
  have back : ((new (singleSet .fifo 2)).after evicting).stats.writebacks = 1 := ended.trans (by decide)
  refine ⟨rfl, ?_, (keeps rfl 0x80).mpr (by decide), total, back, ?_⟩
  · exact Bool.eq_false_iff.mpr (mt (keeps rfl 0x40).mp (by decide))
  · rw [back] at all
    exact Nat.add_left_cancel (all.trans (by decide))

end Cache

end CoreTiming
