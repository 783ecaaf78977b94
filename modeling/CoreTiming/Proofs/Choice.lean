import Mathlib.Algebra.Group.Nat.Defs
import Mathlib.Data.Nat.Find
import Mathlib.Data.Nat.Size
import Mathlib.Order.Bounds.Basic
import CoreTiming.Proofs.Standstill

/-!
# Whom a release selects

Once every running slot is parked, a release selects one of them: the first that lacks micro-ops or, if none
does, the first with fewer micro-ops buffered than a limit, which doubles until there is such a slot.

Both passes look through the slots in their order and stop at the first that fits, so each of them is a
search of the list of slot numbers (`releaseNeedy_eq`, `releaseBelow_eq`).  The limits below the least power
of two above the smallest surplus find nobody and leave everything alone; that power of two finds the slot
that is selected (`releaseLeast_eq`).  Then the release is over, whatever number of limits it could still
have tried (`release_selects_one`).
-/

namespace CoreTiming

open Faulting

namespace Barrier

variable {E : Type} {b : Barrier E} {t u : Nat} {caller : Option Nat} {r : Release}
  {enough : Nat → Bool} {surplus : Nat → Nat} {limit rounds : Nat}

/-! ## Section 1: Barriers that wait for a release -/

/-- The barrier has been reached, only slots that run are parked, and so is the caller of the release, if
there is one. -/
structure Complete (caller : Option Nat) (b : Barrier E) : Prop where
  /-- Every running slot is parked, and there is a parked slot. -/
  reached : b.isReached = true
  /-- Whoever is parked runs. -/
  running : ∀ (t : Nat) (s : Slot), b.slots[t]? = some s → s.inBarrier = true → s.running = true
  /-- The caller is parked. -/
  parked : ∀ t, caller = some t → b.isParked? t = some true

/-- What the engine says of the parked slots: whether each of them has enough micro-ops, and how many are
buffered for it. -/
structure Answers [SharedEngine E] (enough : Nat → Bool) (surplus : Nat → Nat) (b : Barrier E) : Prop where
  /-- Whether a slot needs no more micro-ops. -/
  enough : ∀ t, b.isParked? t = some true → SharedEngine.hasEnough b.engine t = .ok (enough t)
  /-- How many micro-ops are buffered. -/
  surplus : ∀ t, b.isParked? t = some true → SharedEngine.surplus b.engine t = .ok (surplus t)

/-- The barrier after slot `t` has been selected: it drives, and it is woken unless it is the caller. -/
def letGo (caller : Option Nat) (t : Nat) (b : Barrier E) : Barrier E :=
  { (if caller = some t then b else b.wake t) with driver := some t }

/-- Slot `t` has been selected and nobody else: it drives, and either it is woken or it is the caller, which
is told so and clears its flag on its own.  All other slots are as they were. -/
structure Selects (caller : Option Nat) (t : Nat) (me : Bool) (b b' : Barrier E) : Prop where
  /-- The slot was parked. -/
  was : b.isParked? t = some true
  /-- It is the one that drives the engine. -/
  driver : b'.driver = some t
  /-- The caller is told if it is the one. -/
  told : me = true ↔ caller = some t
  /-- It is woken if it is not the caller. -/
  woken : b'.isParked? t = some (decide (caller = some t))
  /-- Nothing happens to the other slots. -/
  others : ∀ u, u ≠ t → b'.slots[u]? = b.slots[u]?
  /-- Neither the engine nor who runs changes. -/
  backdrop : b'.backdrop = b.backdrop

theorem backdrop_letGo (caller : Option Nat) (t : Nat) (b : Barrier E) :
    (b.letGo caller t).backdrop = b.backdrop := by
  unfold letGo
  split
  · rfl
  · exact backdrop_wake t b

theorem selects_letGo (parked : b.isParked? t = some true) :
    Selects caller t (decide (caller = some t)) b (b.letGo caller t) where
  was := parked
  driver := rfl
  told := decide_eq_true_iff
  woken := by
    by_cases me : caller = some t
    · simpa [letGo, me, isParked?] using parked
    · have woken := isParked?_wake_self t b (by simp [parked])
      simpa [letGo, me, isParked?] using woken
  others u other := by
    by_cases me : caller = some t
    · simp [letGo, me]
    · simp [letGo, me, getElem?_wake, Ne.symm other]
  backdrop := backdrop_letGo caller t b

/-- Who drives does not matter. -/
theorem Complete.withDriver (complete : b.Complete caller) (driver : Option Nat) :
    ({ b with driver } : Barrier E).Complete caller :=
  ⟨complete.reached, complete.running, complete.parked⟩

theorem Answers.withDriver [SharedEngine E] (answers : b.Answers enough surplus) (driver : Option Nat) :
    ({ b with driver } : Barrier E).Answers enough surplus :=
  ⟨answers.enough, answers.surplus⟩

theorem letGo_withDriver (caller : Option Nat) (t : Nat) (driver : Option Nat) (b : Barrier E) :
    ({ b with driver } : Barrier E).letGo caller t = b.letGo caller t := by
  unfold letGo
  split
  · rfl
  · rfl

/-- A slot that is not parked does not run. -/
theorem Complete.idle (complete : b.Complete caller) {s : Slot} (found : b.slots[t]? = some s)
    (out : s.inBarrier = false) : s.running = false := by
  have reached := complete.reached
  simp only [isReached, Bool.and_eq_true, Array.all_eq_true] at reached
  obtain ⟨inside, rfl⟩ := Array.getElem?_eq_some_iff.mp found
  simpa [out] using reached.1.2 t inside

theorem Complete.exists_parked (complete : b.Complete caller) : ∃ t, b.isParked? t = some true := by
  have reached := complete.reached
  simp only [isReached, Bool.and_eq_true, Array.any_eq_true] at reached
  obtain ⟨t, inside, parked⟩ := reached.2
  exact ⟨t, by simp [isParked?, Array.getElem?_eq_getElem inside, parked]⟩

theorem mem_range_of_isParked? (parked : b.isParked? t = some true) : t ∈ List.range b.slots.size := by
  obtain ⟨s, found, -⟩ := Option.map_eq_some_iff.mp parked
  exact List.mem_range.mpr (Array.getElem?_eq_some_iff.mp found).1

/-- The first slot number that fits, if one does. -/
theorem exists_first {fits : Nat → Bool} (within : ∀ t, fits t = true → b.isParked? t = some true)
    (somebody : ∃ t, fits t = true) :
    ∃ t, (List.range b.slots.size).find? fits = some t ∧ fits t = true ∧ ∀ u < t, fits u = false := by
  obtain ⟨u, fit⟩ := somebody
  have some : ((List.range b.slots.size).find? fits).isSome = true :=
    List.find?_isSome.mpr ⟨u, mem_range_of_isParked? (within u fit), fit⟩
  obtain ⟨t, found⟩ := Option.isSome_iff_exists.mp some
  have first := List.find?_range_eq_some.mp found
  exact ⟨t, found, first.1, fun u earlier => by simpa using first.2.2 u earlier⟩

/-! ## Section 2: Both passes are searches -/

/-- Whether a slot is parked and lacks micro-ops. -/
def lacks (enough : Nat → Bool) (b : Barrier E) (t : Nat) : Bool := b.isParked? t == some true && !enough t

/-- Whether a slot is parked and has less than `limit` micro-ops buffered. -/
def isBelow (surplus : Nat → Nat) (limit : Nat) (b : Barrier E) (t : Nat) : Bool :=
  b.isParked? t == some true && decide (surplus t < limit)

theorem lacks_eq_true : b.lacks enough t = true ↔ b.isParked? t = some true ∧ enough t = false := by
  simp [lacks]

theorem isBelow_eq_true : b.isBelow surplus limit t = true ↔ b.isParked? t = some true ∧ surplus t < limit := by
  simp [isBelow]

variable [SharedEngine E]

omit [SharedEngine E] in
theorem select_eq : select false caller t r b =
    .ok (if caller = some t then { r with selectsCaller := true } else r) (b.letGo caller t) := by
  by_cases me : caller = some t
  · simp [select, me, letGo]
    rfl
  · simp [select, me, letGo]
    rfl

theorem releaseNeedy_eq (complete : b.Complete caller) (answers : b.Answers enough surplus) (ts : List Nat)
    (inside : ∀ t ∈ ts, t < b.slots.size) :
    releaseNeedy false caller ts r b =
      match ts.find? (b.lacks enough) with
      | none => .ok r b
      | some t => select false caller t { r with active := r.active + 1 } b := by
  induction ts with
  | nil => rfl
  | cons t rest ih =>
    obtain ⟨s, found⟩ : ∃ s, b.slots[t]? = some s :=
      ⟨_, Array.getElem?_eq_getElem (inside t List.mem_cons_self)⟩
    have ih := ih fun u mem => inside u (List.mem_cons_of_mem _ mem)
    rw [releaseNeedy, get_bind, slot_eq_ok.mpr found, ofExcept_ok_bind]
    cases parked : s.inBarrier with
    | false =>
      have idle := complete.idle found parked
      have fits : b.lacks enough t = false := by simp [lacks, isParked?, found, parked]
      simpa [idle, List.find?_cons, fits] using ih
    | true =>
      have waits : b.isParked? t = some true := by simp [isParked?, found, parked]
      have runs := complete.running t s found parked
      rw [if_neg (by simp), answers.enough t waits, ofExcept_ok_bind]
      cases plenty : enough t with
      | true =>
        have fits : b.lacks enough t = false := by simp [lacks, plenty]
        simpa [List.find?_cons, fits] using ih
      | false =>
        have fits : b.lacks enough t = true := lacks_eq_true.mpr ⟨waits, plenty⟩
        simp [fits, runs]

theorem releaseBelow_eq (complete : b.Complete caller) (answers : b.Answers enough surplus) (ts : List Nat)
    (inside : ∀ t ∈ ts, t < b.slots.size) :
    releaseBelow limit false caller ts r b =
      match ts.find? (b.isBelow surplus limit) with
      | none => .ok r b
      | some t => select false caller t { r with active := r.active + 1 } b := by
  induction ts with
  | nil => rfl
  | cons t rest ih =>
    obtain ⟨s, found⟩ : ∃ s, b.slots[t]? = some s :=
      ⟨_, Array.getElem?_eq_getElem (inside t List.mem_cons_self)⟩
    have ih := ih fun u mem => inside u (List.mem_cons_of_mem _ mem)
    rw [releaseBelow, get_bind, slot_eq_ok.mpr found, ofExcept_ok_bind]
    cases parked : s.inBarrier with
    | false =>
      have fits : b.isBelow surplus limit t = false := by simp [isBelow, isParked?, found, parked]
      simpa [List.find?_cons, fits] using ih
    | true =>
      have waits : b.isParked? t = some true := by simp [isParked?, found, parked]
      have runs := complete.running t s found parked
      rw [if_neg (by simp [runs]), answers.surplus t waits, ofExcept_ok_bind]
      by_cases plenty : limit ≤ surplus t
      · have fits : b.isBelow surplus limit t = false := by simp [isBelow, plenty]
        simpa [runs, plenty, List.find?_cons, fits] using ih
      · have fits : b.isBelow surplus limit t = true := isBelow_eq_true.mpr ⟨waits, by omega⟩
        simp [plenty, fits]

/-! ## Section 3: The limit doubles -/

omit [SharedEngine E] in
theorem Complete.exists_waiting (complete : b.Complete caller) :
    b.slots.any (fun s => s.inBarrier && s.running) = true := by
  obtain ⟨t, parked⟩ := complete.exists_parked
  obtain ⟨s, found, waits⟩ := Option.map_eq_some_iff.mp parked
  have runs := complete.running t s found waits
  obtain ⟨inside, rfl⟩ := Array.getElem?_eq_some_iff.mp found
  exact Array.any_eq_true.mpr ⟨t, inside, by simp [waits, runs]⟩

/-- Once somebody is active, no further limit is tried. -/
theorem releaseLeast_of_active (active : r.active ≠ 0) :
    releaseLeast false caller rounds limit r b = .ok r b := by
  cases rounds with
  | zero => rfl
  | succ rounds =>
    rw [releaseLeast, get_bind, if_pos (by simp [active])]
    rfl

/-- A limit is tried, and if nobody is below it, the doubled one. -/
theorem releaseLeast_succ (complete : b.Complete caller) (idle : r.active = 0) :
    releaseLeast false caller (rounds + 1) limit r b = (do
      let r ← releaseBelow limit false caller (List.range b.slots.size) r
      releaseLeast false caller rounds (min (2 * limit) Word.max) r) b := by
  rw [releaseLeast, get_bind, if_neg (by simp [idle, complete.exists_waiting])]

/-- If nobody is below the first `n` limits, and somebody is below the next one, then the first such slot is
selected, and the search is over. -/
theorem releaseLeast_eq (complete : b.Complete caller) (answers : b.Answers enough surplus) (idle : r.active = 0)
    {j n : Nat} (within : 2 ^ (j + n) ≤ Word.max) (left : n < rounds)
    (above : ∀ i < n, ∀ u, b.isParked? u = some true → 2 ^ (j + i) ≤ surplus u)
    (found : (List.range b.slots.size).find? (b.isBelow surplus (2 ^ (j + n))) = some t) :
    releaseLeast false caller rounds (2 ^ j) r b = select false caller t { r with active := 1 } b := by
  -- the induction is on the limits that find nobody
  induction n generalizing j rounds with
  | zero =>
    obtain ⟨rounds, rfl⟩ := Nat.exists_eq_succ_of_ne_zero (Nat.ne_of_gt left)
    have below : releaseBelow (2 ^ j) false caller (List.range b.slots.size) r b = _ :=
      releaseBelow_eq complete answers _ fun t => List.mem_range.mp
    rw [Nat.add_zero] at found
    rw [found, idle] at below
    have selected : select false caller t { r with active := 0 + 1 } b = .ok _ _ := select_eq
    rw [releaseLeast_succ complete idle, bind_of_ok (below.trans selected), releaseLeast_of_active, selected]
    split
    all_goals exact Nat.one_ne_zero
  | succ n ih =>
    obtain ⟨rounds, rfl⟩ := Nat.exists_eq_succ_of_ne_zero (Nat.ne_zero_of_lt left)
    have nobody : (List.range b.slots.size).find? (b.isBelow surplus (2 ^ j)) = none := by
      rw [List.find?_eq_none]
      intro u _ fits
      obtain ⟨parked, less⟩ := isBelow_eq_true.mp fits
      exact absurd less (Nat.not_lt.mpr (above 0 n.succ_pos u parked))
    have below : releaseBelow (2 ^ j) false caller (List.range b.slots.size) r b = _ :=
      releaseBelow_eq complete answers _ fun t => List.mem_range.mp
    rw [nobody] at below
    -- the doubled limit still fits into a word
    have doubled : min (2 * 2 ^ j) Word.max = 2 ^ (j + 1) := by
      rw [← Nat.pow_succ']
      exact Nat.min_eq_left ((Nat.pow_le_pow_right Nat.two_pos (by omega)).trans within)
    rw [releaseLeast_succ complete idle, bind_of_ok below, doubled]
    have shift (i : Nat) : j + 1 + i = j + (i + 1) := by omega
    refine ih ?_ (Nat.lt_of_succ_lt_succ left) (fun i less u parked => ?_) ?_
    · rwa [shift]
    · rw [shift]
      exact above (i + 1) (Nat.succ_lt_succ less) u parked
    · rwa [shift]

/-! ## Section 4: The slot that is selected -/

/-- A release that tries at most `rounds` limits. -/
def releaseWithin (rounds : Nat) (releaseAll : Bool) (caller : Option Nat) : Faulting (Barrier E) Bool := do
  modify fun b => { b with driver := caller }
  let r ← releaseNeedy releaseAll caller (List.range (← get).slots.size) {}
  let r ← releaseLeast releaseAll caller rounds 1 r
  pure r.selectsCaller

theorem releaseWithin_releaseRounds {releaseAll : Bool} :
    releaseWithin releaseRounds releaseAll caller = (release releaseAll caller : Faulting (Barrier E) Bool) := rfl

/-- A release selects whomever its two passes select. -/
theorem releaseWithin_eq
    (passes : (releaseNeedy false caller (List.range b.slots.size) {} >>= releaseLeast false caller rounds 1)
        { b with driver := caller } = select false caller t { active := 1 } { b with driver := caller }) :
    releaseWithin rounds false caller b = .ok (decide (caller = some t)) (b.letGo caller t) := by
  rw [select_eq, letGo_withDriver] at passes
  rw [releaseWithin, modify_bind, get_bind, ← bind_assoc, bind_of_ok passes]
  by_cases me : caller = some t
  · simp [me]
    rfl
  · simp [me]
    rfl

/-- If a slot lacks micro-ops, the first such slot is selected. -/
theorem releaseWithin_of_lacks (complete : b.Complete caller) (answers : b.Answers enough surplus)
    (found : (List.range b.slots.size).find? (b.lacks enough) = some t) :
    releaseWithin rounds false caller b = .ok (decide (caller = some t)) (b.letGo caller t) := by
  have needy := releaseNeedy_eq (r := {}) (complete.withDriver caller) (answers.withDriver caller)
    (List.range b.slots.size) fun t => List.mem_range.mp
  rw [show (List.range b.slots.size).find? (({ b with driver := caller } : Barrier E).lacks enough) = some t
    from found] at needy
  have selected : select false caller t { active := 1 } { b with driver := caller } = .ok _ _ := select_eq
  -- the slot that has been selected is active, so no limit is tried
  refine releaseWithin_eq ?_
  rw [bind_of_ok (needy.trans selected), releaseLeast_of_active, selected]
  split
  all_goals exact Nat.one_ne_zero

/-- If no slot lacks micro-ops, the first slot below the first limit that somebody is below is selected. -/
theorem releaseWithin_of_isBelow (complete : b.Complete caller) (answers : b.Answers enough surplus)
    (plenty : ∀ u, b.isParked? u = some true → enough u = true) {n : Nat} (within : 2 ^ n ≤ Word.max)
    (left : n < rounds) (above : ∀ i < n, ∀ u, b.isParked? u = some true → 2 ^ i ≤ surplus u)
    (found : (List.range b.slots.size).find? (b.isBelow surplus (2 ^ n)) = some t) :
    releaseWithin rounds false caller b = .ok (decide (caller = some t)) (b.letGo caller t) := by
  have needy := releaseNeedy_eq (r := {}) (complete.withDriver caller) (answers.withDriver caller)
    (List.range b.slots.size) fun t => List.mem_range.mp
  have nobody : (List.range b.slots.size).find? (({ b with driver := caller } : Barrier E).lacks enough) = none := by
    rw [List.find?_eq_none]
    intro u _ fits
    obtain ⟨parked, lacks⟩ := lacks_eq_true.mp fits
    simp [plenty u parked] at lacks
  rw [nobody] at needy
  rw [← Nat.zero_add n] at within found
  refine releaseWithin_eq ?_
  rw [bind_of_ok needy]
  refine releaseLeast_eq (j := 0) (complete.withDriver caller) (answers.withDriver caller) rfl within left ?_ found
  intro i less u parked
  rw [Nat.zero_add]
  exact above i less u parked

omit [SharedEngine E] in
theorem exists_least_surplus (surplus : Nat → Nat) (complete : b.Complete caller) :
    ∃ m, IsLeast {n | ∃ u, b.isParked? u = some true ∧ surplus u = n} m := by
  obtain ⟨t, parked⟩ := complete.exists_parked
  have somebody : ∃ n, ∃ u, b.isParked? u = some true ∧ surplus u = n := ⟨_, t, parked, rfl⟩
  classical exact ⟨Nat.find somebody, Nat.find_spec somebody, fun n => Nat.find_min' somebody⟩

theorem isLeast_two_pow_size (m : Nat) : IsLeast {p | m < p ∧ ∃ k, p = 2 ^ k} (2 ^ m.size) := by
  refine ⟨⟨Nat.lt_size_self m, _, rfl⟩, ?_⟩
  rintro p ⟨less, k, rfl⟩
  exact Nat.pow_le_pow_right Nat.two_pos (Nat.size_le.mpr less)

theorem two_pow_size_le {m : Nat} (some : 1 ≤ m) : 2 ^ m.size ≤ 2 * m := by
  obtain ⟨k, size⟩ := Nat.exists_eq_succ_of_ne_zero (Nat.ne_of_gt (Nat.size_pos.mpr some))
  have low : 2 ^ k ≤ m := Nat.lt_size.mp (by omega)
  rw [size, Nat.pow_succ']
  exact Nat.mul_le_mul_left 2 low

/-- In a barrier that has been reached and in which whoever is parked runs, a release on behalf of nobody or
of a parked slot comes to an end, however many limits it may try, and selects exactly one slot.  It is the
first that lacks micro-ops, if there is one.  Otherwise it is the first that has less buffered than the least
power of two above the smallest number of buffered micro-ops, `m`: it has less than `2 * m`, or nothing. -/
theorem release_selects_one (complete : b.Complete caller) (answers : b.Answers enough surplus)
    (small : ∀ t, b.isParked? t = some true → surplus t < 2 ^ 63) :
    ∃ t me b', release false caller b = .ok me b' ∧
      (∀ rounds, releaseRounds ≤ rounds → releaseWithin rounds false caller b = .ok me b') ∧
      Selects caller t me b b' ∧
      ((∃ u, b.isParked? u = some true ∧ enough u = false) →
        enough t = false ∧ ∀ u < t, b.isParked? u = some true → enough u = true) ∧
      ((∀ u, b.isParked? u = some true → enough u = true) →
        ∃ m limit, IsLeast {n | ∃ u, b.isParked? u = some true ∧ surplus u = n} m ∧
          IsLeast {p | m < p ∧ ∃ k, p = 2 ^ k} limit ∧
          surplus t < limit ∧ (∀ u < t, b.isParked? u = some true → limit ≤ surplus u) ∧
          (m = 0 → surplus t = 0) ∧ (1 ≤ m → surplus t < 2 * m)) := by
  by_cases needy : ∃ u, b.isParked? u = some true ∧ enough u = false
  · obtain ⟨t, found, fits, first⟩ :=
      exists_first (fun t fits => (lacks_eq_true.mp fits).1) (needy.imp fun u => lacks_eq_true.mpr)
    obtain ⟨parked, lacks⟩ := lacks_eq_true.mp fits
    have selected (rounds : Nat) : releaseWithin rounds false caller b = _ :=
      releaseWithin_of_lacks complete answers found
    refine ⟨t, _, _, selected releaseRounds, fun rounds _ => selected rounds, selects_letGo parked,
      fun _ => ⟨lacks, fun u earlier waits => ?_⟩, fun plenty => ?_⟩
    · have unfit := first u earlier
      simpa [Barrier.lacks, waits] using unfit
    · obtain ⟨u, waits, lacks⟩ := needy
      simp [plenty u waits] at lacks
  · have plenty (u : Nat) (waits : b.isParked? u = some true) : enough u = true := by
      by_contra lacks
      exact needy ⟨u, waits, by simpa using lacks⟩
    obtain ⟨m, ⟨v, waits, rfl⟩, above⟩ := exists_least_surplus surplus complete
    have below : b.isBelow surplus (2 ^ (surplus v).size) v = true :=
      isBelow_eq_true.mpr ⟨waits, Nat.lt_size_self _⟩
    obtain ⟨t, found, fits, first⟩ := exists_first (fun t fits => (isBelow_eq_true.mp fits).1) ⟨v, below⟩
    obtain ⟨parked, less⟩ := isBelow_eq_true.mp fits
    have bounded : (surplus v).size ≤ 63 := Nat.size_le.mpr (small v waits)
    have selected (rounds : Nat) (many : releaseRounds ≤ rounds) : releaseWithin rounds false caller b = _ :=
      releaseWithin_of_isBelow complete answers plenty
        ((Nat.pow_le_pow_right Nat.two_pos bounded).trans (by decide))
        (Nat.lt_of_lt_of_le (Nat.lt_succ_of_le (bounded.trans (by decide : 63 ≤ 64))) many)
        (fun i earlier u waits => (Nat.lt_size.mp earlier).trans (above ⟨u, waits, rfl⟩)) found
    refine ⟨t, _, _, selected releaseRounds le_rfl, selected, selects_letGo parked,
      fun lacking => absurd lacking needy, fun _ =>
        ⟨surplus v, 2 ^ (surplus v).size, ⟨⟨v, waits, rfl⟩, above⟩, isLeast_two_pow_size _, less,
          fun u earlier waits => ?_, fun none => ?_, fun some => ?_⟩⟩
    · have unfit := first u earlier
      simpa [isBelow, waits] using unfit
    · rw [none, Nat.size_zero] at less
      omega
    · exact less.trans_le (two_pow_size_le some)

/-- Three parked slots, none of which lacks micro-ops. -/
def threeParked : Barrier PlannedEngine where
  slots := Array.ofFn fun i : Fin 3 => { core := i, app := some i, running := true, inBarrier := true }
  engine := { slots := #[⟨300, true, false⟩, ⟨150, true, false⟩, ⟨130, true, false⟩] }

/-- The last of three slots performs a release.  It has the fewest micro-ops, but the slot before it is below
256 as well, and is selected. -/
theorem release_selects_one_of_three :
    let surplus (t : Nat) := #[300, 150, 130].getD t 0
    threeParked.Complete (some 2) ∧ threeParked.Answers (fun _ => true) surplus ∧
      (∀ t, threeParked.isParked? t = some true → surplus t < 2 ^ 63) ∧
      ∃ b', release false (some 2) threeParked = .ok false b' ∧ Selects (some 2) 1 false threeParked b' := by
  intro surplus
  have inside (t : Nat) (parked : threeParked.isParked? t = some true) : t < 3 :=
    List.mem_range.mp (mem_range_of_isParked? parked)
  have complete : threeParked.Complete (some 2) := by
    refine ⟨by decide +kernel, fun t s found _ => ?_, fun t same => ?_⟩
    · obtain ⟨_, rfl⟩ := Array.getElem?_eq_some_iff.mp found
      simp [threeParked]
    · cases same
      rfl
  have answers : threeParked.Answers (fun _ => true) surplus := by
    refine ⟨fun t parked => ?_, fun t parked => ?_⟩
    all_goals match t, inside t parked with | 0, _ | 1, _ | 2, _ => rfl
  have small (t : Nat) (parked : threeParked.isParked? t = some true) : surplus t < 2 ^ 63 := by
    match t, inside t parked with | 0, _ | 1, _ | 2, _ => decide
  refine ⟨complete, answers, small, ?_⟩
  obtain ⟨t, me, b', released, -, selects, -, -⟩ := release_selects_one complete answers small
  have driver : (match release false (some 2) threeParked with
    | .ok _ b => b.driver
    | .error _ _ => none) = some 1 := by decide +kernel
  rw [released] at driver
  obtain rfl : t = 1 := Option.some.inj (selects.driver.symm.trans driver)
  obtain rfl : me = false := by simpa using selects.told
  exact ⟨b', released, selects⟩

end Barrier

end CoreTiming
