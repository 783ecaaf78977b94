import CoreTiming.Clock
import CoreTiming.Proofs.Outcome

/-!
# Rounding a time to whole periods

A time is rounded to the number of periods that is nearest to it, and upwards from the middle between two of them.  In
exact arithmetic this is the one whole number for which the time lies in the stretch of one period that begins half a
period before it (`Time.Nearest`, `Time.nearest_iff`).

The sum of the time and half a period is formed in a word, though, and is not cut off at the end of time as all other
sums of times are.  So the rounding yields the nearest number up to half a period before that end, the times of whole
cycles included, and is an overflow behind it (`Time.rounds_to_nearest_in_range`): the time that stands for what has not
happened cannot be rounded to any period of more than one femtosecond (`Time.never_overflows_rounding`).
-/

namespace CoreTiming

namespace Time

variable {t s period : Time} {q : Nat}

/-! ## Section 1: The nearest number of periods -/

/-- `t` lies in the stretch of one period that begins half a period, rounded down, before `n` periods. -/
def Nearest (t period : Time) (n : Int) : Prop :=
  n * period.toNat - (period.toNat / 2 : Nat) ≤ t.toNat ∧
    t.toNat < n * period.toNat - (period.toNat / 2 : Nat) + period.toNat

instance (t period : Time) (n : Int) : Decidable (Nearest t period n) :=
  inferInstanceAs (Decidable (_ ∧ _))

/-- There is exactly one such number. -/
theorem nearest_iff (pos : 0 < period.toNat) (n : Int) :
    Nearest t period n ↔ n = ((t.toNat + period.toNat / 2) / period.toNat : Nat) := by
  have positive : (0 : Int) < period.toNat := Int.natCast_pos.mpr pos
  -- the two bounds of the quotient say when the time lies in the stretch
  have below := Int.le_ediv_iff_mul_le (a := n) (b := (t.toNat + period.toNat / 2 : Nat)) positive
  have above := Int.ediv_lt_iff_lt_mul (a := (t.toNat + period.toNat / 2 : Nat)) (b := n + 1) positive
  rw [Int.add_mul, Int.one_mul] at above
  rw [Int.natCast_ediv]
  unfold Nearest
  constructor
  · rintro ⟨least, most⟩
    have atLeast := below.mpr (by omega)
    have atMost := above.mpr (by omega)
    omega
  · intro quotient
    have begun := below.mp (by omega)
    have unfinished := above.mp (by omega)
    omega

/-! ## Section 2: The range in which the sum is a word -/

theorem ne_zero_of_pos (pos : 0 < period.toNat) : period ≠ 0 := by
  rintro rfl
  exact absurd pos (Nat.lt_irrefl 0)

/-- The rounding goes through exactly as long as half a period can be added. -/
theorem divideRounded_eq_ok_iff (pos : 0 < period.toNat) :
    t.divideRounded period = .ok q ↔
      t.toNat + period.toNat / 2 ≤ Word.max ∧ q = (t.toNat + period.toNat / 2) / period.toNat := by
  unfold divideRounded
  rw [if_neg (ne_zero_of_pos pos)]
  simp only [Except.bind_eq_ok, Word.add_eq_ok_iff, Except.pure_eq_ok]
  constructor
  · rintro ⟨_, ⟨fits, rfl⟩, rfl⟩
    exact ⟨fits, rfl⟩
  · rintro ⟨fits, rfl⟩
    exact ⟨_, ⟨fits, rfl⟩, rfl⟩

theorem divideRounded_eq_error (pos : 0 < period.toNat) (exceeds : Word.max < t.toNat + period.toNat / 2) :
    t.divideRounded period = .error .arithmeticOverflow := by
  unfold divideRounded
  rw [if_neg (ne_zero_of_pos pos), Word.add, if_neg (Nat.not_le_of_lt exceeds)]
  rfl

/-- What is rounded in range is rounded to the nearest number, which is a word. -/
theorem exists_nearest_of_fits (pos : 0 < period.toNat) (fits : t.toNat + period.toNat / 2 ≤ Word.max) :
    ∃ q : Nat, t.divideRounded period = .ok q ∧ q ≤ Word.max ∧ ∀ n, Nearest t period n ↔ n = q :=
  ⟨_, (divideRounded_eq_ok_iff pos).mpr ⟨fits, rfl⟩, Nat.le_trans (Nat.div_le_self _ _) fits, nearest_iff pos⟩

/-- Whatever is earlier than a time in range is in range, and is not rounded to more. -/
theorem divideRounded_mono (pos : 0 < period.toNat) (earlier : s ≤ t) (rounded : t.divideRounded period = .ok q) :
    ∃ r ≤ q, s.divideRounded period = .ok r := by
  obtain ⟨fits, rfl⟩ := (divideRounded_eq_ok_iff pos).mp rounded
  have sum : s.toNat + period.toNat / 2 ≤ t.toNat + period.toNat / 2 :=
    Nat.add_le_add_right (le_iff_toNat_le.mp earlier) _
  exact ⟨_, Nat.div_le_div_right sum, (divideRounded_eq_ok_iff pos).mpr ⟨Nat.le_trans sum fits, rfl⟩⟩

end Time

/-! ## Section 3: Cycles and back -/

namespace Period

variable {p : Period} {n : Nat}

theorem toNat_cycles_of_le (within : p.length.toNat * n ≤ Time.limit) :
    (p.cycles n).toNat = p.length.toNat * n := by
  rw [toNat_cycles, Nat.min_eq_left within]

/-- Whole cycles that do not run into the end of time are counted again. -/
theorem toCycles_cycles (within : p.length.toNat * n ≤ Time.limit) : p.toCycles (p.cycles n) = n := by
  unfold toCycles
  rw [toNat_cycles_of_le within, Nat.mul_div_cancel_left n p.length_pos]

/-- Half a period more than some periods is still that many. -/
theorem add_half_div (p : Period) (n : Nat) :
    (p.length.toNat * n + p.length.toNat / 2) / p.length.toNat = n := by
  have pos := p.length_pos
  rw [Nat.mul_add_div pos, Nat.div_eq_of_lt (Nat.div_lt_self pos Nat.one_lt_two), Nat.add_zero]

/-- The time of some cycles is rounded to that many, if it and half a cycle more are within the range. -/
theorem divideRounded_cycles (fits : p.length.toNat * n + p.length.toNat / 2 ≤ Word.max) :
    (p.cycles n).divideRounded p.length = .ok n := by
  apply (Time.divideRounded_eq_ok_iff p.length_pos).mpr
  rw [toNat_cycles_of_le (Nat.le_trans (Nat.le_add_right _ _) fits), p.add_half_div]
  exact ⟨fits, rfl⟩

/-- Otherwise the rounding overflows, also where the time has stopped at its end. -/
theorem divideRounded_cycles_of_exceeds (word : n ≤ Word.max)
    (exceeds : Word.max < p.length.toNat * n + p.length.toNat / 2) :
    (p.cycles n).divideRounded p.length = .error .arithmeticOverflow := by
  apply Time.divideRounded_eq_error p.length_pos
  rcases Nat.le_total (p.length.toNat * n) Time.limit with within | beyond
  · rw [toNat_cycles_of_le within]
    exact exceeds
  · -- a period of one femtosecond is too short for that
    have long : p.length.toNat ≠ 1 := by
      intro one
      rw [one, Nat.one_mul] at exceeds
      omega
    have pos := p.length_pos
    have half : 1 ≤ p.length.toNat / 2 := (Nat.le_div_iff_mul_le Nat.two_pos).mpr (by omega)
    rw [toNat_cycles, Nat.min_eq_right beyond]
    exact Nat.lt_add_of_pos_right half

end Period

/-! ## Section 4: Within the range and beyond it -/

namespace Time

/-- A time is rounded to the one number of periods that is nearest to it, as long as half a period can be added to it
within a word, and the rounding overflows otherwise; no time in range is rounded to less than an earlier one, which is
in range as well.  The time of whole cycles that does not run into the end of time is divided into that many again, and
rounded to that many under the same condition. -/
theorem rounds_to_nearest_in_range (t period : Time) (pos : 0 < period.toNat) (p : Period) (n : Nat)
    (within : p.length.toNat * n ≤ limit) :
    (t.toNat + period.toNat / 2 ≤ Word.max →
      ∃ q : Nat, t.divideRounded period = .ok q ∧ q ≤ Word.max ∧ ∀ m : Int, Nearest t period m ↔ m = q) ∧
    (Word.max < t.toNat + period.toNat / 2 → t.divideRounded period = .error .arithmeticOverflow) ∧
    (∀ s q, s ≤ t → t.divideRounded period = .ok q → ∃ r ≤ q, s.divideRounded period = .ok r) ∧
    p.toCycles (p.cycles n) = n ∧
    (p.length.toNat * n + p.length.toNat / 2 ≤ Word.max → (p.cycles n).divideRounded p.length = .ok n) ∧
    (Word.max < p.length.toNat * n + p.length.toNat / 2 →
      (p.cycles n).divideRounded p.length = .error .arithmeticOverflow) := by
  have word : n ≤ Word.max := Nat.le_trans (Nat.le_mul_of_pos_left n p.length_pos) within
  refine ⟨exists_nearest_of_fits pos, divideRounded_eq_error pos, ?_, Period.toCycles_cycles within,
    Period.divideRounded_cycles, Period.divideRounded_cycles_of_exceeds word⟩
  intro s q earlier rounded
  exact divideRounded_mono pos earlier rounded

/-- The last time that can be rounded to periods of four femtoseconds, the one behind it, and the longest times of whole
cycles of three femtoseconds. -/
theorem rounds_to_nearest_at_end :
    (ofNat 18446744073709551613).divideRounded (ofNat 4) = .ok 4611686018427387903 ∧
      (ofNat 18446744073709551614).divideRounded (ofNat 4) = .error .arithmeticOverflow ∧
      (∃ r ≤ 4611686018427387903, (ofNat 18446744073709551609).divideRounded (ofNat 4) = .ok r) ∧
      ((Period.ofTime (ofNat 3)).cycles 6148914691236517204).divideRounded (Period.ofTime (ofNat 3)).length =
        .ok 6148914691236517204 ∧
      (Period.ofTime (ofNat 3)).toCycles ((Period.ofTime (ofNat 3)).cycles 6148914691236517205) =
        6148914691236517205 := by
  obtain ⟨inRange, -, earlier, -, back, -⟩ := rounds_to_nearest_in_range (ofNat 18446744073709551613) (ofNat 4)
    (by decide) (Period.ofTime (ofNat 3)) 6148914691236517204 (by decide)
  obtain ⟨-, overflow, -, counted, -, -⟩ := rounds_to_nearest_in_range (ofNat 18446744073709551614) (ofNat 4)
    (by decide) (Period.ofTime (ofNat 3)) 6148914691236517205 (by decide)
  obtain ⟨q, rounded, -, only⟩ := inRange (by decide)
  have quotient : q = 4611686018427387903 := by
    have nearest : Nearest (ofNat 18446744073709551613) (ofNat 4) 4611686018427387903 := by decide
    have := (only _).mp nearest
    omega
  subst quotient
  exact ⟨rounded, overflow (by decide), earlier _ _ (by decide) rounded, back (by decide), counted⟩

/-- The nearest number of periods of two femtoseconds to the last time is a word, but the rounding overflows; and so
does that of the time of whole cycles of three femtoseconds that is within the range. -/
theorem never_overflows_rounding :
    Nearest never (ofNat 2) 9223372036854775808 ∧ 9223372036854775808 ≤ Word.max ∧
      never.divideRounded (ofNat 2) = .error .arithmeticOverflow ∧
      (Period.ofTime (ofNat 3)).length.toNat * 6148914691236517205 ≤ limit ∧
      ((Period.ofTime (ofNat 3)).cycles 6148914691236517205).divideRounded (Period.ofTime (ofNat 3)).length ≠
        .ok 6148914691236517205 := by
  refine ⟨by decide, by decide, divideRounded_eq_error (by decide) (by decide), by decide, ?_⟩
  rw [Period.divideRounded_cycles_of_exceeds (by decide) (by decide)]
  exact fun h => nomatch h

end Time

end CoreTiming
