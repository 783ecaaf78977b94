import CoreTiming.Clock
import Mathlib.Order.BoundedOrder.Basic
import Mathlib.Order.MinMax

/-!
# Times are linearly ordered

Times are ordered as their femtoseconds are, and `never` is the last of them.  Sums stop at `never`,
so adding a latency never leads back.
-/

namespace CoreTiming

namespace Time

instance : LinearOrder Time where
  le_refl a := le_iff_toNat_le.mpr (Nat.le_refl _)
  le_trans a b c hab hbc := by
    rw [le_iff_toNat_le] at *
    exact Nat.le_trans hab hbc
  le_antisymm a b hab hba := by
    rw [le_iff_toNat_le] at *
    exact ext_toNat (Nat.le_antisymm hab hba)
  le_total a b := by
    rw [le_iff_toNat_le, le_iff_toNat_le]
    exact Nat.le_total _ _
  lt_iff_le_not_ge a b := by
    rw [lt_iff_toNat_lt, le_iff_toNat_le, le_iff_toNat_le]
    omega
  toDecidableLE := inferInstance
  toDecidableLT := inferInstance
  max_def a b := by
    apply ext_toNat
    rw [toNat_max]
    split <;> rename_i h <;> rw [le_iff_toNat_le] at h <;> omega
  min_def a b := by
    apply ext_toNat
    rw [toNat_min]
    split <;> rename_i h <;> rw [le_iff_toNat_le] at h <;> omega

/-- Nothing is later than what never happens. -/
@[simp] theorem le_never (t : Time) : t ≤ never :=
  le_iff_toNat_le.mpr t.toNat_le_limit

theorem zero_le (t : Time) : 0 ≤ t :=
  le_iff_toNat_le.mpr (Nat.zero_le t.toNat)

theorem never_le_iff {t : Time} : never ≤ t ↔ t = never :=
  ⟨fun h => le_antisymm t.le_never h, fun h => h ▸ le_refl _⟩

/-- What is not later than something that happens happens. -/
theorem ne_never_of_le {s t : Time} (h : s ≤ t) (ht : t ≠ never) : s ≠ never := fun same =>
  ht (never_le_iff.mp (same ▸ h))

theorem isNever_iff {t : Time} : t.isNever = true ↔ t = never := by
  simp [isNever]

theorem isNever_eq_false_iff {t : Time} : t.isNever = false ↔ t ≠ never := by
  simp [isNever]

theorem le_add_right (t d : Time) : t ≤ t + d := by
  rw [le_iff_toNat_le, toNat_add]
  have := t.toNat_le_limit
  omega

theorem toNat_lt_limit {t : Time} (finite : t ≠ never) : t.toNat < limit :=
  lt_of_le_of_ne t.toNat_le_limit fun last => finite (ext_toNat last)

/-- A sum that is not `never` has not stopped there. -/
theorem toNat_add_of_ne {a b : Time} (finite : a + b ≠ never) :
    (a + b).toNat = a.toNat + b.toNat := by
  have := toNat_lt_limit finite
  rw [toNat_add] at this ⊢
  omega

theorem add_le_add {a b c d : Time} (h : a ≤ b) (h' : c ≤ d) : a + c ≤ b + d := by
  rw [le_iff_toNat_le] at *
  rw [toNat_add, toNat_add]
  omega

@[simp] theorem never_add (d : Time) : never + d = never :=
  never_le_iff.mp (le_add_right _ _)

end Time

/-- More cycles take no less time. -/
theorem Period.cycles_le {p : Period} {n m : Nat} (h : n ≤ m) : p.cycles n ≤ p.cycles m := by
  rw [Time.le_iff_toNat_le, toNat_cycles, toNat_cycles]
  have := Nat.mul_le_mul_left p.length.toNat h
  omega

theorem Clock.le_next (c : Clock) : c.now ≤ c.next :=
  Time.le_add_right _ _

theorem Clock.toNat_next {c : Clock} (finite : c.next ≠ .never) :
    c.next.toNat = c.now.toNat + c.period.length.toNat :=
  Time.toNat_add_of_ne finite

/-- Until it stands at the end of time, a clock goes on. -/
theorem Clock.lt_next {c : Clock} (finite : c.next ≠ .never) : c.now < c.next := by
  have := c.period.length_pos
  rw [Time.lt_iff_toNat_lt, toNat_next finite]
  omega

end CoreTiming
