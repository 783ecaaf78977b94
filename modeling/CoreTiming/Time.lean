/-!
# Simulated time

A `Time` is a count of femtoseconds held in one 64-bit word.  It serves both as a point in time
and as a latency.  The largest word, `Time.never`, stands for what has not happened yet, and all
arithmetic stays inside the range: sums and products stop at `never`, differences stop at zero.

Every operation comes with a `toNat_*` lemma that says what it computes on natural numbers, so
that a fact about times becomes a fact about `Nat`.
-/

namespace CoreTiming

/-- A point in simulated time, or a latency, in femtoseconds. -/
structure Time where
  /-- The number of femtoseconds. -/
  fs : UInt64
  deriving DecidableEq, Inhabited, Repr

namespace Time

/-! ## Constants and views -/

/-- The start of time. -/
def zero : Time := ⟨0⟩

/-- The time of what has not happened: the largest representable one. -/
def never : Time := ⟨0xFFFFFFFFFFFFFFFF⟩

instance : OfNat Time 0 := ⟨zero⟩

/-- The number of femtoseconds, as a natural number. -/
def toNat (t : Time) : Nat := t.fs.toNat

/-- The largest number of femtoseconds. -/
def limit : Nat := 0xFFFFFFFFFFFFFFFF

/-- The time of `n` femtoseconds, or `never` where `n` is out of range. -/
def ofNat (n : Nat) : Time := if n ≤ limit then ⟨UInt64.ofNat n⟩ else never

/-- Whether the time is `never`. -/
def isNever (t : Time) : Bool := t == never

@[simp] theorem toNat_zero : toNat 0 = 0 := rfl

@[simp] theorem toNat_never : never.toNat = limit := rfl

theorem toNat_le_limit (t : Time) : t.toNat ≤ limit := by
  have := t.fs.toNat_lt
  simp only [toNat, limit]
  omega

theorem toNat_ofNat (n : Nat) : (ofNat n).toNat = min n limit := by
  unfold ofNat
  split
  · simp only [toNat, UInt64.toNat_ofNat']
    simp only [limit] at *
    omega
  · simp only [toNat_never]
    omega

@[ext] theorem ext_toNat {a b : Time} (h : a.toNat = b.toNat) : a = b := by
  cases a; cases b
  exact congrArg _ (UInt64.toNat_inj.mp h)

/-! ## Order -/

instance : LE Time := ⟨fun a b => a.fs ≤ b.fs⟩
instance : LT Time := ⟨fun a b => a.fs < b.fs⟩
instance (a b : Time) : Decidable (a ≤ b) := inferInstanceAs (Decidable (a.fs ≤ b.fs))
instance (a b : Time) : Decidable (a < b) := inferInstanceAs (Decidable (a.fs < b.fs))
instance : Max Time := ⟨fun a b => if a < b then b else a⟩
instance : Min Time := ⟨fun a b => if b < a then b else a⟩

theorem le_iff_toNat_le {a b : Time} : a ≤ b ↔ a.toNat ≤ b.toNat := UInt64.le_iff_toNat_le

theorem lt_iff_toNat_lt {a b : Time} : a < b ↔ a.toNat < b.toNat := UInt64.lt_iff_toNat_lt

theorem toNat_max (a b : Time) : (max a b).toNat = max a.toNat b.toNat := by
  show (if a < b then b else a).toNat = _
  split <;> rename_i h <;> rw [lt_iff_toNat_lt] at h <;> omega

theorem toNat_min (a b : Time) : (min a b).toNat = min a.toNat b.toNat := by
  show (if b < a then b else a).toNat = _
  split <;> rename_i h <;> rw [lt_iff_toNat_lt] at h <;> omega

/-! ## Arithmetic within the range -/

/-- The sum, or `never` where it leaves the range. -/
def add (a b : Time) : Time :=
  let sum := a.fs + b.fs
  if sum < a.fs then never else ⟨sum⟩

/-- The difference, or zero where it would be negative. -/
def sub (a b : Time) : Time := if a.fs ≤ b.fs then zero else ⟨a.fs - b.fs⟩

/-- `n` times `t`, or `never` where it leaves the range. -/
def scale (t : Time) (n : Nat) : Time := ofNat (t.toNat * n)

instance : Add Time := ⟨add⟩
instance : Sub Time := ⟨sub⟩
instance : HMul Time Nat Time := ⟨scale⟩

theorem toNat_add (a b : Time) : (a + b).toNat = min (a.toNat + b.toNat) limit := by
  have ha := a.fs.toNat_lt
  have hb := b.fs.toNat_lt
  show (if a.fs + b.fs < a.fs then never else ⟨a.fs + b.fs⟩ : Time).toNat = _
  have sum : (a.fs + b.fs).toNat = (a.fs.toNat + b.fs.toNat) % 2 ^ 64 := UInt64.toNat_add ..
  split <;> rename_i h <;> rw [UInt64.lt_iff_toNat_lt, sum] at h
  · rw [toNat_never]
    simp only [toNat, limit]
    omega
  · show (a.fs + b.fs).toNat = _
    simp only [toNat, limit]
    omega

theorem toNat_sub (a b : Time) : (a - b).toNat = a.toNat - b.toNat := by
  have ha := a.fs.toNat_lt
  show (if a.fs ≤ b.fs then zero else ⟨a.fs - b.fs⟩ : Time).toNat = _
  split <;> rename_i h <;> rw [UInt64.le_iff_toNat_le] at h
  · show (0 : Nat) = _
    simp only [toNat]
    omega
  · simp only [toNat]
    rw [UInt64.toNat_sub_of_le]
    rw [UInt64.le_iff_toNat_le]
    omega

theorem toNat_mul (t : Time) (n : Nat) : (t * n).toNat = min (t.toNat * n) limit := toNat_ofNat _

/-! ## Units -/

/-- Femtoseconds in a picosecond. -/
def fsPerPs : Nat := 1000

/-- Femtoseconds in a nanosecond. -/
def fsPerNs : Nat := 1000000

/-- The time of `n` picoseconds. -/
def ofPs (n : Nat) : Time := ofNat (n * fsPerPs)

/-- The time of `n` nanoseconds. -/
def ofNs (n : Nat) : Time := ofNat (n * fsPerNs)

/-- Whole picoseconds in `t`. -/
def toPs (t : Time) : Nat := t.toNat / fsPerPs

/-- Whole nanoseconds in `t`. -/
def toNs (t : Time) : Nat := t.toNat / fsPerNs

/-- How a time is written: its femtoseconds with their unit, or `MAX`. -/
def render (t : Time) : String := if t.isNever then "MAX" else toString t.toNat ++ "fs"

end Time

end CoreTiming
