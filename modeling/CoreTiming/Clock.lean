import CoreTiming.Fault

/-!
# Periods and clocks

A `Period` is the length of one cycle of a frequency domain and is never zero.  A `Clock` is a
time that advances by whole cycles or by arbitrary latencies.
-/

namespace CoreTiming

/-- The length of one clock cycle. -/
structure Period where
  /-- The length of one cycle. -/
  length : Time
  /-- A cycle takes some time. -/
  length_pos : 0 < length.toNat
  deriving DecidableEq

namespace Period

/-- A time of at least one femtosecond is not zero. -/
theorem toNat_max_one_pos (t : Time) : 0 < (max t (Time.ofNat 1)).toNat := by
  rw [Time.toNat_max, Time.toNat_ofNat]
  simp only [Time.limit]
  omega

/-- The period of length `t`, at least one femtosecond. -/
def ofTime (t : Time) : Period := ⟨max t (Time.ofNat 1), toNat_max_one_pos t⟩

instance : Inhabited Period := ⟨ofTime 0⟩

/-- The whole number nearest to `x`, which is not negative, and the larger one of two.  From 2^53 on
there is nothing to round. -/
def nearestWhole (x : Float) : UInt64 :=
  let whole := x.toUInt64
  if x < 9007199254740992.0 && x - whole.toFloat >= 0.5 then whole + 1 else whole

/-- The period of a frequency in GHz, to the nearest femtosecond. -/
def ofGhz (ghz : Float) : Except Fault Period :=
  if ghz > 0.0 then .ok (ofTime ⟨nearestWhole (Time.fsPerNs.toFloat / ghz)⟩)
  else .error (.frequency ghz)

/-- The time that `n` cycles take. -/
def cycles (p : Period) (n : Nat) : Time := p.length * n

theorem toNat_cycles (p : Period) (n : Nat) :
    (p.cycles n).toNat = min (p.length.toNat * n) Time.limit := Time.toNat_mul ..

/-- Whole cycles in `t`. -/
def toCycles (p : Period) (t : Time) : Nat := t.toNat / p.length.toNat

end Period

/-- A clock of one frequency domain. -/
structure Clock where
  /-- The domain's period. -/
  period : Period
  /-- The time on the clock. -/
  now : Time
  deriving DecidableEq, Inhabited

namespace Clock

/-- A clock at time zero. -/
def new (period : Period) : Clock := ⟨period, 0⟩

/-- Whole cycles on the clock. -/
def cycleCount (c : Clock) : Nat := c.period.toCycles c.now

/-- The clock after `n` more cycles. -/
def addCycles (c : Clock) (n : Nat) : Clock := { c with now := c.now + c.period.cycles n }

/-- The clock after a latency. -/
def addLatency (c : Clock) (t : Time) : Clock := { c with now := c.now + t }

/-- The time `n` cycles from now. -/
def afterCycles (c : Clock) (n : Nat) : Time := c.now + c.period.cycles n

/-- The time one cycle from now. -/
def next (c : Clock) : Time := c.now + c.period.length

/-- A clock at time zero in the same domain, to add up a cost. -/
def restarted (c : Clock) : Clock := .new c.period

end Clock

end CoreTiming
