import Mathlib.Algebra.Order.BigOperators.Group.List
import Mathlib.Algebra.Order.Group.Nat
import CoreTiming.Proofs.Lookup
import CoreTiming.Proofs.Rounding

/-!
# When the latency of a request leaves the range of a word

The latency of a request is computed by three kinds of arithmetic: the cycles of its levels are added, and the sum must
be a word; the sum is multiplied by the period, and the product stops at the end of time; and to turn the latency into
cycles again, half a period is added, which must give a word once more.

Together they have one range: a request can be served and its latency rounded exactly if the product of the period and
the sum, and half a period more, is a word (`serveRounded_eq_ok`).  Then the cycles are those of its levels, no more and
no less.  In particular a latency that has stopped at the end of time is never rounded, but is an overflow.
-/

namespace CoreTiming

open Faulting

/-! ## Section 1: The longest request -/

/-- The cycles of all enabled levels on a path, and those of main memory. -/
def MemoryConfig.longest (config : MemoryConfig) (path : List Hierarchy.Level) : Nat :=
  ((path.filter fun level => (config.cache level).enabled).map fun level => (config.cache level).latency).sum +
    config.dramLatency

namespace Hierarchy

variable {config : MemoryConfig} {period : Period} {h h' : Hierarchy} {r : MemoryRequest} {address : Address}
  {path : List Level}

/-- The levels take the cycles that are described. -/
theorem Built.map_latency_enabled (b : h.Built config period) (path : List Level) :
    ((h.enabled path).map fun e => e.2.latency) =
      (path.filter fun level => (config.cache level).enabled).map fun level => (config.cache level).latency := by
  induction path with
  | nil => rfl
  | cons level path ih =>
    have enabled := b.isSome level
    cases there : h.cache? level with
    | none =>
      rw [there] at enabled
      rw [enabled_cons_none there, ih, List.filter_cons_of_neg (by simp [← enabled])]
    | some cache =>
      rw [there] at enabled
      have latency : cache.latency = (config.cache level).latency := (b.geometry level cache there).latency
      rw [enabled_cons_some there, List.map_cons, ih, List.filter_cons_of_pos (by simp [← enabled]), List.map_cons,
        latency]

/-- No request takes longer than all levels on its path and main memory. -/
theorem Built.cost_le_longest (b : h.Built config period) (address : Address) (path : List Level) :
    h.cost address (h.enabled path) ≤ config.longest path := by
  unfold cost MemoryConfig.longest
  rw [← b.map_latency_enabled, ← b.dramLatency]
  have part := (lookedUp_isPrefix address (h.enabled path)).sublist.map fun e => e.2.latency
  refine Nat.add_le_add (part.sum_le_sum fun n _ => Nat.zero_le n) ?_
  split
  · exact Nat.zero_le _
  · exact Nat.le_refl _

/-! ## Section 2: Requests whose latency is rounded -/

/-- Serves a request and turns its latency into cycles. -/
def serveRounded (period : Period) (r : MemoryRequest) : Faulting Hierarchy (Served × Nat) := do
  let served ← serve r
  let cycles ← Faulting.ofExcept (served.latency.divideRounded period.length)
  pure (served, cycles)

/-- A request whose cycles exceed a word is not answered. -/
theorem Built.serve_eq_error (b : h.Built config period) (r : MemoryRequest)
    (exceeds : Word.max < h.cost r.address (h.enabled r.path)) :
    ∃ h', serve r h = .error .arithmeticOverflow h' := by
  have ends := b.ends_serve r
  generalize serve r h = result at ends ⊢
  cases ends with
  | answered fits accessed =>
    rw [Nat.zero_add] at fits
    exact absurd fits (Nat.not_le_of_lt exceeds)
  | stopped exceeds' part accessed => exact ⟨_, rfl⟩

/-- Within the range a request is answered, and its latency is rounded to the cycles of its levels. -/
theorem Built.serveRounded_eq_ok (b : h.Built config period) (r : MemoryRequest)
    (fits : period.length.toNat * h.cost r.address (h.enabled r.path) + period.length.toNat / 2 ≤ Word.max) :
    ∃ h', serveRounded period r h = .ok (⟨period.cycles (h.cost r.address (h.enabled r.path)),
      servedAt r.address (h.enabled r.path)⟩, h.cost r.address (h.enabled r.path)) h' := by
  have word : h.cost r.address (h.enabled r.path) ≤ Word.max := by
    have times := Nat.le_mul_of_pos_left (h.cost r.address (h.enabled r.path)) period.length_pos
    exact Nat.le_trans times (Nat.le_trans (Nat.le_add_right _ _) fits)
  obtain ⟨h', served, -⟩ := b.serve_eq_ok r word
  refine ⟨h', ?_⟩
  unfold serveRounded
  rw [bind_of_ok served, Period.divideRounded_cycles fits]
  rfl

/-- Beyond the range it is not, be it that the sum of the cycles exceeds a word or that the rounding does. -/
theorem Built.serveRounded_eq_error (b : h.Built config period) (r : MemoryRequest)
    (exceeds : Word.max < period.length.toNat * h.cost r.address (h.enabled r.path) + period.length.toNat / 2) :
    ∃ h', serveRounded period r h = .error .arithmeticOverflow h' := by
  unfold serveRounded
  rcases Nat.lt_or_ge Word.max (h.cost r.address (h.enabled r.path)) with past | word
  · obtain ⟨h', stopped⟩ := b.serve_eq_error r past
    exact ⟨h', bind_of_error stopped⟩
  · obtain ⟨h', served, -⟩ := b.serve_eq_ok r word
    refine ⟨h', ?_⟩
    rw [bind_of_ok served, Period.divideRounded_cycles_of_exceeds word exceeds]
    rfl

/-- A request is answered exactly if the cycles of the levels that it looks up are a word in sum, and takes the product
of the period and that sum, or the largest time where the product exceeds it.  The latency can be rounded to cycles
exactly if the product and half a period more are a word, and is rounded to that very sum.  The sum is never greater
than that of all levels on the path and main memory. -/
theorem latency_rounded_in_range (reached : Reached config period h) (r : MemoryRequest) :
    (h.cost r.address (h.enabled r.path) ≤ Word.max → ∃ served h', serve r h = .ok served h' ∧
      served.latency.toNat = min (period.length.toNat * h.cost r.address (h.enabled r.path)) Time.limit) ∧
    (Word.max < h.cost r.address (h.enabled r.path) → ∃ h', serve r h = .error .arithmeticOverflow h') ∧
    (period.length.toNat * h.cost r.address (h.enabled r.path) + period.length.toNat / 2 ≤ Word.max →
      ∃ served h', serveRounded period r h = .ok (served, h.cost r.address (h.enabled r.path)) h') ∧
    (Word.max < period.length.toNat * h.cost r.address (h.enabled r.path) + period.length.toNat / 2 →
      ∃ h', serveRounded period r h = .error .arithmeticOverflow h') ∧
    h.cost r.address (h.enabled r.path) ≤ config.longest r.path := by
  have b := reached.built
  refine ⟨?_, b.serve_eq_error r, ?_, b.serveRounded_eq_error r, b.cost_le_longest r.address r.path⟩
  · intro word
    obtain ⟨h', served, -⟩ := b.serve_eq_ok r word
    exact ⟨_, h', served, period.toNat_cycles _⟩
  · intro fits
    obtain ⟨h', served⟩ := b.serveRounded_eq_ok r fits
    exact ⟨_, h', served⟩

/-- The default hierarchy with a cycle of a picosecond. -/
def unused : Hierarchy := new {} (.ofTime (.ofNat 1000))

/-- A first read misses both levels of the default hierarchy. -/
theorem latency_rounded_in_range_of_first_read :
    Reached {} (.ofTime (.ofNat 1000)) unused ∧
      (∃ served h', serve (.data ⟨0x1000, 8, false, 0⟩) unused = .ok served h' ∧ served.latency.toNat = 132000) ∧
      ∃ served h', serveRounded (.ofTime (.ofNat 1000)) (.data ⟨0x1000, 8, false, 0⟩) unused =
        .ok (served, 132) h' := by
  have reached : Reached {} (.ofTime (.ofNat 1000)) unused := ⟨[], rfl⟩
  obtain ⟨answered, -, rounded, -, -⟩ := latency_rounded_in_range reached (.data ⟨0x1000, 8, false, 0⟩)
  have cost : unused.cost 0x1000 (unused.enabled Level.dataPath) = 132 := by decide +kernel
  have length : (Period.ofTime (.ofNat 1000)).length.toNat = 1000 := by decide +kernel
  simp only [MemoryRequest.address, MemoryRequest.path, cost, length] at answered rounded
  exact ⟨reached, answered (by decide), rounded (by decide)⟩

/-- A cache that takes as long as a word can say. -/
def slowCache : Config := { memory := { l1d := { enabled := true, latency := Word.max } } }

/-- No caches, and a main memory that takes so long that half a period more exceeds a word. -/
def slowMemory : Config where
  core := { frequencyGhz := 2.0 }
  memory := { l1i := {}, l1d := {}, l2 := {}, dramLatency := 36893488147419 }

/-- The checks on a configuration let pass what overflows: a sum of cycles that is no word, and a time within the range
to which half a period cannot be added. -/
theorem slow_levels_overflow :
    ∃ period period' h' h'', slowCache.validate = .ok () ∧ slowCache.period = .ok period ∧
      serve (.data ⟨0x1000, 8, false, 0⟩) (new slowCache.memory period) = .error .arithmeticOverflow h' ∧
      slowMemory.validate = .ok () ∧ slowMemory.period = .ok period' ∧
      period'.length.toNat * slowMemory.memory.dramLatency ≤ Time.limit ∧
      serveRounded period' (.data ⟨0x1000, 8, false, 0⟩) (new slowMemory.memory period') =
        .error .arithmeticOverflow h'' := by
  have valid : slowCache.validate = .ok () ∧ slowMemory.validate = .ok () := by decide +kernel
  have period : slowCache.period = .ok (.ofTime (.ofNat 375940)) := by decide +kernel
  have period' : slowMemory.period = .ok (.ofTime (.ofNat 500000)) := by decide +kernel
  obtain ⟨h', stopped⟩ := (built_new slowCache.memory (.ofTime (.ofNat 375940))).serve_eq_error
    (.data ⟨0x1000, 8, false, 0⟩) (by decide +kernel)
  obtain ⟨h'', stopped'⟩ := (built_new slowMemory.memory (.ofTime (.ofNat 500000))).serveRounded_eq_error
    (.data ⟨0x1000, 8, false, 0⟩) (by decide +kernel)
  exact ⟨_, _, h', h'', valid.1, period, stopped, valid.2, period', by decide +kernel, stopped'⟩

end Hierarchy

end CoreTiming
