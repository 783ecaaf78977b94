import CoreTiming.Branch.Predictor
import Mathlib.Data.Nat.ModEq
import Mathlib.Logic.Function.Iterate

/-!
# What a predictor learns from one branch

A predictor with a history chooses the counter of a branch by the outcomes that came before, so that one and the same
branch, trained over and over, meets a different counter each time, and may share each of them with other branches.

But the history is short.  After as many equal outcomes as it remembers it does not change any more
(`HistoryPredictor.history_drill`), and from then on the branch meets one counter only.  Two outcomes bring that counter
to the right side from wherever it stood (`HistoryPredictor.leansTaken_adjust_adjust`), and the target has been recorded
by then.  So the branch is predicted correctly whatever the predictor had learned before
(`Predictor.predicts_after_drill`).
-/

namespace CoreTiming

/-! ## Section 1: Targets -/

theorem nextPowerOfTwo_pos (n : Nat) : 0 < nextPowerOfTwo n := by
  unfold nextPowerOfTwo twoTo
  split
  · exact Nat.one_pos
  · exact Nat.two_pow_pos _

namespace TargetBuffer

@[simp] theorem size_new (size : Nat) : (new size).slots.size = nextPowerOfTwo size := by
  simp [new]

@[simp] theorem size_update (b : TargetBuffer) (ip target : Address) :
    (b.update ip target).slots.size = b.slots.size := by
  simp [update]

/-- What has just been recorded is found, whoever had the slot before. -/
theorem lookup_update_self (b : TargetBuffer) (ip target : Address) (room : 0 < b.slots.size) :
    (b.update ip target).lookup ip = some target := by
  have inside : ip.toNat % b.slots.size < b.slots.size := Nat.mod_lt _ room
  simp [lookup, update, index, inside]

end TargetBuffer

namespace HistoryPredictor

variable {p : HistoryPredictor} {ip : Address} {taken : Bool} {target : Option Address}

/-! ## Section 2: What every predictor keeps to -/

/-- The tables of the predictor are as large, and its counters as small, as they should be. -/
structure Sound (p : HistoryPredictor) : Prop where
  /-- There is a counter for each history. -/
  size : p.counters.size = 2 ^ historyBits
  /-- Counters go up to three. -/
  counter_le : ∀ (i c : Nat), p.counters[i]? = some c → c ≤ 3
  /-- There is a slot for targets. -/
  room : 0 < p.targets.slots.size

theorem sound_new (size : Nat) : (new (.new size)).Sound where
  size := by simp [new, twoTo]
  counter_le := by
    intro i c found
    simp only [new, Array.getElem?_replicate] at found
    split at found
    · cases found
      decide
    · cases found
  room := by simp [new, nextPowerOfTwo_pos]

theorem adjust_le {counter : Nat} (h : counter ≤ 3) : adjust taken counter ≤ 3 := by
  unfold adjust
  split <;> omega

theorem Sound.update (h : p.Sound) (ip : Address) (taken : Bool) (target : Option Address) :
    (p.update ip taken target).Sound where
  size := by simp [HistoryPredictor.update, h.size]
  counter_le := by
    intro i c found
    simp only [HistoryPredictor.update, Array.getElem?_modify] at found
    split at found
    · obtain ⟨c₀, before, rfl⟩ := Option.map_eq_some_iff.mp found
      exact adjust_le (h.counter_le _ _ before)
    · exact h.counter_le _ _ found
  room := by
    cases target with
    | none => exact h.room
    | some target => simpa [HistoryPredictor.update] using h.room

theorem index_lt (p : HistoryPredictor) (ip : Address) : p.index ip < 2 ^ historyBits := by
  have masked : (ip ^^^ p.history).toNat &&& (2 ^ historyBits - 1) = (ip ^^^ p.history).toNat % 2 ^ historyBits :=
    Nat.and_two_pow_sub_one_eq_mod _ _
  unfold index
  rw [UInt64.toNat_and]
  show (ip ^^^ p.history).toNat &&& (2 ^ historyBits - 1) < 2 ^ historyBits
  rw [masked]
  exact Nat.mod_lt _ (Nat.two_pow_pos _)

/-! ## Section 3: The history of one branch -/

/-- An outcome enters at the lowest bit, and the oldest one drops out at the top. -/
theorem toNat_history_update (p : HistoryPredictor) (ip : Address) (taken : Bool) (target : Option Address) :
    (p.update ip taken target).history.toNat = (2 * p.history.toNat + taken.toNat) % 2 ^ historyBits := by
  have bit : taken.toUInt64.toNat = taken.toNat := by cases taken <;> rfl
  have small : taken.toNat < 2 ^ 1 := by cases taken <;> decide
  show ((p.history <<< 1 ||| taken.toUInt64) &&& mask).toNat = _
  rw [UInt64.toNat_and, UInt64.toNat_or, UInt64.toNat_shiftLeft, bit]
  show (p.history.toNat <<< 1 % 2 ^ 64 ||| taken.toNat) &&& (2 ^ historyBits - 1) = _
  rw [Nat.and_two_pow_sub_one_eq_mod, Nat.or_mod_two_pow,
    Nat.mod_mod_of_dvd _ (Nat.pow_dvd_pow 2 (by decide : historyBits ≤ 64)), ← Nat.or_mod_two_pow,
    ← Nat.shiftLeft_add_eq_or_of_lt small, Nat.shiftLeft_eq, Nat.pow_one, Nat.mul_comm]

/-- The predictor after the branch at `ip` has done the same thing `n` times. -/
def drill (p : HistoryPredictor) (ip : Address) (taken : Bool) (target : Option Address) (n : Nat) :
    HistoryPredictor := (fun p => p.update ip taken target)^[n] p

theorem drill_succ (n : Nat) : p.drill ip taken target (n + 1) = (p.drill ip taken target n).update ip taken target :=
  Function.iterate_succ_apply' _ _ _

theorem Sound.drill (h : p.Sound) (n : Nat) : (p.drill ip taken target n).Sound := by
  induction n with
  | zero => exact h
  | succ n ih =>
    rw [drill_succ]
    exact ih.update ip taken target

/-- The history that consists of nothing but the one outcome. -/
def settledHistory (taken : Bool) : UInt64 := if taken then mask else 0

/-- What the history lacks to be settled doubles with every outcome, and is lost once it has left the history. -/
theorem history_drill_modEq (n : Nat) :
    (p.drill ip taken target n).history.toNat + taken.toNat ≡ 2 ^ n * (p.history.toNat + taken.toNat)
      [MOD 2 ^ historyBits] := by
  induction n with
  | zero =>
    rw [Nat.pow_zero, Nat.one_mul]
    rfl
  | succ n ih =>
    rw [drill_succ, toNat_history_update]
    calc (2 * (p.drill ip taken target n).history.toNat + taken.toNat) % 2 ^ historyBits + taken.toNat
        ≡ 2 * (p.drill ip taken target n).history.toNat + taken.toNat + taken.toNat [MOD 2 ^ historyBits] :=
          (Nat.mod_modEq _ _).add_right _
      _ = 2 * ((p.drill ip taken target n).history.toNat + taken.toNat) := by omega
      _ ≡ 2 * (2 ^ n * (p.history.toNat + taken.toNat)) [MOD 2 ^ historyBits] := ih.mul_left 2
      _ = 2 ^ (n + 1) * (p.history.toNat + taken.toNat) := by rw [Nat.pow_succ', Nat.mul_assoc]

/-- After as many equal outcomes as it remembers, the history holds nothing else. -/
theorem history_drill {n : Nat} (long : historyBits ≤ n) :
    (p.drill ip taken target n).history = settledHistory taken := by
  have gone : 2 ^ historyBits ∣ (p.drill ip taken target n).history.toNat + taken.toNat := by
    apply (Nat.modEq_zero_iff_dvd).mp
    apply (history_drill_modEq n).trans
    apply (Nat.modEq_zero_iff_dvd).mpr
    exact Dvd.dvd.mul_right (Nat.pow_dvd_pow 2 long) _
  have inside : (p.drill ip taken target n).history.toNat < 2 ^ historyBits := by
    obtain ⟨m, rfl⟩ := Nat.exists_eq_add_of_lt (Nat.lt_of_lt_of_le (by decide : 0 < historyBits) long)
    rw [drill_succ, toNat_history_update]
    exact Nat.mod_lt _ (Nat.two_pow_pos _)
  apply UInt64.toNat_inj.mp
  -- the only number below 4096 that is divisible after the outcome has been added
  cases taken with
  | false =>
    show _ = 0
    exact Nat.eq_zero_of_dvd_of_lt gone inside
  | true =>
    obtain ⟨k, whole⟩ := gone
    simp only [historyBits, Bool.toNat_true] at inside whole
    show _ = 4095
    omega

/-! ## Section 4: The counter of one branch -/

/-- Whether the counter predicts taken. -/
def leansTaken (counter : Nat) : Bool := 2 ≤ counter

/-- Two outcomes are enough for a counter, wherever it stands. -/
theorem leansTaken_adjust_adjust {counter : Nat} (h : counter ≤ 3) :
    leansTaken (adjust taken (adjust taken counter)) = taken := by
  unfold leansTaken adjust
  cases taken with
  | false =>
    have low : ¬2 ≤ counter - 1 - 1 := by omega
    simp [low]
  | true => simp

/-- The counter that the branch meets. -/
def counter (p : HistoryPredictor) (ip : Address) : Nat := p.counters.getD (p.index ip) 0

theorem predict_eq (p : HistoryPredictor) (ip : Address) :
    p.predict ip = if leansTaken (p.counter ip) then (true, p.targets.lookup ip) else (false, none) := by
  simp [predict, leansTaken, counter]

theorem Sound.counter_le_three (h : p.Sound) (ip : Address) : p.counter ip ≤ 3 := by
  unfold counter
  rw [Array.getD_eq_getD_getElem?]
  cases found : p.counters[p.index ip]? with
  | none => exact Nat.zero_le 3
  | some c => exact h.counter_le _ _ found

/-- If the history stands still, the branch meets the counter again that it has just trained. -/
theorem Sound.counter_update (h : p.Sound) (still : (p.update ip taken target).history = p.history) :
    (p.update ip taken target).counter ip = adjust taken (p.counter ip) := by
  have same : (p.update ip taken target).index ip = p.index ip := by
    unfold index
    rw [still]
  have inside : p.index ip < p.counters.size := by
    rw [h.size]
    exact p.index_lt ip
  unfold counter
  rw [same]
  simp [HistoryPredictor.update, inside, Array.getElem_modify_self]

/-- Two outcomes after the history has settled, the counter is on the right side. -/
theorem Sound.leansTaken_drill (h : p.Sound) (n : Nat) :
    leansTaken ((p.drill ip taken target (n + (historyBits + 2))).counter ip) = taken := by
  have settled : ∀ k, (p.drill ip taken target (n + historyBits + k)).history = settledHistory taken := by
    intro k
    exact history_drill (by omega)
  have step : ∀ k, (p.drill ip taken target (n + historyBits + (k + 1))).counter ip =
      adjust taken ((p.drill ip taken target (n + historyBits + k)).counter ip) := by
    intro k
    rw [← Nat.add_assoc, drill_succ]
    apply (h.drill _).counter_update
    rw [← drill_succ, Nat.add_assoc _ k 1, settled, settled]
  rw [← Nat.add_assoc, step 1, step 0]
  exact leansTaken_adjust_adjust ((h.drill _).counter_le_three ip)

/-- The target of a branch that is trained as taken is on record. -/
theorem Sound.lookup_drill {target : Address} (h : p.Sound) (n : Nat) :
    (p.drill ip taken (some target) (n + 1)).targets.lookup ip = some target := by
  rw [drill_succ]
  exact TargetBuffer.lookup_update_self _ _ _ (h.drill n).room

end HistoryPredictor

/-! ## Section 5: Whatever was learned before -/

namespace Predictor

/-- What a predictor is told of a branch. -/
structure Lesson where
  /-- The address of the branch. -/
  ip : Address
  /-- Whether it was taken. -/
  taken : Bool
  /-- Where it went, if that is to be recorded. -/
  target : Option Address

/-- A predictor with a history and room for `size` targets, after some lessons. -/
def taught (size : Nat) (lessons : List Lesson) : Predictor :=
  lessons.foldl (fun p l => p.update l.ip l.taken l.target) (.history (.new (.new size)))

theorem taught_sound (size : Nat) (lessons : List Lesson) : ∃ p, taught size lessons = .history p ∧ p.Sound := by
  have general : ∀ p : HistoryPredictor, p.Sound →
      ∃ q, lessons.foldl (fun (p : Predictor) l => p.update l.ip l.taken l.target) (.history p) = .history q ∧
        q.Sound := by
    induction lessons with
    | nil =>
      intro p sound
      exact ⟨p, rfl, sound⟩
    | cons l rest ih =>
      intro p sound
      exact ih _ (sound.update l.ip l.taken l.target)
  exact general _ (HistoryPredictor.sound_new size)

/-- The predictor after the branch at `ip` has had the same outcome `n` times. -/
def drill (ip : Address) (outcome : BranchOutcome) (n : Nat) (p : Predictor) : Predictor :=
  (fun p => p.train ip outcome)^[n] p

theorem drill_history (ip : Address) (outcome : BranchOutcome) (n : Nat) (p : HistoryPredictor) :
    drill ip outcome n (.history p) = .history
      (p.drill ip outcome.taken (if outcome.taken then some outcome.target else none) n) := by
  induction n with
  | zero => rfl
  | succ n ih =>
    rw [HistoryPredictor.drill_succ]
    unfold drill at ih ⊢
    rw [Function.iterate_succ_apply', ih]
    rfl

/-- Fourteen equal outcomes of a branch are enough: whatever lessons the predictor has had, and however few targets it
has room for, the branch is predicted correctly from then on for as long as the outcome stays the same. -/
theorem predicts_after_drill (size : Nat) (lessons : List Lesson) (ip : Address) (outcome : BranchOutcome) (n : Nat) :
    (drill ip outcome (n + 14) (taught size lessons)).isMispredicted ip outcome = false := by
  obtain ⟨p, same, sound⟩ := taught_sound size lessons
  rw [same, drill_history]
  obtain ⟨taken, target⟩ := outcome
  have leans : HistoryPredictor.leansTaken ((p.drill ip taken (if taken then some target else none)
      (n + (HistoryPredictor.historyBits + 2))).counter ip) = taken := sound.leansTaken_drill n
  show Predictor.isMispredicted (.history (p.drill ip taken _ (n + (HistoryPredictor.historyBits + 2)))) _ _ = false
  cases taken with
  | false =>
    simp only [Bool.false_eq_true, if_false] at leans
    simp [isMispredicted, predict, HistoryPredictor.predict_eq, leans]
  | true =>
    have recorded : (p.drill ip true (some target) (n + (HistoryPredictor.historyBits + 2))).targets.lookup ip =
        some target := sound.lookup_drill (n + (HistoryPredictor.historyBits + 1))
    simp only [if_true] at leans
    simp only [isMispredicted, predict, HistoryPredictor.predict_eq, leans, if_true]
    simp [recorded]

/-- Thirteen are not enough for a counter that the history leads to last, if it stands at zero. -/
example : (drill 0 ⟨true, 64⟩ 13 (taught 4 [⟨0xFFF, false, none⟩])).isMispredicted 0 ⟨true, 64⟩ = true := by
  decide +kernel

end Predictor

end CoreTiming
