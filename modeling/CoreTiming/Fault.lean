import CoreTiming.Decimal.Shortest
import CoreTiming.Time

/-!
# Faults

An operation that cannot go on stops with a `Fault`: a promise of its caller was broken, or a
fixed capacity or the range of a machine word was exceeded.  Operations on a state run in
`Faulting`, which keeps the state reached so far when a fault stops them.
-/

namespace CoreTiming

/-- Why an operation could not go on. -/
inductive Fault
  /-- A sum, difference or product left the range of its word. -/
  | arithmeticOverflow
  /-- An index named no element. -/
  | indexOutOfBounds
  /-- A table would not fit into the address space. -/
  | tooLarge
  /-- A ring of this capacity was full. -/
  | ringFull (capacity : Nat)
  /-- The bounded list `what` already held `capacity` numbers when `seq` was added. -/
  | listFull (what : String) (capacity seq : Nat)
  /-- The buffer in front of a thread's window was full. -/
  | bufferFull (thread entries : Nat)
  /-- A hardware thread was set up out of turn. -/
  | slotOrder
  /-- No entry of the ring carries the sequence number. -/
  | outsideRing (seq front entries : Nat)
  /-- Another entry stands where the sequence number belongs. -/
  | misplaced (seq position : Nat)
  /-- A counting clock was set to a time before its own. -/
  | clockReversed (time now : Time)
  /-- The clock stands at the end of time and work is left. -/
  | outOfTime
  /-- A frequency that is not above zero. -/
  | frequency (ghz : Float)
  deriving DecidableEq, Inhabited

/-- The wording of a fault. -/
def Fault.message : Fault → String
  | .arithmeticOverflow => "arithmetic overflow"
  | .indexOutOfBounds => "index out of bounds"
  | .tooLarge => "capacity overflow"
  | .ringFull capacity => s!"circular queue overflow: capacity {capacity} exhausted"
  | .listFull what capacity seq => s!"{what} overflow: more than {capacity} entries (adding {seq})"
  | .bufferFull thread entries =>
    s!"pre-ROB buffer overflow on thread {thread}: {entries} entries buffered"
  | .slotOrder => "ROB threads must be initialised in slot order"
  | .outsideRing seq front entries =>
    s!"sequence number {seq} outside of ROB (front {front}, {entries} entries)"
  | .misplaced seq position =>
    s!"sequence number {seq} unexpectedly not at ROB position {position}"
  | .clockReversed time now =>
    "magic model clock moved backwards: " ++ time.render ++ " < " ++ now.render
  | .outOfTime => "simulated time exhausted"
  | .frequency ghz => "clock frequency must be positive, got " ++ Decimal.display ghz ++ " GHz"

/-- An operation on a state, which a fault leaves as far as it came. -/
abbrev Faulting (σ : Type) := EStateM Fault σ

/-- Runs an operation that touches no state. -/
@[inline] def Faulting.ofExcept {σ α : Type} (x : Except Fault α) : Faulting σ α :=
  match x with
  | .ok a => pure a
  | .error f => throw f

/-- Runs an operation on a part of the state.  The part is taken out while the operation runs. -/
@[inline] def Faulting.zoom {σ τ α : Type} [Inhabited τ] (part : σ → τ) (replace : τ → σ → σ)
    (x : Faulting τ α) : Faulting σ α := fun s =>
  let t := part s
  let s := replace default s
  match x t with
  | .ok a t => .ok a (replace t s)
  | .error f t => .error f (replace t s)

/-! ## Machine words -/

namespace Word

/-- The largest unsigned word. -/
def max : Nat := 0xFFFFFFFFFFFFFFFF

/-- The sum of two words, if it is one. -/
def add (a b : Nat) : Except Fault Nat :=
  if a + b ≤ max then .ok (a + b) else .error .arithmeticOverflow

/-- The sum of two signed words, if it is one. -/
def addSigned (a b : Int) : Except Fault Int :=
  if -0x8000000000000000 ≤ a + b ∧ a + b < 0x8000000000000000 then .ok (a + b) else .error .arithmeticOverflow

/-- Checks that a table of `count` elements of `bytes` bytes each can be addressed. -/
def room (count bytes : Nat) : Except Fault Unit :=
  if count * bytes < 0x8000000000000000 then .ok () else .error .tooLarge

theorem add_eq_ok_iff {a b c : Nat} : add a b = .ok c ↔ a + b ≤ max ∧ c = a + b := by
  unfold add
  split <;> rename_i h
  · simp [h, eq_comm]
  · simp [h]

end Word

/-! ## Rounding a latency to cycles -/

/-- How many periods make up `t`, rounded to the nearest number; none for a period of zero. -/
def Time.divideRounded (t period : Time) : Except Fault Nat :=
  if period = 0 then .ok 0
  else do
    let sum ← Word.add t.toNat (period.toNat / 2)
    pure (sum / period.toNat)

end CoreTiming
