import CoreTiming.Branch.TargetBuffer
import CoreTiming.Config.Basic

/-!
# Branch predictors

A predictor guesses whether a branch is taken, and where it goes.  Both kinds keep a target buffer.
The static one never predicts a branch taken; the other one looks at a two-bit counter, chosen by
the branch's address mixed with the outcomes of the most recent branches.
-/

namespace CoreTiming

/-! ## Counters indexed by history -/

/-- A predictor that learns from global history. -/
structure HistoryPredictor where
  /-- Recent outcomes, the latest in the lowest bit. -/
  history : UInt64
  /-- Counters from zero to three; two and three predict taken. -/
  counters : Array Nat
  /-- Branch targets. -/
  targets : TargetBuffer
  deriving Inhabited

namespace HistoryPredictor

/-- Outcomes that the history remembers. -/
def historyBits : Nat := 12

/-- The bits of the history. -/
def mask : UInt64 := 0xFFF

/-- A predictor whose counters all lean to not taken. -/
def new (targets : TargetBuffer) : HistoryPredictor :=
  { history := 0, counters := Array.replicate (twoTo historyBits) 1, targets }

/-- The counter of a branch under the present history. -/
def index (p : HistoryPredictor) (ip : Address) : Nat := ((ip ^^^ p.history) &&& mask).toNat

/-- Whether the branch is guessed taken, and where it goes if that is known. -/
def predict (p : HistoryPredictor) (ip : Address) : Bool × Option Address :=
  if 2 ≤ p.counters.getD (p.index ip) 0 then (true, p.targets.lookup ip) else (false, none)

/-- A counter after an outcome. -/
def adjust (taken : Bool) (counter : Nat) : Nat :=
  if taken then min (counter + 1) 3 else counter - 1

/-- Learns an outcome, and a target if one is given. -/
def update (p : HistoryPredictor) (ip : Address) (taken : Bool) (target : Option Address) :
    HistoryPredictor :=
  { history := ((p.history <<< 1) ||| taken.toUInt64) &&& mask
    counters := p.counters.modify (p.index ip) (adjust taken)
    targets := match target with
      | some target => p.targets.update ip target
      | none => p.targets }

end HistoryPredictor

/-! ## Predictors -/

/-- A branch predictor. -/
inductive Predictor
  /-- Always not taken. -/
  | static (targets : TargetBuffer)
  /-- Learns from global history. -/
  | history (p : HistoryPredictor)
  deriving Inhabited

namespace Predictor

/-- The predictor that `c` describes; none if prediction is switched off. -/
def new (c : PredictorConfig) : Except Fault (Option Predictor) :=
  match c.kind with
  | .none => .ok none
  | .static => do pure (some (.static (← TargetBuffer.allocate c.targetBufferSize)))
  | .gshare => do pure (some (.history (.new (← TargetBuffer.allocate c.targetBufferSize))))

/-- Whether a branch is guessed taken, and where it goes if that is known. -/
def predict : Predictor → Address → Bool × Option Address
  | .static _, _ => (false, none)
  | .history p, ip => p.predict ip

/-- The target recorded for a branch. -/
def target? : Predictor → Address → Option Address
  | .static targets, ip => targets.lookup ip
  | .history p, ip => p.targets.lookup ip

/-- Learns an outcome, and a target if one is given. -/
def update : Predictor → Address → Bool → Option Address → Predictor
  | .static targets, ip, _, some target => .static (targets.update ip target)
  | .static targets, _, _, none => .static targets
  | .history p, ip, taken, target => .history (p.update ip taken target)

/-- Whether what the branch did contradicts the guess. -/
def isMispredicted (p : Predictor) (ip : Address) (actual : BranchOutcome) : Bool :=
  let (taken, target) := p.predict ip
  taken != actual.taken || (actual.taken && target != some actual.target)

/-- Learns what a branch did. -/
def train (p : Predictor) (ip : Address) (actual : BranchOutcome) : Predictor :=
  p.update ip actual.taken (if actual.taken then some actual.target else none)

end Predictor

end CoreTiming
