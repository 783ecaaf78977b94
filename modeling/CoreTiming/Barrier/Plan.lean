import CoreTiming.Barrier.Basic

/-!
# Engines that follow a plan

A `PlannedEngine` times nothing: what it says of its slots is set in advance for each round.  It
shows a barrier at work without a window behind it.
-/

namespace CoreTiming

/-- What an engine says of a slot. -/
structure Supply where
  /-- Micro-ops that are buffered. -/
  surplus : Nat
  /-- Whether they are enough. -/
  enough : Bool
  /-- Whether everything has completed. -/
  drained : Bool
  deriving DecidableEq, Inhabited

/-- The supply of a slot that has run dry. -/
def Supply.dry : Supply := ⟨0, false, true⟩

/-- An engine whose slots follow a plan. -/
structure PlannedEngine where
  /-- The supply of each slot. -/
  slots : Array Supply := #[]
  /-- The supplies after each of the rounds to come; all slots run dry after that. -/
  plan : List (Array Supply) := []
  /-- The slot that drove each round, and the states of all slots. -/
  rounds : Array (Nat × String) := #[]
  /-- How many slots ran at each change of the running ones. -/
  active : Array Nat := #[]
  deriving Inhabited

namespace PlannedEngine

/-- The supply of slot `t`. -/
def supply (e : PlannedEngine) (t : Nat) : Except Fault Supply :=
  match e.slots[t]? with
  | some s => .ok s
  | none => .error .indexOutOfBounds

/-- Changes the supply of slot `t`. -/
def change (t : Nat) (f : Supply → Supply) (e : PlannedEngine) : PlannedEngine :=
  { e with slots := e.slots.modify t f }

/-- One round, driven by slot `driver`. -/
def advance (driver : Nat) (slots : Array Slot) (e : PlannedEngine) : PlannedEngine :=
  { e with
    slots := e.plan.headD (e.slots.map fun _ => .dry)
    plan := e.plan.tail
    rounds := e.rounds.push (driver, String.ofList (slots.toList.map Slot.stateChar)) }

end PlannedEngine

instance : SharedEngine PlannedEngine where
  surplus e t := (·.surplus) <$> e.supply t
  hasEnough e t := (·.enough) <$> e.supply t
  isDrained e t := (·.drained) <$> e.supply t
  repartition slots := modify fun e => { e with active := e.active.push (slots.countP (·.running)) }
  push t us := modify (PlannedEngine.change t fun s => { s with surplus := s.surplus + us.length })
  returnLatency t inWakeup := do
    let s ← Faulting.ofExcept ((← get).supply t)
    pure (s.surplus, Time.ofNat inWakeup.toNat)
  execute driver slots := modify (PlannedEngine.advance driver slots)
  synchronize t time := modify (PlannedEngine.change t fun s => { s with surplus := time.toNat })
  markEndOfStream _ := pure ()

end CoreTiming
