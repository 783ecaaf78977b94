import CoreTiming.Time

/-!
# Slots that are occupied for a while

Each slot is known by the time at which it falls free.  An occupant takes the first slot that is
free when it arrives, or else waits for the one that falls free first.
-/

namespace CoreTiming

namespace Slots

/-- The slot that falls free first; of several, the lowest. -/
def earliest (freeAt : List Time) : Nat := freeAt.idxOf (freeAt.foldl min Time.never)

/-- The slot for an occupant that arrives at `start`, and when it moves in. -/
def assign (freeAt : List Time) (start : Time) : Nat × Time :=
  match freeAt.findIdx? (· ≤ start) with
  | some i => (i, start)
  | none => (earliest freeAt, freeAt.getD (earliest freeAt) 0)

end Slots

/-- Units that serve loads, each with the time at which it falls free. -/
structure LoadUnits where
  /-- When each unit falls free. -/
  freeAt : List Time
  deriving DecidableEq, Inhabited

namespace LoadUnits

/-- `n` free units, at least one. -/
def new (n : Nat) : LoadUnits := ⟨List.replicate (max n 1) 0⟩

/-- Occupies a unit, not before `start`, and gives the time at which the load starts. -/
def execute (u : LoadUnits) (start occupancy : Time) : Time × LoadUnits :=
  let (i, begin') := Slots.assign u.freeAt start
  (begin', ⟨u.freeAt.set i (begin' + occupancy)⟩)

end LoadUnits

end CoreTiming
