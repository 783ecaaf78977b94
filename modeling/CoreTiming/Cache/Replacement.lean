import CoreTiming.Config.Basic

/-!
# Replacement policies

A policy decides which way of a cache set makes room for a new line.  `SetOrder` is its state for
one set: a recency stack, or a pointer that goes round the ways.  `Replacement` is the state of all
sets of a cache.
-/

namespace CoreTiming

/-- The replacement state of one set. -/
inductive SetOrder
  /-- The ways, the one used last in front. -/
  | recency (stack : List Nat)
  /-- The way to be filled next, of `ways` ways. -/
  | turn (next ways : Nat)
  deriving DecidableEq, Inhabited

namespace SetOrder

/-- The state of a set of `ways` ways that has not been used. -/
def new (kind : ReplacementKind) (ways : Nat) : SetOrder :=
  match kind with
  | .lru => .recency (List.range ways)
  | .fifo => .turn 0 (max ways 1)

/-- The state after a hit on `way`. -/
def touch : SetOrder → Nat → SetOrder
  | .recency stack, way => .recency (way :: stack.erase way)
  | .turn next ways, _ => .turn next ways

/-- The state after `way` has been filled. -/
def fill : SetOrder → Nat → SetOrder
  | .recency stack, way => .recency (way :: stack.erase way)
  | .turn next ways, way => .turn (if next = way then (way + 1) % ways else next) ways

/-- The way that makes room next. -/
def victim : SetOrder → Nat
  | .recency stack => stack.getLastD 0
  | .turn next _ => next

end SetOrder

/-- The replacement state of a cache. -/
structure Replacement where
  /-- The policy. -/
  kind : ReplacementKind
  /-- The state of each set. -/
  sets : Array SetOrder
  deriving Inhabited

namespace Replacement

/-- The state of `sets` unused sets of `ways` ways. -/
def new (kind : ReplacementKind) (sets ways : Nat) : Replacement :=
  ⟨kind, Array.replicate sets (.new kind ways)⟩

/-- Changes the state of one set. -/
def update (set : Nat) (f : SetOrder → SetOrder) : Faulting Replacement Unit := do
  if (← get).sets.size ≤ set then throw .indexOutOfBounds
  modify fun r => { r with sets := r.sets.modify set f }

/-- Records a hit; a policy that ignores hits does not even look at the set. -/
def touch (set way : Nat) : Faulting Replacement Unit := do
  match (← get).kind with
  | .lru => update set (·.touch way)
  | .fifo => pure ()

/-- Records that a way has been filled. -/
def fill (set way : Nat) : Faulting Replacement Unit := update set (·.fill way)

/-- The way of the set that makes room next. -/
def victim (set : Nat) : Faulting Replacement Nat := do
  match (← get).sets[set]? with
  | some order => pure order.victim
  | none => throw .indexOutOfBounds

end Replacement

end CoreTiming
