import CoreTiming.MicroOp.Instance
import CoreTiming.Ring

/-!
# Stores in flight and memory fences

The table keeps the stores in flight in program order, and the latest fence.  A load waits for the
youngest older store to its address; loads, stores and fences all wait for the latest fence.
-/

namespace CoreTiming

/-- A store in flight. -/
structure StoreRecord where
  /-- Its sequence number. -/
  seq : Nat
  /-- The address it writes. -/
  address : Address
  deriving DecidableEq, Inhabited

/-- Stores in flight and the latest fence. -/
structure StoreTable where
  /-- The stores, oldest first. -/
  stores : Ring StoreRecord
  /-- The latest fence. -/
  fence : Option Nat := none
  deriving Inhabited

namespace StoreTable

/-- A table for at most `capacity` stores. -/
def new (capacity : Nat) : StoreTable := { stores := .empty capacity }

/-- Forgets the stores at the front that are older than `lowest`. -/
def dropOld (lowest : Nat) : Nat → Ring StoreRecord → Ring StoreRecord
  | 0, stores => stores
  | fuel + 1, stores =>
    match stores.front? with
    | some store => if store.seq < lowest then dropOld lowest fuel stores.tail else stores
    | none => stores

/-- Forgets everything at the front that is older than `lowest`. -/
def clean (t : StoreTable) (lowest : Nat) : StoreTable :=
  { t with stores := dropOld lowest t.stores.length t.stores }

/-- Looks for a store to `address`, from position `n` towards the front. -/
def findBelow (stores : Ring StoreRecord) (address : Address) : Nat → Option Nat
  | 0 => none
  | n + 1 =>
    match stores.get? n with
    | some store => if store.address = address then seq? store.seq else findBelow stores address n
    | none => none

/-- The youngest store to `address`. -/
def find? (t : StoreTable) (address : Address) : Option Nat :=
  findBelow t.stores address t.stores.length

/-- Makes `u` wait for `producer`, if there is one. -/
def await (u : OpInstance) : Option Nat → Except Fault OpInstance
  | some producer => u.addProducer producer
  | none => .ok u

/-- The latest fence, if it is younger than `lowest`. -/
def liveFence? (t : StoreTable) (lowest : Nat) : Option Nat := t.fence.filter (lowest < ·)

/-- Makes `u` wait for the store and the fence it depends on, and records it if it is one. -/
def link (u : OpInstance) (lowest : Nat) (t : StoreTable) :
    Except Fault (OpInstance × StoreTable) := do
  let t := t.clean lowest
  if u.op.isLoad then
    let u ← await u (t.find? u.address)
    pure (← await u (t.liveFence? lowest), t)
  else if u.op.isStore then
    let stores ← t.stores.push { seq := u.seq, address := u.address }
    pure (← await u (t.liveFence? lowest), { t with stores })
  else if u.op.fence then
    pure (← await u (t.liveFence? lowest), { t with fence := seq? u.seq })
  else pure (u, t)

/-- The table of the same capacity without stores and fence. -/
def clear (t : StoreTable) : StoreTable := { stores := t.stores.clear }

end StoreTable

end CoreTiming
