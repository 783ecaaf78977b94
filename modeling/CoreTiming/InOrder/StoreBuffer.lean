import CoreTiming.InOrder.Slots
import CoreTiming.MicroOp.Basic

/-!
# The store buffer

A store occupies a slot of the buffer for a while, and the slot is tagged with its address until
another store takes it.  A store to an address that is in the buffer already goes into the same
slot.
-/

namespace CoreTiming

/-- What the store buffer knows about an address. -/
inductive StoreStatus
  /-- A store to it is still buffered, and its data can be read from there. -/
  | valid
  /-- The last store to it has finished. -/
  | completed
  /-- No store to it is known. -/
  | notFound
  deriving DecidableEq, Inhabited, Repr

/-- The name of a status. -/
def StoreStatus.name : StoreStatus → String
  | .valid => "Valid"
  | .completed => "Completed"
  | .notFound => "NotFound"

/-- A slot of the store buffer. -/
structure StoreSlot where
  /-- When the slot falls free. -/
  freeAt : Time := 0
  /-- The address of the store that took the slot last. -/
  address : Option Address := none
  deriving DecidableEq, Inhabited

/-- A store buffer. -/
structure StoreBuffer where
  /-- Its slots. -/
  slots : List StoreSlot
  deriving DecidableEq, Inhabited

namespace StoreBuffer

/-- A buffer of `n` empty slots, at least one. -/
def new (n : Nat) : StoreBuffer := ⟨List.replicate (max n 1) {}⟩

/-- The slot tagged with an address. -/
def find? (b : StoreBuffer) (address : Address) : Option Nat :=
  b.slots.findIdx? fun s => s.address == some address

/-- Puts a store into slot `i` from `start` on. -/
def place (b : StoreBuffer) (i : Nat) (start occupancy : Time) (address : Address) : StoreBuffer :=
  ⟨b.slots.set i { freeAt := start + occupancy, address := some address }⟩

/-- Buffers a store, not before `start`, and gives the time at which it enters the buffer. -/
def execute (b : StoreBuffer) (start occupancy : Time) (address : Address) :
    Time × StoreBuffer :=
  match b.find? address with
  | some i => (start, b.place i start occupancy address)
  | none =>
    let (i, begin') := Slots.assign (b.slots.map (·.freeAt)) start
    (begin', b.place i begin' occupancy address)

/-- What is known about an address at `time`. -/
def lookup (b : StoreBuffer) (time : Time) (address : Address) : StoreStatus :=
  match b.slots.find? fun s => s.address == some address with
  | some s => if time ≤ s.freeAt then .valid else .completed
  | none => .notFound

end StoreBuffer

end CoreTiming
