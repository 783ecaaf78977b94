import CoreTiming.Clock
import CoreTiming.MicroOp.Instance

/-!
# Memories

To a timing model, memory is whatever says how long an access takes and where it is served.
`MemorySystem` is that interface; `FixedMemory` answers every access alike, and `ScriptedMemory`
plays back given answers and keeps a log of what it was asked.
-/

namespace CoreTiming

/-- A data access. -/
structure MemoryAccess where
  /-- The data address. -/
  address : Address
  /-- The size in bytes. -/
  size : Nat
  /-- Whether memory is written. -/
  isWrite : Bool
  /-- The address of the instruction. -/
  ip : Address := 0
  deriving DecidableEq, Inhabited

/-- The answer to an access. -/
structure Served where
  /-- How long it takes. -/
  latency : Time
  /-- Where it is served. -/
  hit : Location
  deriving DecidableEq, Inhabited

/-- A source of memory latencies. -/
class MemorySystem (M : Type) extends Inhabited M where
  /-- Performs a data access. -/
  access : MemoryAccess → Faulting M Served
  /-- Fetches `size` bytes of instructions at an address. -/
  fetch : Address → (size : Nat) → Faulting M Served

/-! ## Memory of constant latency -/

/-- A memory that answers every access alike. -/
structure FixedMemory where
  /-- The answer to a data access. -/
  data : Served
  /-- The answer to a fetch. -/
  instruction : Served := ⟨0, .l1i⟩
  deriving DecidableEq, Inhabited

instance : MemorySystem FixedMemory where
  access _ := do pure (← get).data
  fetch _ _ := do pure (← get).instruction

/-! ## Memory that follows a script -/

/-- A request as it is logged. -/
inductive MemoryRequest
  /-- A data access. -/
  | data (access : MemoryAccess)
  /-- An instruction fetch. -/
  | fetch (address : Address) (size : Nat)
  deriving DecidableEq, Inhabited

/-- A memory that gives prepared answers in turn, over and over. -/
structure ScriptedMemory where
  /-- The answers to data accesses. -/
  data : Array Served
  /-- The answers to fetches. -/
  instruction : Array Served
  /-- Data accesses so far. -/
  dataCount : Nat := 0
  /-- Fetches so far. -/
  fetchCount : Nat := 0
  /-- All requests so far. -/
  log : Array MemoryRequest := #[]
  deriving Inhabited

instance : MemorySystem ScriptedMemory where
  access a := modifyGet fun m =>
    (m.data.getD (m.dataCount % m.data.size) default,
      { m with dataCount := m.dataCount + 1, log := m.log.push (.data a) })
  fetch address size := modifyGet fun m =>
    (m.instruction.getD (m.fetchCount % m.instruction.size) default,
      { m with fetchCount := m.fetchCount + 1, log := m.log.push (.fetch address size) })

/-! ## Memory of one of two kinds -/

/-- Runs an operation on the left kind or on the right kind, whichever is there. -/
def Faulting.either {A B α : Type} (x : Faulting A α) (y : Faulting B α) : Faulting (A ⊕ B) α
  | .inl a =>
    match x a with
    | .ok r a => .ok r (.inl a)
    | .error f a => .error f (.inl a)
  | .inr b =>
    match y b with
    | .ok r b => .ok r (.inr b)
    | .error f b => .error f (.inr b)

instance {A B : Type} [MemorySystem A] [MemorySystem B] : MemorySystem (A ⊕ B) where
  default := .inl default
  access a := Faulting.either (MemorySystem.access a) (MemorySystem.access a)
  fetch address size := Faulting.either (MemorySystem.fetch address size)
    (MemorySystem.fetch address size)

end CoreTiming
