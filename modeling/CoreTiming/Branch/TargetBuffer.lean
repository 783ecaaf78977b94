import CoreTiming.MicroOp.Instance

/-!
# Branch target buffers

A direct-mapped table of branch targets, tagged with the full address of the branch and indexed by
its low bits.
-/

namespace CoreTiming

/-- The smallest power of two that is at least `n` and at least one. -/
def nextPowerOfTwo (n : Nat) : Nat := if n ≤ 1 then 1 else twoTo ((n - 1).log2 + 1)

/-- A table of branch targets: in each slot the branch that used it last and where it went. -/
structure TargetBuffer where
  /-- The slots. -/
  slots : Array (Option (Address × Address))
  deriving Inhabited

namespace TargetBuffer

/-- A buffer of at least `size` empty slots, rounded up to a power of two. -/
def new (size : Nat) : TargetBuffer := ⟨Array.replicate (nextPowerOfTwo size) none⟩

/-- A buffer of the given size, if its size is a word and its slots fit into the address space. -/
def allocate (size : Nat) : Except Fault TargetBuffer := do
  let slots := nextPowerOfTwo size
  if Word.max < slots then throw .arithmeticOverflow
  Word.room slots 24
  pure (new size)

/-- The slot that a branch uses. -/
def index (b : TargetBuffer) (ip : Address) : Nat := ip.toNat % b.slots.size

/-- Where the branch went last, if it still has its slot. -/
def lookup (b : TargetBuffer) (ip : Address) : Option Address :=
  match b.slots[b.index ip]? with
  | some (some (owner, target)) => if owner = ip then some target else none
  | _ => none

/-- Records where a branch went; the slot's former owner loses it. -/
def update (b : TargetBuffer) (ip target : Address) : TargetBuffer :=
  ⟨b.slots.setIfInBounds (b.index ip) (some (ip, target))⟩

end TargetBuffer

end CoreTiming
