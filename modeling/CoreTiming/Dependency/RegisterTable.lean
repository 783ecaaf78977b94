import CoreTiming.Instruction.Decode

/-!
# Who writes which register

For every tracked register the table names the youngest micro-op that writes it.  A writer that is
older than the oldest micro-op still in flight is stale; it is ignored, and forgotten when it is
met.
-/

namespace CoreTiming

/-- The youngest writer of each register. -/
structure RegisterTable where
  /-- The writer of each tracked register. -/
  writers : Array (Option Nat)
  deriving DecidableEq

namespace RegisterTable

/-- The table without writers. -/
def empty : RegisterTable := ⟨Array.replicate numRegisters none⟩

instance : Inhabited RegisterTable := ⟨empty⟩

/-- The recorded writer of `r`, stale or not; none for a register that is not tracked. -/
def writer? (t : RegisterTable) (r : Register) : Option Nat := t.writers[r]?.join

/-- The writer of `r`, if it is not older than `lowest`. -/
def live? (t : RegisterTable) (r : Register) (lowest : Nat) : Option Nat :=
  (t.writer? r).filter (lowest ≤ ·)

/-- Makes `seq` the writer of `r`, if `r` is tracked. -/
def record (t : RegisterTable) (seq : Option Nat) (r : Register) : RegisterTable :=
  ⟨t.writers.setIfInBounds r seq⟩

/-- Forgets the writer of `r` if it is older than `lowest`. -/
def forget (lowest : Nat) (t : RegisterTable) (r : Register) : RegisterTable :=
  match t.writer? r with
  | some writer => if lowest ≤ writer then t else t.record none r
  | none => t

/-- Makes `u` wait for the live writer of `r`. -/
def awaitWriter (t : RegisterTable) (lowest : Nat) (u : OpInstance) (r : Register) :
    Except Fault OpInstance :=
  match t.live? r lowest with
  | some writer => u.addProducer writer
  | none => .ok u

/-- Makes `u` wait for the live writers of its sources. -/
def await (t : RegisterTable) (lowest : Nat) (u : OpInstance) : Except Fault OpInstance :=
  u.op.sources.foldlM (t.awaitWriter lowest) u

/-- Forgets the stale writers of the sources of `u`, and makes it the writer of its
destinations. -/
def note (t : RegisterTable) (lowest : Nat) (u : OpInstance) : RegisterTable :=
  u.op.destinations.foldl (·.record (seq? u.seq)) (u.op.sources.foldl (forget lowest) t)

/-- Makes `u` wait for the writers of its sources, then makes it the writer of its destinations.
Sources come first, so a micro-op never waits for itself. -/
def link (u : OpInstance) (lowest : Nat) (t : RegisterTable) :
    Except Fault (OpInstance × RegisterTable) := do
  let u ← t.await lowest u
  pure (u, t.note lowest u)

/-- How many registers have a recorded writer. -/
def numWriters (t : RegisterTable) : Nat := t.writers.countP Option.isSome

/-- How the table is shown. -/
def inspect (t : RegisterTable) : String :=
  "RegisterDependencies \x7b live_producers: " ++ toString t.numWriters ++ " \x7d"

theorem writer?_empty (r : Register) : empty.writer? r = none := by
  simp only [writer?, empty, Array.getElem?_replicate]
  split <;> rfl

theorem writer?_record (t : RegisterTable) (seq : Option Nat) (r k : Register) :
    (t.record seq r).writer? k = if k = r ∧ r < t.writers.size then seq else t.writer? k := by
  simp only [writer?, record, Array.getElem?_setIfInBounds]
  by_cases h : r = k
  · subst h
    by_cases hr : r < t.writers.size <;> simp [hr]
  · simp [h, Ne.symm h]

end RegisterTable

end CoreTiming
