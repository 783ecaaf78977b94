import CoreTiming.Bounded
import CoreTiming.Location
import CoreTiming.MicroOp.Basic

/-!
# Executed micro-ops

An `OpInstance` is one execution of a micro-op: its place in program order, the producers it still
waits for, its data address, and what is known about where its accesses are served.
-/

namespace CoreTiming

/-- The sequence number that means "none". -/
def noSeq : Nat := Word.max

/-- A sequence number, unless it is the one that means "none". -/
def seq? (n : Nat) : Option Nat := if n = noSeq then none else some n

/-- What a branch did. -/
structure BranchOutcome where
  /-- Whether it was taken. -/
  taken : Bool
  /-- Where it went, if taken. -/
  target : Address
  deriving DecidableEq, Inhabited

/-- The most producers one micro-op can wait for. -/
def maxProducers : Nat := 14

/-- One execution of a micro-op. -/
structure OpInstance where
  /-- The micro-op. -/
  op : MicroOp
  /-- Its place in program order. -/
  seq : Nat := noSeq
  /-- The producers it still waits for. -/
  producers : BoundedList maxProducers := .empty
  /-- Execution time in cycles; a memory access is added when it is resolved. -/
  latency : Nat := op.latency
  /-- The data address of a load or store. -/
  address : Address := 0
  /-- Where the data access is served. -/
  dataHit : Location := .unresolved
  /-- Where the instruction fetch is served. -/
  fetchHit : Location := .l1i
  /-- Cycles that the fetch takes if it misses. -/
  fetchLatency : Nat := 0
  /-- What the branch did. -/
  branch : Option BranchOutcome := none
  /-- Whether the branch was predicted wrongly. -/
  mispredicted : Bool := false
  /-- Whether it lies on a wrong path and is dropped. -/
  squashed : Bool := false
  /-- Counts as a long-latency load whatever its latency. -/
  forceLong : Bool := false
  deriving DecidableEq, Inhabited

namespace OpInstance

/-- The data access is served at `hit` and takes `cycles` more cycles. -/
def resolveData (u : OpInstance) (hit : Location) (cycles : Nat) : Except Fault OpInstance := do
  let latency ← Word.add u.latency cycles
  pure { u with dataHit := hit, latency }

/-- The fetch misses, is served at `hit` and takes `cycles` cycles. -/
def missFetch (u : OpInstance) (hit : Location) (cycles : Nat) : OpInstance :=
  { u with fetchHit := hit, fetchLatency := cycles }

/-- Adds a producer to wait for, unless it is there already. -/
def addProducer (u : OpInstance) (seq : Nat) : Except Fault OpInstance := do
  let producers ← u.producers.insert "micro-op dependency list" seq
  pure { u with producers }

/-- Waits no longer for `seq`. -/
def dropProducer (u : OpInstance) (seq : Nat) : OpInstance :=
  { u with producers := u.producers.erase seq }

/-- Waits for nothing. -/
def dropAllProducers (u : OpInstance) : OpInstance := { u with producers := .empty }

/-- Whether this load takes long when more than `cutoff` cycles do; a cutoff of zero switches the
test of the latency off. -/
def isLongLoad (u : OpInstance) (cutoff : Nat) : Bool :=
  u.op.isLoad && (u.forceLong || (0 < cutoff && cutoff < u.latency))

end OpInstance

end CoreTiming
