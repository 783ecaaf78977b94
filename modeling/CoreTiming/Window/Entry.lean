import CoreTiming.MicroOp.Instance
import CoreTiming.Time

/-!
# Entries of the window

An `Entry` is one micro-op in flight with the times of its passage.  Entries refer to each other by
sequence number: a producer lists the consumers that it wakes when it issues, and a store lists the
producers of the registers that form its address.
-/

namespace CoreTiming

/-- The most consumers that one entry can wake. -/
def maxDependants : Nat := 8

/-- The most producers that the address of a store can wait for. -/
def maxAddressProducers : Nat := 4

/-- A micro-op in flight. -/
structure Entry where
  /-- The micro-op. -/
  u : OpInstance
  /-- When it entered the window. -/
  dispatched : Time := .never
  /-- From when on it may issue: `never` while a producer has not issued. -/
  ready : Time := .never
  /-- The latest result of a producer that has issued. -/
  readyMax : Time := 0
  /-- From when on the address of a store is known. -/
  addressReady : Time := .never
  /-- The latest result of a producer of the address that has issued. -/
  addressReadyMax : Time := 0
  /-- When it left its reservation station. -/
  issued : Time := .never
  /-- When its result is available; it may commit from then on. -/
  done : Time := .never
  /-- The consumers to wake. -/
  dependants : BoundedList maxDependants := .empty
  /-- The producers that the address of a store waits for. -/
  addressProducers : BoundedList maxAddressProducers := .empty
  deriving DecidableEq, Inhabited

namespace Entry

/-- A fresh entry for `u` under number `seq`. -/
def new (u : OpInstance) (seq : Nat) : Entry := { u := { u with seq } }

/-- The entry as if it had just been pushed, under number `seq`. -/
def restart (e : Entry) (seq : Nat) : Entry := new e.u.dropAllProducers seq

/-- The sequence number of the micro-op. -/
def seq (e : Entry) : Nat := e.u.seq

/-- Whether the entry has issued and knows when its result is available. -/
def isDone (e : Entry) : Bool := !e.done.isNever

/-- Adds a consumer to wake. -/
def addDependant (e : Entry) (seq : Nat) : Except Fault Entry := do
  let dependants ← e.dependants.push "ROB dependants" seq
  pure { e with dependants }

/-- Adds a producer that the address waits for. -/
def addAddressProducer (e : Entry) (seq : Nat) : Except Fault Entry := do
  let addressProducers ← e.addressProducers.push "store address producers" seq
  pure { e with addressProducers }

/-- Learns when the result of a producer is available. -/
def observe (e : Entry) (done : Time) : Entry := { e with readyMax := max e.readyMax done }

/-- Waits no longer for `seq`. -/
def dropProducer (e : Entry) (seq : Nat) : Entry := { e with u := e.u.dropProducer seq }

/-- Fixes when the entry may issue, if it waits for no producer. -/
def settle (e : Entry) : Entry :=
  if e.u.producers.isEmpty then { e with ready := e.readyMax } else e

@[simp] theorem seq_new (u : OpInstance) (seq : Nat) : (new u seq).seq = seq := rfl

@[simp] theorem seq_restart (e : Entry) (seq : Nat) : (e.restart seq).seq = seq := rfl

end Entry

end CoreTiming
