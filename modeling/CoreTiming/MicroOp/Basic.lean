/-!
# Micro-ops

A micro-op is one hardware action of an instruction: the registers it reads and writes, its
execution time without memory, and the flags that decide how it may be ordered.
-/

namespace CoreTiming

/-- An architectural register. -/
abbrev Register := Nat

/-- A machine address. -/
abbrev Address := UInt64

/-- Hexadecimal digits behind `0x`. -/
def Address.render (a : Address) : String :=
  "0x" ++ String.ofList (Nat.toDigits 16 a.toNat)

/-- The class of a micro-op. -/
inductive OpKind
  /-- A memory read. -/
  | load
  /-- A memory write. -/
  | store
  /-- Integer or other work outside memory. -/
  | execute
  /-- A control transfer. -/
  | branch
  /-- A floating-point addition or subtraction. -/
  | fpAddSub
  /-- A floating-point multiplication or division. -/
  | fpMulDiv
  deriving DecidableEq, Inhabited, Repr

namespace OpKind

/-- Every kind, in the order of their indices. -/
def all : List OpKind := [.load, .store, .execute, .branch, .fpAddSub, .fpMulDiv]

/-- How many kinds there are. -/
def count : Nat := 6

/-- The position of a kind in tables. -/
def index : OpKind → Nat
  | .load => 0
  | .store => 1
  | .execute => 2
  | .branch => 3
  | .fpAddSub => 4
  | .fpMulDiv => 5

/-- The name used in statistics. -/
def name : OpKind → String
  | .load => "load"
  | .store => "store"
  | .execute => "generic"
  | .branch => "branch"
  | .fpAddSub => "fp_addsub"
  | .fpMulDiv => "fp_muldiv"

theorem index_lt (k : OpKind) : k.index < count := by cases k <;> decide

theorem getElem?_all (k : OpKind) : all[k.index]? = some k := by cases k <;> rfl

end OpKind

/-- A decoded micro-op. -/
structure MicroOp where
  /-- Its class. -/
  kind : OpKind := .execute
  /-- The address of its instruction. -/
  ip : Address := 0
  /-- Registers read. -/
  sources : List Register := []
  /-- Registers written. -/
  destinations : List Register := []
  /-- Registers from which a memory address is formed. -/
  addressRegisters : List Register := []
  /-- The first micro-op of its instruction. -/
  first : Bool := true
  /-- The last micro-op of its instruction: committing it retires the instruction. -/
  last : Bool := true
  /-- Issues alone, at the head of the window, after all stores have drained. -/
  serializing : Bool := false
  /-- A memory fence. -/
  fence : Bool := false
  /-- Old-style floating point; counted only. -/
  x87 : Bool := false
  /-- A hint of a spin loop; counted only. -/
  pause : Bool := false
  /-- Execution time in cycles, without memory. -/
  latency : Nat := 1
  /-- The size of a memory access in bytes. -/
  accessSize : Nat := 0
  deriving DecidableEq, Inhabited

namespace MicroOp

/-- Whether the micro-op reads memory. -/
def isLoad (op : MicroOp) : Bool := op.kind == .load

/-- Whether the micro-op writes memory. -/
def isStore (op : MicroOp) : Bool := op.kind == .store

/-- Whether the micro-op transfers control. -/
def isBranch (op : MicroOp) : Bool := op.kind == .branch

/-- How a list of registers is written. -/
def renderRegisters (rs : List Register) : String := "[" ++ ", ".intercalate (rs.map toString) ++ "]"

/-- How a micro-op is written. -/
def render (op : MicroOp) : String :=
  Address.render op.ip ++ " " ++ op.kind.name ++ " src=" ++ renderRegisters op.sources ++ " dst=" ++
    renderRegisters op.destinations

end MicroOp

end CoreTiming
