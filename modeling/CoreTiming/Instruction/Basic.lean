import CoreTiming.Clock
import CoreTiming.MicroOp.Instance

/-!
# Instructions

A whole instruction: its class, which selects a static cost, and its operands in encoding order.
The time that memory operands take arrives apart from the instruction, as `MemoryInfo`.
-/

namespace CoreTiming

/-- The class of an instruction. -/
inductive InstrClass
  /-- Anything without a class of its own. -/
  | generic
  /-- Integer addition. -/
  | add
  /-- Integer subtraction. -/
  | sub
  /-- Integer multiplication. -/
  | mul
  /-- Integer division. -/
  | div
  /-- Floating-point addition. -/
  | fadd
  /-- Floating-point subtraction. -/
  | fsub
  /-- Floating-point multiplication. -/
  | fmul
  /-- Floating-point division. -/
  | fdiv
  /-- An unconditional jump. -/
  | jmp
  /-- A conditional branch. -/
  | branch
  /-- A pseudo instruction that carries its own cost. -/
  | dynamic
  deriving DecidableEq, Inhabited, Repr

namespace InstrClass

/-- Every class, in the order in which costs are listed. -/
def all : List InstrClass :=
  [.generic, .add, .sub, .mul, .div, .fadd, .fsub, .fmul, .fdiv, .jmp, .branch, .dynamic]

/-- Whether the class does not come from a program. -/
def isDynamic (c : InstrClass) : Bool := c == .dynamic

/-- The name used in reports. -/
def name : InstrClass → String
  | .generic => "generic"
  | .add => "add"
  | .sub => "sub"
  | .mul => "mul"
  | .div => "div"
  | .fadd => "fadd"
  | .fsub => "fsub"
  | .fmul => "fmul"
  | .fdiv => "fdiv"
  | .jmp => "jmp"
  | .branch => "branch"
  | .dynamic => "dynamic"

end InstrClass

/-- Cycles that each class of instruction takes. -/
structure CostTable where
  /-- Instructions without a class of their own. -/
  generic : Nat := 1
  /-- Integer addition. -/
  add : Nat := 1
  /-- Integer subtraction. -/
  sub : Nat := 1
  /-- Integer multiplication. -/
  mul : Nat := 3
  /-- Integer division. -/
  div : Nat := 18
  /-- Floating-point addition. -/
  fadd : Nat := 3
  /-- Floating-point subtraction. -/
  fsub : Nat := 3
  /-- Floating-point multiplication. -/
  fmul : Nat := 5
  /-- Floating-point division. -/
  fdiv : Nat := 6
  /-- Unconditional jumps. -/
  jmp : Nat := 1
  /-- Conditional branches. -/
  branch : Nat := 1
  deriving DecidableEq, Inhabited

/-- The cost of a class; pseudo instructions carry their own. -/
def CostTable.cycles (costs : CostTable) : InstrClass → Nat
  | .generic => costs.generic
  | .add => costs.add
  | .sub => costs.sub
  | .mul => costs.mul
  | .div => costs.div
  | .fadd => costs.fadd
  | .fsub => costs.fsub
  | .fmul => costs.fmul
  | .fdiv => costs.fdiv
  | .jmp => costs.jmp
  | .branch => costs.branch
  | .dynamic => 0

/-- Whether an operand is read or written. -/
inductive Direction
  /-- The operand is read. -/
  | read
  /-- The operand is written. -/
  | write
  deriving DecidableEq, Inhabited, Repr

/-- How a direction is named in messages about memory operands. -/
def Direction.memoryName : Direction → String
  | .read => "MemoryRead"
  | .write => "MemoryWrite"

/-- An operand of an instruction. -/
inductive Operand
  /-- A register. -/
  | reg (direction : Direction) (register : Register)
  /-- A memory location, and the register that its address is formed from. -/
  | memory (direction : Direction) (base : Option Register)
  deriving DecidableEq, Inhabited

/-- The direction of a memory operand. -/
def Operand.memory? : Operand → Option Direction
  | .reg .. => none
  | .memory direction _ => some direction

/-- An instruction of a program. -/
structure Instruction where
  /-- Its class. -/
  kind : InstrClass := .generic
  /-- Its address; zero for a pseudo instruction. -/
  address : Address := 0
  /-- Its size in bytes. -/
  size : Nat := 4
  /-- Its operands in encoding order. -/
  operands : List Operand := []
  /-- What a pseudo instruction costs. -/
  ownCost : Time := 0
  deriving DecidableEq, Inhabited

namespace Instruction

/-- The directions of the memory operands, in order. -/
def memoryOperands (i : Instruction) : List Direction := i.operands.filterMap Operand.memory?

/-- The register operands in one direction, in order. -/
def registers (i : Instruction) (direction : Direction) : List Register :=
  i.operands.filterMap fun
    | .reg d r => if d = direction then some r else none
    | .memory .. => none

/-- The time the instruction itself takes. -/
def cost (i : Instruction) (costs : CostTable) (period : Period) : Time :=
  if i.kind.isDynamic then i.ownCost else period.cycles (costs.cycles i.kind)

/-- How an instruction is written. -/
def render (i : Instruction) : String := Address.render i.address ++ " " ++ i.kind.name

end Instruction

/-- One execution of an instruction. -/
structure InstrInstance where
  /-- The instruction. -/
  instruction : Instruction
  /-- The data addresses of the memory operands, in order. -/
  addresses : List Address := []
  /-- What a branch did. -/
  branch : Option BranchOutcome := none
  deriving DecidableEq, Inhabited

/-- What is known about one memory operand when its instruction is timed. -/
structure MemoryInfo where
  /-- Whether memory was read or written. -/
  direction : Direction
  /-- The address of the instruction. -/
  ip : Address := 0
  /-- The data address. -/
  address : Address := 0
  /-- How long the access took. -/
  latency : Time
  /-- Where it was served. -/
  hit : Location
  deriving DecidableEq, Inhabited

end CoreTiming
