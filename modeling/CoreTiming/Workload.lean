import CoreTiming.Instruction.Basic

/-!
# Synthetic workloads

Endless instruction streams of five shapes.  The code is a loop of 64 instructions, and data
accesses stride through a working set line by line.  Code and data of different cores lie apart.
-/

namespace CoreTiming

/-- The shape of an instruction stream. -/
inductive Workload
  /-- Each addition reads the register that the one before wrote. -/
  | dependentChain
  /-- Additions without inputs, spread over sixteen registers. -/
  | independent
  /-- Loads, each followed by an addition that depends on it. -/
  | memoryStream
  /-- Conditional branches that are taken twice, and then not. -/
  | branchy
  /-- Loads, stores, branches and arithmetic in turn. -/
  | mixed
  deriving DecidableEq, Inhabited, Repr

namespace Workload

/-- Every workload. -/
def all : List Workload := [.dependentChain, .independent, .memoryStream, .branchy, .mixed]

/-- The name in reports. -/
def name : Workload → String
  | .dependentChain => "DependentChain"
  | .independent => "Independent"
  | .memoryStream => "MemoryStream"
  | .branchy => "Branchy"
  | .mixed => "Mixed"

/-- The name on the command line. -/
def optionName : Workload → String
  | .dependentChain => "dependent-chain"
  | .independent => "independent"
  | .memoryStream => "memory-stream"
  | .branchy => "branchy"
  | .mixed => "mixed"

/-! ## Addresses and registers -/

/-- The distance between the addresses of neighbouring cores. -/
def coreStride : Nat := 0x1000000

/-- Instructions in the loop. -/
def loopLength : Nat := 64

/-- Bytes between successive data accesses. -/
def lineBytes : Nat := 64

/-- Bytes that data accesses stride through. -/
def workingSet : Nat := 256 * 1024

/-- Where the loop of a core starts. -/
def loopStart (core : Nat) : Nat := 0x400000 + core * coreStride

/-- The address of instruction `i`. -/
def codeAddress (core i : Nat) : Nat := loopStart core + 4 * (i % loopLength)

/-- The data address that belongs to instruction `i`. -/
def dataAddress (core i : Nat) : Nat := 0x10000000 + core * coreStride + i * lineBytes % workingSet

/-- The sixteen registers in turn. -/
def register (n : Nat) : Register := 1 + n % 16

/-- Whether the addresses of instruction `i` are machine words. -/
def isAddressable (core i : Nat) : Bool :=
  codeAddress core i ≤ Word.max && i * lineBytes ≤ Word.max && dataAddress core i ≤ Word.max

/-! ## Instructions -/

/-- Reads a register. -/
def reads (r : Register) : Operand := .reg .read r

/-- Writes a register. -/
def writes (r : Register) : Operand := .reg .write r

/-- The register from which data addresses are formed. -/
def dataBase : Register := 20

/-- Class, operands, data addresses and outcome of instruction `i`. -/
def shape (w : Workload) (core i : Nat) :
    InstrClass × List Operand × List Nat × Option Bool :=
  let data := dataAddress core i
  match w with
  | .dependentChain => (.add, [reads 1, writes 1], [], none)
  | .independent => (.add, [writes (register i)], [], none)
  | .memoryStream =>
    if i % 2 = 0 then
      (.generic, [.memory .read (some dataBase), writes (register i)], [data], none)
    else (.add, [reads (register (i - 1)), writes (register i)], [], none)
  | .branchy =>
    if i % 4 = 3 then (.branch, [reads (register (i - 1))], [], some (i / 4 % 3 != 2))
    else (.sub, [reads (register (i + 7)), writes (register i)], [], none)
  | .mixed =>
    match i % 8 with
    | 0 => (.generic, [.memory .read (some dataBase), writes 2], [data], none)
    | 1 => (.mul, [reads 2, writes 3], [], none)
    | 2 => (.generic, [reads 3, .memory .write (some dataBase)], [data + 8], none)
    | 3 => (.add, [reads 3, .memory .read none, writes 4], [data + 8], none)
    | 5 => (.branch, [reads 4], [], some (i % 24 != 5))
    | n => (.add, [reads (register (n + 4)), writes (register (n + 5))], [], none)

/-- Instruction `i` of a core. -/
def instruction (w : Workload) (core i : Nat) : Except Fault InstrInstance :=
  if isAddressable core i then
    let (kind, operands, addresses, taken?) := w.shape core i
    .ok
      { instruction := { kind, address := .ofNat (codeAddress core i), operands }
        addresses := addresses.map .ofNat
        branch := taken?.map fun taken => ⟨taken, .ofNat (loopStart core)⟩ }
  else .error .arithmeticOverflow

end Workload

end CoreTiming
