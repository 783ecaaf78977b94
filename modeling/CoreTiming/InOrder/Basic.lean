import CoreTiming.Config.Basic
import CoreTiming.InOrder.StoreBuffer
import CoreTiming.Memory.System
import CoreTiming.Model.State

/-!
# In-order cores

Instructions issue in program order once the registers that they read are ready.  Memory works out
of order: loads go to a set of load units, unless the store buffer serves them, and stores retire
into the store buffer.

An instruction is timed in three parts.  Its loads start when its source registers are ready, and
the longest of them is waited for; it completes after its own cost; then its results become ready
and its stores enter the buffer.
-/

namespace CoreTiming

/-- The in-order model of a core. -/
structure InOrder (M : Type) where
  /-- Clock, count and information on memory operands. -/
  state : ModelState
  /-- When each register is ready. -/
  registers : Array Time
  /-- The store buffer. -/
  stores : StoreBuffer
  /-- The load units. -/
  loads : LoadUnits
  /-- The memory that instructions are fetched from. -/
  memory : M

namespace InOrder

variable {M : Type} [MemorySystem M]

/-- Registers whose readiness is kept. -/
def numRegisters : Nat := 512

/-- A model at time zero with empty buffers. -/
def new (period : Period) (costs : CostTable) (config : InOrderConfig) (memory : M) : InOrder M :=
  { state := .new period costs
    registers := Array.replicate numRegisters 0
    stores := .new config.storeBufferEntries
    loads := .new config.outstandingLoads
    memory }

/-- When register `r` is ready. -/
def registerReady (m : InOrder M) (r : Register) : Option Time := m.registers[r]?

/-- The first register operand that is out of range. -/
def outOfRange? (m : InOrder M) (i : Instruction) : Option Register :=
  i.operands.findSome? fun
    | .reg _ r => if m.registers.size ≤ r then some r else none
    | .memory .. => none

/-! ## Loads and stores -/

/-- Start and latency of a load at `time`.  Data in the store buffer is forwarded at once, and so is
data that has left it if the load hits the first level. -/
def load (m : InOrder M) (time : Time) (info : MemoryInfo) : (Time × Time) × InOrder M :=
  let status := m.stores.lookup time info.address
  if status = .valid ∨ (status = .completed ∧ info.hit = .l1) then ((time, 0), m)
  else
    let (start, loads) := m.loads.execute time info.latency
    ((start, info.latency), { m with loads })

/-- Runs loads one after the other from `ready` on; gives when the last one starts and the longest
latency. -/
def loadAll : List MemoryInfo → (ready longest : Time) → InOrder M → (Time × Time) × InOrder M
  | [], ready, longest, m => ((ready, longest), m)
  | info :: rest, ready, longest, m =>
    let ((start, latency), m) := m.load ready info
    loadAll rest (max ready start) (max longest latency) m

/-- Buffers stores at `time`; gives when all of them, and what was `ready` before, are in. -/
def storeAll (time : Time) : List MemoryInfo → (ready : Time) → InOrder M → Time × InOrder M
  | [], ready, m => (ready, m)
  | info :: rest, ready, m =>
    let (entered, stores) := m.stores.execute time info.latency info.address
    storeAll time rest (max ready entered) { m with stores }

/-! ## Instructions -/

/-- The latest time at which one of the registers is ready, not before `t`. -/
def readyFrom (m : InOrder M) (t : Time) (rs : List Register) : Time :=
  rs.foldl (fun t r => max t (m.registers.getD r 0)) t

/-- The registers are written at `t`. -/
def write (m : InOrder M) (t : Time) (rs : List Register) : InOrder M :=
  { m with registers := rs.foldl (fun registers r => registers.setIfInBounds r t) m.registers }

/-- Times `i`, which has been fetched and whose operands are described by `infos`. -/
def execute (m : InOrder M) (i : Instruction) (infos : List MemoryInfo) : InOrder M :=
  let now := m.state.clock.now
  let (reads, writes) := infos.partition (·.direction == .read)
  let cost := i.cost m.state.costs m.state.clock.period
  let ((ready, longest), m) := loadAll reads (m.readyFrom now (i.registers .read)) 0 m
  let completion := ready + longest + cost
  let written := i.registers .write
  let m := m.write completion written
  let (settled, m) := storeAll completion writes (if written.isEmpty then now else max now completion) m
  { m with state := (m.state.elapse 1 0).advanceTo (max completion settled) }

/-- Fetches `i`, if it has an address. -/
def fetch (i : Instruction) : Faulting (InOrder M) Unit := do
  if i.address ≠ 0 then
    let served ← Faulting.zoom (·.memory) (fun memory m => { m with memory })
      (MemorySystem.fetch i.address i.size)
    modify fun m => { m with state := m.state.elapse 0 served.latency }

/-- Times `i`, if the information on its memory operands has arrived.  Nothing is changed where it
has not, or where a register is out of range. -/
def time (i : Instruction) : Faulting (InOrder M) (Except CallError Bool) := do
  let m ← get
  match m.state.infosReady i, m.outOfRange? i with
  | .error e, _ => pure (.error e)
  | .ok false, _ => pure (.ok false)
  | .ok true, some r => pure (.error (.registerOutOfRange r m.registers.size))
  | .ok true, none =>
    fetch i
    let n := i.memoryOperands.length
    modify fun m =>
      execute { m with state := m.state.dropOldest n } i (m.state.oldest n)
    pure (.ok true)

end InOrder

end CoreTiming
