import CoreTiming.Proofs.Intake
import CoreTiming.Proofs.Latencies
import CoreTiming.Simulation.Feed

/-!
# What the front end provides

Three walks over the operands of an instruction have to agree: the workload lists the addresses of its memory operands,
the front end pairs them with the operands to perform their accesses, and the timing model looks for one information on
each of them, in the direction of the operand.  `Feed.exists_of_next` says that they do: with an instruction of a
workload comes one information for each of its memory operands, in their order and with their directions, provided that
its accesses are served (`Hierarchy.Serves`).
-/

namespace CoreTiming

open Faulting

/-! ## Section 1: Requests that are served -/

namespace Hierarchy

variable {config : MemoryConfig} {period : Period} {h : Hierarchy} {r : MemoryRequest} {rs : List MemoryRequest}

/-- The requests are served one after the other: when its turn comes, the cycles of each are a word in sum. -/
def Serves : List MemoryRequest → Hierarchy → Prop
  | [], _ => True
  | r :: rs, h => h.cost r.address (h.enabled r.path) ≤ Word.max ∧ Serves rs (left (serve r h))

/-- The first of them is answered, and the others are served after it. -/
theorem Serves.exists_of_cons (serves : h.Serves (r :: rs)) (b : h.Built config period) :
    ∃ served h', serve r h = .ok served h' ∧ h'.Built config period ∧ h'.Serves rs := by
  obtain ⟨fits, rest⟩ := serves
  obtain ⟨h', answered, -⟩ := b.serve_eq_ok r fits
  have built := b.left_serve r
  rw [answered] at built rest
  exact ⟨_, h', answered, built, rest⟩

/-- Whatever is requested is served if no request can take too long. -/
theorem Built.serves (b : h.Built config period) (fits : ∀ r ∈ rs, config.longest r.path ≤ Word.max) :
    h.Serves rs := by
  induction rs generalizing h with
  | nil => exact trivial
  | cons r rs ih =>
    constructor
    · exact Nat.le_trans (b.cost_le_longest r.address r.path) (fits r List.mem_cons_self)
    · apply ih (b.left_serve r)
      intro r' mem
      exact fits r' (List.mem_cons_of_mem _ mem)

end Hierarchy

/-! ## Section 2: The accesses of an instruction -/

namespace InstrInstance

/-- The request of a memory operand with its address. -/
def request : Direction × Option Register × Address → MemoryRequest
  | (direction, _, address) => .data { address, size := accessSize, isWrite := direction == .write }

/-- The requests of all memory operands, in order. -/
def requests (u : InstrInstance) : List MemoryRequest :=
  (pairAddresses u.instruction.operands u.addresses).map request

/-- The request that fetches the instruction. -/
def fetch (u : InstrInstance) : MemoryRequest := .fetch u.instruction.address u.instruction.size

/-- Every memory operand gets an address, in order. -/
theorem map_fst_pairAddresses (operands : List Operand) (addresses : List Address) :
    (pairAddresses operands addresses).map Prod.fst = operands.filterMap Operand.memory? := by
  induction operands generalizing addresses with
  | nil => rfl
  | cons operand rest ih =>
    cases operand with
    | reg direction register => exact ih addresses
    | memory direction base =>
      rw [pairAddresses, List.map_cons, ih]
      rfl

end InstrInstance

namespace Feed

variable {config : MemoryConfig} {period : Period} {h : Hierarchy} {rs : List MemoryRequest}

/-- The access of an operand that is served gives the information on it. -/
theorem exists_of_resolve {operand : Direction × Option Register × Address} (ip : Address)
    (serves : h.Serves (InstrInstance.request operand :: rs)) (b : h.Built config period) :
    ∃ info h', resolve ip operand.1 operand.2.2 h = .ok info h' ∧ info.direction = operand.1 ∧
      h'.Built config period ∧ h'.Serves rs := by
  obtain ⟨direction, base, address⟩ := operand
  obtain ⟨served, h', answered, built, rest⟩ := serves.exists_of_cons b
  have resolved : resolve ip direction address h =
      .ok { direction, ip, address, latency := served.latency, hit := served.hit } h' := bind_of_ok answered
  exact ⟨_, h', resolved, rfl, built, rest⟩

/-- So it is for all operands of an instruction. -/
theorem exists_of_resolve_all (ip : Address) (operands : List (Direction × Option Register × Address))
    (serves : h.Serves (operands.map InstrInstance.request ++ rs)) (b : h.Built config period) :
    ∃ infos h', (operands.mapM fun operand => resolve ip operand.1 operand.2.2) h = .ok infos h' ∧
      infos.map (·.direction) = operands.map Prod.fst ∧ h'.Built config period ∧ h'.Serves rs := by
  induction operands generalizing h with
  | nil => exact ⟨[], h, rfl, rfl, b, serves⟩
  | cons operand operands ih =>
    obtain ⟨info, h₁, resolved, direction, built, rest⟩ := exists_of_resolve ip serves b
    obtain ⟨infos, h₂, all, directions, built, rest⟩ := ih rest built
    refine ⟨info :: infos, h₂, ?_, ?_, built, rest⟩
    · rw [List.mapM_cons, bind_of_ok resolved, bind_of_ok all]
      rfl
    · rw [List.map_cons, List.map_cons, direction, directions]

end Feed

/-! ## Section 3: The instructions of a workload -/

namespace Workload

variable {w : Workload} {core i n : Nat} {u : InstrInstance}

/-- All addresses are words, however long the run within reason. -/
theorem isAddressable_of_lt (low : core < 2 ^ 32) (short : i < 2 ^ 50) : isAddressable core i = true := by
  have loop : i % loopLength < loopLength := Nat.mod_lt _ (by decide)
  have span : i * lineBytes % workingSet < workingSet := Nat.mod_lt _ (by decide)
  unfold isAddressable codeAddress loopStart dataAddress
  simp only [Bool.and_eq_true, decide_eq_true_iff]
  simp only [loopLength, workingSet, lineBytes, coreStride, Word.max] at loop span ⊢
  omega

/-- The code does not lie at the address of pseudo instructions. -/
theorem ofNat_codeAddress_ne_zero (addressable : isAddressable core i = true) :
    (UInt64.ofNat (codeAddress core i) : Address) ≠ 0 := by
  unfold isAddressable at addressable
  simp only [Bool.and_eq_true, decide_eq_true_iff] at addressable
  have low : 0x400000 ≤ codeAddress core i := by
    unfold codeAddress loopStart
    omega
  have fits : codeAddress core i < 2 ^ 64 := Nat.lt_succ_of_le addressable.1.1
  intro zero
  have value := congrArg UInt64.toNat zero
  rw [UInt64.toNat_ofNat', Nat.mod_eq_of_lt fits] at value
  rw [value] at low
  exact absurd low (by decide)

/-- The registers of a workload are among the first twenty-one. -/
theorem within_shape (w : Workload) (core i : Nat) :
    (w.shape core i).2.1.all (·.within (some InOrder.numRegisters)) = true := by
  have low : ∀ n, register n < InOrder.numRegisters := by
    intro n
    show 1 + n % 16 < 512
    omega
  cases w with
  | dependentChain => simp [shape, reads, writes, Operand.within, InOrder.numRegisters]
  | independent => simp [shape, writes, Operand.within, low]
  | memoryStream =>
    unfold shape
    dsimp only
    split
    · simp [writes, Operand.within, low]
    · simp [reads, writes, Operand.within, low]
  | branchy =>
    unfold shape
    dsimp only
    split
    · simp [reads, Operand.within, low]
    · simp [reads, writes, Operand.within, low]
  | mixed =>
    unfold shape
    dsimp only
    split
    · simp [writes, Operand.within, InOrder.numRegisters]
    · simp [reads, writes, Operand.within, InOrder.numRegisters]
    · simp [reads, Operand.within, InOrder.numRegisters]
    · simp [reads, writes, Operand.within, InOrder.numRegisters]
    · simp [reads, Operand.within, InOrder.numRegisters]
    · simp [reads, writes, Operand.within, low]

/-- No instruction of a workload is a pseudo instruction. -/
theorem isDynamic_shape (w : Workload) (core i : Nat) : (w.shape core i).1.isDynamic = false := by
  cases w with
  | dependentChain => rfl
  | independent => rfl
  | memoryStream =>
    unfold shape
    dsimp only
    split <;> rfl
  | branchy =>
    unfold shape
    dsimp only
    split <;> rfl
  | mixed =>
    unfold shape
    dsimp only
    split <;> rfl

/-- What all instructions of workloads have in common. -/
structure Plain (u : InstrInstance) : Prop where
  /-- It is fetched from an address. -/
  address : u.instruction.address ≠ 0
  /-- In-order cores know its registers. -/
  within : u.instruction.within (some InOrder.numRegisters) = true
  /-- It comes from a program. -/
  program : u.instruction.kind.isDynamic = false

theorem exists_instruction (w : Workload) (low : core < 2 ^ 32) (short : i < 2 ^ 50) :
    ∃ u, w.instruction core i = .ok u ∧ Plain u := by
  have addressable := isAddressable_of_lt low short
  unfold instruction
  rw [if_pos addressable]
  exact ⟨_, rfl, ofNat_codeAddress_ne_zero addressable, within_shape w core i, isDynamic_shape w core i⟩

/-- `n` instructions from instruction `i` on. -/
def stream (w : Workload) (core i n : Nat) : List InstrInstance :=
  (List.range' i n).filterMap fun k => (w.instruction core k).toOption

theorem stream_succ (made : w.instruction core i = .ok u) (n : Nat) :
    w.stream core i (n + 1) = u :: w.stream core (i + 1) n := by
  unfold stream
  rw [List.range'_succ, List.filterMap_cons_some (b := u)]
  rw [made]
  rfl

/-- The requests for data that `n` instructions make from instruction `i` on. -/
def requests (w : Workload) (core i n : Nat) : List MemoryRequest :=
  (w.stream core i n).flatMap InstrInstance.requests

/-- The requests that fetch `n` instructions from instruction `i` on. -/
def fetches (w : Workload) (core i n : Nat) : List MemoryRequest := (w.stream core i n).map InstrInstance.fetch

theorem requests_succ (made : w.instruction core i = .ok u) (n : Nat) :
    w.requests core i (n + 1) = u.requests ++ w.requests core (i + 1) n := by
  unfold requests
  rw [stream_succ made, List.flatMap_cons]

theorem fetches_succ (made : w.instruction core i = .ok u) (n : Nat) :
    w.fetches core i (n + 1) = u.fetch :: w.fetches core (i + 1) n := by
  unfold fetches
  rw [stream_succ made, List.map_cons]

end Workload

/-! ## Section 4: The next instruction -/

namespace Feed

variable {config : MemoryConfig} {period : Period} {f : Feed} {u : InstrInstance} {rs : List MemoryRequest}

/-- The next instruction comes with one information for each of its memory operands. -/
theorem exists_of_next (made : f.workload.instruction f.core f.position = .ok u)
    (serves : f.memory.Serves (u.requests ++ rs)) (b : f.memory.Built config period) :
    ∃ infos memory, next f = .ok (u, infos) { f with position := f.position + 1, memory } ∧
      infos.map (·.direction) = u.instruction.memoryOperands ∧ memory.Built config period ∧ memory.Serves rs := by
  obtain ⟨infos, memory, all, directions, built, rest⟩ := exists_of_resolve_all u.instruction.address _ serves b
  refine ⟨infos, memory, ?_, ?_, built, rest⟩
  · unfold next
    rw [get_bind, made, ofExcept_ok_bind]
    refine bind_eq_ok.mpr ⟨infos, { f with memory }, zoom_eq_ok.mpr ⟨memory, all, rfl⟩, ?_⟩
    rfl
  · rw [directions, InstrInstance.map_fst_pairAddresses]
    rfl

end Feed

end CoreTiming
