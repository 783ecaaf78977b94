import CoreTiming.Proofs.OperandInfo
import CoreTiming.Proofs.Writers
import Mathlib.Logic.Relation

/-!
# How values flow inside one instruction

The micro-ops of one instruction hand values to each other through registers, and so each of them depends on the
youngest one before it that writes a register it reads (`DependsOn`).

Where there is a computation, it stands between the loads and the stores: it reads what each load has filled, and
every store reads its result, so every store depends on every load (`Computed.dependsOn`).  An instruction that only
moves data has no micro-op in between.  Its loads write the destination registers one over the other, and its stores
read the source registers, so a store depends on a load only where these registers meet (`Moved.dependsOn_iff`).
-/

namespace CoreTiming

/-- The micro-op at `k` reads a register whose youngest writer before it is the micro-op at `j`. -/
def Feeds (ops : List OpInstance) (k j : Nat) : Prop :=
  ∃ v, ops[k]? = some v ∧ ∃ r ∈ v.op.sources, Youngest ops (OpInstance.Writes r) k j

/-- The micro-op at `k` depends on that at `j`, directly or through others. -/
def DependsOn (ops : List OpInstance) : Nat → Nat → Prop := Relation.TransGen (Feeds ops)

/-! ## Section 1: Instructions with a computation -/

/-- The micro-ops of an instruction with `n` loads and a computation that reads `sources`. -/
structure Computed (n : Nat) (sources : List Register) (ops : List OpInstance) : Prop where
  /-- Each load fills a temporary register of its own. -/
  load : ∀ (k : Nat) (v : OpInstance), k < n → ops[k]? = some v →
    v.op.isStore = false ∧ v.op.destinations = [loadTemporary k]
  /-- The computation reads all of them, and hands its result to the stores, if there are any. -/
  computation : ∃ v, ops[n]? = some v ∧ (v.op.isLoad = false ∧ v.op.isStore = false) ∧
    (∀ r ∈ sources, r ∈ v.op.sources) ∧ (∀ j < n, loadTemporary j ∈ v.op.sources) ∧
    (n + 1 < ops.length → storeData ∈ v.op.destinations)
  /-- Each store reads that result, and fills no register. -/
  store : ∀ (k : Nat) (v : OpInstance), n < k → ops[k]? = some v →
    v.op.isLoad = false ∧ storeData ∈ v.op.sources ∧ v.op.destinations = []

namespace Computed

variable {n j k : Nat} {sources : List Register} {ops : List OpInstance} {v w : OpInstance}

/-- Fifteen loads fill different registers. -/
theorem loadTemporary_injective (few : n ≤ 15) {i j : Nat} (hi : i < n) (hj : j < n)
    (same : loadTemporary i = loadTemporary j) : i = j := by
  have remainders : i % 15 = j % 15 := Nat.add_left_cancel same
  omega

/-- Stores come behind the computation. -/
theorem lt_of_store (h : Computed n sources ops) (at_k : ops[k]? = some v) (store : v.op.isStore = true) : n < k := by
  by_contra before
  rcases Nat.lt_or_eq_of_le (Nat.not_lt.mp before) with earlier | rfl
  · rw [(h.load k v earlier at_k).1] at store
    cases store
  · obtain ⟨c, at_n, ⟨-, none⟩, -⟩ := h.computation
    obtain rfl := Option.some.inj (at_k.symm.trans at_n)
    rw [none] at store
    cases store

/-- Loads come before it. -/
theorem lt_of_load (h : Computed n sources ops) (at_j : ops[j]? = some w) (load : w.op.isLoad = true) : j < n := by
  by_contra behind
  rcases Nat.lt_or_eq_of_le (Nat.not_lt.mp behind) with later | rfl
  · rw [(h.store j w later at_j).1] at load
    cases load
  · obtain ⟨c, at_n, ⟨none, -⟩, -⟩ := h.computation
    obtain rfl := Option.some.inj (at_j.symm.trans at_n)
    rw [none] at load
    cases load

/-- The computation feeds every store. -/
theorem feeds_store (h : Computed n sources ops) (at_k : ops[k]? = some v) (behind : n < k) : Feeds ops k n := by
  obtain ⟨c, at_n, -, -, -, result⟩ := h.computation
  have inside : k < ops.length := (List.getElem?_eq_some_iff.mp at_k).1
  refine ⟨v, at_k, storeData, (h.store k v behind at_k).2.1, behind, ⟨c, at_n, result (by omega)⟩, ?_⟩
  -- between the computation and the store there are only stores
  intro m u after before at_m writes
  have none := (h.store m u after at_m).2.2
  unfold OpInstance.Writes at writes
  rw [none] at writes
  cases writes

/-- Each load feeds the computation. -/
theorem feeds_computation (h : Computed n sources ops) (few : n ≤ 15) (inside : j < n) : Feeds ops n j := by
  obtain ⟨c, at_n, -, -, reads, -⟩ := h.computation
  have loaded : ∃ u, ops[j]? = some u := by
    have long : n < ops.length := (List.getElem?_eq_some_iff.mp at_n).1
    exact ⟨_, List.getElem?_eq_getElem (inside.trans long)⟩
  obtain ⟨u, at_j⟩ := loaded
  refine ⟨c, at_n, loadTemporary j, reads j inside, inside, ⟨u, at_j, ?_⟩, ?_⟩
  · unfold OpInstance.Writes
    rw [(h.load j u inside at_j).2]
    exact List.mem_singleton_self _
  · -- the loads behind it fill other registers
    intro m w after before at_m writes
    unfold OpInstance.Writes at writes
    rw [(h.load m w before at_m).2, List.mem_singleton] at writes
    exact Nat.ne_of_lt after (loadTemporary_injective few inside before writes)

/-- Every store depends on every load. -/
theorem dependsOn (h : Computed n sources ops) (few : n ≤ 15) (at_k : ops[k]? = some v) (store : v.op.isStore = true)
    (at_j : ops[j]? = some w) (load : w.op.isLoad = true) : DependsOn ops k j := by
  have result := Relation.TransGen.single (h.feeds_store at_k (h.lt_of_store at_k store))
  exact result.tail (h.feeds_computation few (h.lt_of_load at_j load))

/-- What the computation reads goes into every store. -/
theorem exists_reader (h : Computed n sources ops) (at_k : ops[k]? = some v) (store : v.op.isStore = true)
    {r : Register} (read : r ∈ sources) : ∃ j w, DependsOn ops k j ∧ ops[j]? = some w ∧ r ∈ w.op.sources := by
  obtain ⟨c, at_n, -, reads, -⟩ := h.computation
  exact ⟨n, c, .single (h.feeds_store at_k (h.lt_of_store at_k store)), at_n, reads r read⟩

end Computed

/-! ## Section 2: Instructions that only move data -/

/-- The micro-ops of an instruction with `n` loads into `destinations` and stores of `sources`. -/
structure Moved (n : Nat) (sources destinations : List Register) (ops : List OpInstance) : Prop where
  /-- Each load reads its base register and fills all destinations. -/
  load : ∀ (k : Nat) (v : OpInstance), k < n → ops[k]? = some v →
    (v.op.isLoad = true ∧ v.op.isStore = false) ∧ v.op.sources = v.op.addressRegisters ∧
      v.op.destinations = destinations
  /-- There are so many loads. -/
  length : n ≤ ops.length
  /-- Each store reads the sources, and fills no register. -/
  store : ∀ (k : Nat) (v : OpInstance), n ≤ k → ops[k]? = some v →
    v.op.isLoad = false ∧ (∀ r ∈ sources, r ∈ v.op.sources) ∧ v.op.destinations = []

namespace Moved

variable {n j k l : Nat} {sources destinations : List Register} {ops : List OpInstance} {v w : OpInstance}

/-- Stores come behind the loads. -/
theorem le_of_store (h : Moved n sources destinations ops) (at_k : ops[k]? = some v) (store : v.op.isStore = true) :
    n ≤ k := by
  by_contra before
  rw [(h.load k v (Nat.not_le.mp before) at_k).1.2] at store
  cases store

theorem lt_of_load (h : Moved n sources destinations ops) (at_j : ops[j]? = some w) (load : w.op.isLoad = true) :
    j < n := by
  by_contra behind
  rw [(h.store j w (Nat.not_lt.mp behind) at_j).1] at load
  cases load

/-- The loads fill the same registers, so that the youngest writer of one is the last load there is before `k`. -/
theorem youngest_iff (h : Moved n sources destinations ops) {r : Register} :
    Youngest ops (OpInstance.Writes r) k j ↔ r ∈ destinations ∧ j < n ∧ j < k ∧ (j + 1 = n ∨ j + 1 = k) := by
  have fills : ∀ {m : Nat} {u : OpInstance}, ops[m]? = some u → (OpInstance.Writes r u ↔ m < n ∧ r ∈ destinations) := by
    intro m u at_m
    unfold OpInstance.Writes
    by_cases load : m < n
    · rw [(h.load m u load at_m).2.2]
      exact ⟨fun mem => ⟨load, mem⟩, fun both => both.2⟩
    · rw [(h.store m u (Nat.not_lt.mp load) at_m).2.2]
      exact ⟨fun mem => absurd mem List.not_mem_nil, fun both => absurd both.1 load⟩
  constructor
  · intro youngest
    have before := youngest.before
    obtain ⟨u, at_j, writes⟩ := youngest.holds
    obtain ⟨load, mem⟩ := (fills at_j).mp writes
    refine ⟨mem, load, before, ?_⟩
    -- otherwise the load behind it would be younger
    by_contra neither
    have next : j + 1 < n ∧ j + 1 < k := by omega
    have at_next := List.getElem?_eq_getElem (next.1.trans_le h.length)
    exact youngest.last (j + 1) _ (Nat.lt_succ_self j) next.2 at_next ((fills at_next).mpr ⟨next.1, mem⟩)
  · rintro ⟨mem, load, before, last⟩
    have at_j := List.getElem?_eq_getElem (load.trans_le h.length)
    refine ⟨before, ⟨_, at_j, (fills at_j).mpr ⟨load, mem⟩⟩, ?_⟩
    intro m u after inside at_m writes
    have load' := ((fills at_m).mp writes).1
    omega

/-- A micro-op is fed by the last load before it, if it reads one of the destinations. -/
theorem feeds_iff (h : Moved n sources destinations ops) (at_k : ops[k]? = some v) :
    Feeds ops k j ↔ (∃ r ∈ v.op.sources, r ∈ destinations) ∧ j < n ∧ j < k ∧ (j + 1 = n ∨ j + 1 = k) := by
  constructor
  · rintro ⟨u, at_k', r, read, youngest⟩
    obtain rfl := Option.some.inj (at_k.symm.trans at_k')
    obtain ⟨mem, last⟩ := h.youngest_iff.mp youngest
    exact ⟨⟨r, read, mem⟩, last⟩
  · rintro ⟨⟨r, read, mem⟩, last⟩
    exact ⟨v, at_k, r, read, h.youngest_iff.mpr ⟨mem, last⟩⟩

/-- Each load behind `j`, up to `l`, forms its address from a destination. -/
def Chain (destinations : List Register) (ops : List OpInstance) (j l : Nat) : Prop :=
  ∀ (m : Nat) (x : OpInstance), j < m → m ≤ l → ops[m]? = some x → ∃ r ∈ x.op.addressRegisters, r ∈ destinations

/-- Among the loads, a value goes from one to the next. -/
theorem reach_iff (h : Moved n sources destinations ops) (load : l < n) :
    Relation.ReflTransGen (Feeds ops) l j ↔ j ≤ l ∧ Chain destinations ops j l := by
  -- only the load just before it can feed a load, so a way leads through all in between
  induction l with
  | zero =>
    constructor
    · intro reach
      rcases reach.cases_head with rfl | ⟨m, first, -⟩
      · exact ⟨le_refl _, fun m x after before _ => absurd (after.trans_le before) (Nat.lt_irrefl _)⟩
      · obtain ⟨u, -, r, -, youngest⟩ := first
        exact absurd youngest.before (Nat.not_lt_zero _)
    · rintro ⟨le, -⟩
      obtain rfl := Nat.le_zero.mp le
      exact .refl
  | succ l ih =>
    obtain ⟨x, at_l⟩ : ∃ x, ops[l + 1]? = some x := ⟨_, List.getElem?_eq_getElem (load.trans_le h.length)⟩
    have earlier := ih (Nat.lt_of_succ_lt load)
    have base := (h.load (l + 1) x load at_l).2.1
    constructor
    · intro reach
      rcases reach.cases_head with rfl | ⟨m, first, rest⟩
      · exact ⟨le_refl _, fun m x after before _ => absurd (after.trans_le before) (Nat.lt_irrefl _)⟩
      · obtain ⟨⟨r, read, mem⟩, -, older, last⟩ := (h.feeds_iff at_l).mp first
        obtain rfl : m = l := by omega
        obtain ⟨le, chain⟩ := earlier.mp rest
        refine ⟨le.trans (Nat.le_succ _), ?_⟩
        intro i y after before at_i
        rcases Nat.lt_or_eq_of_le before with inside | rfl
        · exact chain i y after (Nat.lt_succ_iff.mp inside) at_i
        · obtain rfl := Option.some.inj (at_l.symm.trans at_i)
          exact ⟨r, base ▸ read, mem⟩
    · rintro ⟨le, chain⟩
      rcases Nat.lt_or_eq_of_le le with behind | rfl
      · have step : Feeds ops (l + 1) l := by
          refine (h.feeds_iff at_l).mpr ⟨?_, by omega, by omega, .inr rfl⟩
          rw [base]
          exact chain (l + 1) x behind (le_refl _) at_l
        refine .head step (earlier.mpr ⟨Nat.lt_succ_iff.mp behind, ?_⟩)
        exact fun m y after before => chain m y after (before.trans (Nat.le_succ _))
      · exact .refl

/-- A store depends on a load exactly if it reads a destination and every load behind that one forms its address from
a destination. -/
theorem dependsOn_iff (h : Moved n sources destinations ops) (at_k : ops[k]? = some v) (store : v.op.isStore = true)
    (at_j : ops[j]? = some w) (load : w.op.isLoad = true) :
    DependsOn ops k j ↔ (∃ r ∈ v.op.sources, r ∈ destinations) ∧
      ∀ (m : Nat) (x : OpInstance), j < m → ops[m]? = some x → x.op.isLoad = true →
        ∃ r ∈ x.op.addressRegisters, r ∈ destinations := by
  have behind := h.le_of_store at_k store
  have inside := h.lt_of_load at_j load
  have last : n - 1 < n := by omega
  have chain_iff : Chain destinations ops j (n - 1) ↔ ∀ (m : Nat) (x : OpInstance), j < m → ops[m]? = some x →
      x.op.isLoad = true → ∃ r ∈ x.op.addressRegisters, r ∈ destinations := by
    constructor
    · intro chain m x after at_m loading
      have before := h.lt_of_load at_m loading
      exact chain m x after (by omega) at_m
    · intro all m x after before at_m
      exact all m x after at_m (h.load m x (by omega) at_m).1.1
  unfold DependsOn
  rw [Relation.TransGen.head'_iff, ← chain_iff]
  constructor
  · rintro ⟨m, first, rest⟩
    obtain ⟨read, loaded, -, at_end⟩ := (h.feeds_iff at_k).mp first
    obtain rfl : m = n - 1 := by omega
    exact ⟨read, ((h.reach_iff last).mp rest).2⟩
  · rintro ⟨read, chain⟩
    refine ⟨n - 1, (h.feeds_iff at_k).mpr ⟨read, last, by omega, by omega⟩, ?_⟩
    exact (h.reach_iff last).mpr ⟨by omega, chain⟩

end Moved

/-! ## Section 3: What decoding gives -/

namespace InstrInstance

variable {u : InstrInstance} {costs : CostTable} {period : Period} {ops : List OpInstance} {v : OpInstance} {k : Nat}

/-- Marking the ends changes neither the kinds nor the registers of micro-ops. -/
theorem exists_of_markEnds (at_k : (markEnds ops)[k]? = some v) :
    ∃ w first last, ops[k]? = some w ∧ v = { w with op := { w.op with first, last } } := by
  unfold markEnds at at_k
  rw [List.getElem?_mapIdx] at at_k
  obtain ⟨w, at_k', rfl⟩ := Option.map_eq_some_iff.mp at_k
  exact ⟨w, _, _, at_k', rfl⟩

theorem getElem?_markEnds (at_k : ops[k]? = some v) :
    (markEnds ops)[k]? = some { v with op := { v.op with first := k == 0, last := k + 1 == ops.length } } := by
  unfold markEnds
  rw [List.getElem?_mapIdx, at_k]
  rfl

theorem length_markEnds (ops : List OpInstance) : (markEnds ops).length = ops.length := List.length_mapIdx

theorem wiring_of_loads {destinations : Nat → List Register} (at_k : (u.loads destinations)[k]? = some v) :
    (v.op.isLoad = true ∧ v.op.isStore = false) ∧ v.op.sources = v.op.addressRegisters ∧
      v.op.destinations = destinations k := by
  unfold loads at at_k
  rw [List.getElem?_mapIdx] at at_k
  obtain ⟨⟨base, address⟩, -, rfl⟩ := Option.map_eq_some_iff.mp at_k
  exact ⟨⟨rfl, rfl⟩, rfl, rfl⟩

theorem wiring_of_stores {data : List Register} (at_k : (u.stores data)[k]? = some v) :
    v.op.isLoad = false ∧ (∀ r ∈ data, r ∈ v.op.sources) ∧ v.op.destinations = [] := by
  unfold stores at at_k
  rw [List.getElem?_map] at at_k
  obtain ⟨⟨base, address⟩, -, rfl⟩ := Option.map_eq_some_iff.mp at_k
  exact ⟨rfl, fun r mem => List.mem_append_left _ mem, rfl⟩

theorem wiring_of_compute {c : OpInstance} (h : u.compute costs period = .ok c) :
    (∀ r ∈ u.instruction.registers .read, r ∈ c.op.sources) ∧
      (∀ j < (u.memoryOperands .read).length, loadTemporary j ∈ c.op.sources) ∧
      (0 < (u.memoryOperands .write).length → storeData ∈ c.op.destinations) := by
  unfold compute at h
  obtain ⟨latency, -, h⟩ := Except.bind_eq_ok.mp h
  cases h
  refine ⟨fun r mem => List.mem_append_left _ mem, fun j inside => ?_, fun some => ?_⟩
  · exact List.mem_append_right _ (List.mem_map_of_mem (List.mem_range.mpr inside))
  · have writes : (u.memoryOperands .write).isEmpty = false := by
      rw [List.isEmpty_eq_false_iff]
      exact List.length_pos_iff.mp some
    simp [writes]

/-- An instruction that only moves data. -/
theorem moved_of_decode (moves : u.movesOnly = true) (h : u.decode costs period = .ok ops) :
    Moved (u.memoryOperands .read).length (u.instruction.registers .read) (u.instruction.registers .write) ops := by
  unfold decode at h
  rw [if_pos moves] at h
  cases h
  have count := u.length_loads fun _ => u.instruction.registers .write
  refine ⟨fun k v inside at_k => ?_, ?_, fun k v behind at_k => ?_⟩
  · obtain ⟨w, first, last, at_k', rfl⟩ := exists_of_markEnds at_k
    rw [List.getElem?_append_left (count ▸ inside)] at at_k'
    have wired := wiring_of_loads at_k'
    exact wired
  · rw [length_markEnds, List.length_append, count]
    exact Nat.le_add_right _ _
  · obtain ⟨w, first, last, at_k', rfl⟩ := exists_of_markEnds at_k
    rw [List.getElem?_append_right (count ▸ behind)] at at_k'
    have wired := wiring_of_stores at_k'
    exact wired

/-- An instruction with a computation. -/
theorem computed_of_decode (computes : u.movesOnly = false) (h : u.decode costs period = .ok ops) :
    Computed (u.memoryOperands .read).length (u.instruction.registers .read) ops := by
  unfold decode at h
  rw [computes] at h
  obtain ⟨c, computed, h⟩ := Except.bind_eq_ok.mp h
  cases h
  have count := u.length_loads fun i => [loadTemporary i]
  refine ⟨fun k v inside at_k => ?_, ?_, fun k v behind at_k => ?_⟩
  · obtain ⟨w, first, last, at_k', rfl⟩ := exists_of_markEnds at_k
    rw [List.getElem?_append_left (count ▸ inside)] at at_k'
    obtain ⟨kind, -, filled⟩ := wiring_of_loads at_k'
    exact ⟨kind.2, filled⟩
  · have at_n : (u.loads (fun i => [loadTemporary i]) ++ c :: u.stores [storeData])[(u.memoryOperands .read).length]? =
        some c := by
      rw [List.getElem?_append_right (Nat.le_of_eq count), count, Nat.sub_self]
      rfl
    obtain ⟨reads, temporaries, result⟩ := wiring_of_compute computed
    have noAccess := no_access_of_compute computed
    refine ⟨_, getElem?_markEnds at_n, noAccess, reads, temporaries, fun stores => ?_⟩
    rw [length_markEnds, List.length_append, List.length_cons, count, length_stores] at stores
    exact result (by omega)
  · obtain ⟨w, first, last, at_k', rfl⟩ := exists_of_markEnds at_k
    obtain ⟨d, rfl⟩ := Nat.exists_eq_add_of_lt behind
    rw [List.getElem?_append_right (by omega), count] at at_k'
    have shifted : (u.memoryOperands .read).length + d + 1 - (u.memoryOperands .read).length = d + 1 := by omega
    rw [shifted, List.getElem?_cons_succ] at at_k'
    obtain ⟨load, reads, none⟩ := wiring_of_stores at_k'
    exact ⟨load, reads storeData List.mem_cons_self, none⟩

/-- Decoding keeps the flow of values inside an instruction with at most fifteen reads of memory.

If the instruction does more than move data, each store depends on each load.  If it only moves data, a store depends on
a load exactly if it reads a register that the loads fill and every load behind that one forms its address from such a
register.  In both cases every register that the instruction reads is read by each store, or by a micro-op that it
depends on. -/
theorem decode_keeps_dataflow (decoded : u.decode costs period = .ok ops)
    (few : (u.memoryOperands .read).length ≤ 15) :
    (u.movesOnly = false → ∀ (k j : Nat) (v w : OpInstance), ops[k]? = some v → v.op.isStore = true →
      ops[j]? = some w → w.op.isLoad = true → DependsOn ops k j) ∧
    (u.movesOnly = true → ∀ (k j : Nat) (v w : OpInstance), ops[k]? = some v → v.op.isStore = true →
      ops[j]? = some w → w.op.isLoad = true →
        (DependsOn ops k j ↔ (∃ r ∈ v.op.sources, r ∈ u.instruction.registers .write) ∧
          ∀ (m : Nat) (x : OpInstance), j < m → ops[m]? = some x → x.op.isLoad = true →
            ∃ r ∈ x.op.addressRegisters, r ∈ u.instruction.registers .write)) ∧
    ∀ (k : Nat) (v : OpInstance), ops[k]? = some v → v.op.isStore = true → ∀ r ∈ u.instruction.registers .read,
      r ∈ v.op.sources ∨ ∃ j w, DependsOn ops k j ∧ ops[j]? = some w ∧ r ∈ w.op.sources := by
  refine ⟨?_, ?_, ?_⟩
  · intro computes k j v w at_k store at_j load
    exact (computed_of_decode computes decoded).dependsOn few at_k store at_j load
  · intro moves k j v w at_k store at_j load
    exact (moved_of_decode moves decoded).dependsOn_iff at_k store at_j load
  · intro k v at_k store r read
    cases kind : u.movesOnly with
    | false => exact .inr ((computed_of_decode kind decoded).exists_reader at_k store read)
    | true =>
      have moved := moved_of_decode kind decoded
      exact .inl ((moved.store k v (moved.le_of_store at_k store) at_k).2.1 r read)

/-- The sum of a register and a word in memory, which goes back to memory. -/
def addToMemory : InstrInstance :=
  { instruction := { kind := .add, operands := [.memory .read (some 3), .reg .read 5, .memory .write (some 3)] } }

/-- A load, a sum and a store: the store depends on the load, and on the micro-op that reads the register. -/
theorem decode_keeps_dataflow_of_addToMemory :
    ∃ ops, addToMemory.decode {} (.ofTime ⟨1000⟩) = .ok ops ∧ DependsOn ops 2 0 ∧
      ∃ v, ops[2]? = some v ∧
        (5 ∈ v.op.sources ∨ ∃ j w, DependsOn ops 2 j ∧ ops[j]? = some w ∧ 5 ∈ w.op.sources) := by
  have decoded : ∃ ops v w, addToMemory.decode {} (.ofTime ⟨1000⟩) = .ok ops ∧ ops[2]? = some v ∧
      v.op.isStore = true ∧ ops[0]? = some w ∧ w.op.isLoad = true := ⟨_, _, _, rfl, rfl, rfl, rfl, rfl⟩
  obtain ⟨ops, v, w, decoded, at_two, store, at_zero, load⟩ := decoded
  obtain ⟨computes, -, reads⟩ := decode_keeps_dataflow decoded (by decide)
  exact ⟨ops, decoded, computes rfl 2 0 v w at_two store at_zero load, v, at_two,
    reads 2 v at_two store 5 (by decide)⟩

/-- A word that is moved from one place in memory to another. -/
def moveInMemory : InstrInstance :=
  { instruction := { kind := .generic, operands := [.memory .read none, .memory .write none] } }

/-- No register carries the word, so that the store does not depend on the load. -/
theorem move_in_memory_breaks_dataflow :
    ∃ ops v w, moveInMemory.decode {} (.ofTime ⟨1000⟩) = .ok ops ∧ ops[1]? = some v ∧ v.op.isStore = true ∧
      ops[0]? = some w ∧ w.op.isLoad = true ∧ ¬DependsOn ops 1 0 := by
  have decoded : ∃ ops v w, moveInMemory.decode {} (.ofTime ⟨1000⟩) = .ok ops ∧ ops[1]? = some v ∧
      v.op.isStore = true ∧ ops[0]? = some w ∧ w.op.isLoad = true ∧ v.op.sources = [] :=
    ⟨_, _, _, rfl, rfl, rfl, rfl, rfl, rfl⟩
  obtain ⟨ops, v, w, decoded, at_one, store, at_zero, load, nothing⟩ := decoded
  refine ⟨ops, v, w, decoded, at_one, store, at_zero, load, fun depends => ?_⟩
  unfold DependsOn at depends
  rw [Relation.TransGen.head'_iff] at depends
  obtain ⟨j, ⟨v', at_one', r, read, -⟩, -⟩ := depends
  obtain rfl := Option.some.inj (at_one.symm.trans at_one')
  rw [nothing] at read
  cases read

end InstrInstance

end CoreTiming
