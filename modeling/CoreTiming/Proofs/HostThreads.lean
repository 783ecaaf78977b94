import CoreTiming.Proofs.Draining
import CoreTiming.Proofs.Provision
import CoreTiming.Simulation.Summary

/-!
# Host threads whose models share no window

The host thread of a core that shares no window never has to wait, so that it comes through in one turn.  What carries
the run is that model and front end are abreast after every instruction (`Simulation.Fed`): the model has timed as many
instructions as the front end has provided, and no information is left over for the next one to trip over.

`Simulation.no_instruction_is_skipped` draws the conclusions: every instruction is timed, nothing is left queued, and
the summary counts just the instructions that were asked for.
-/

namespace CoreTiming

open Faulting

/-! ## Section 1: Instructions that are fetched from caches -/

namespace InOrder

variable {config : MemoryConfig} {period : Period} {m : InOrder Hierarchy} {i : Instruction} {rs : List MemoryRequest}
  {own rest : List MemoryInfo}

/-- A fetch that is served moves the clock. -/
theorem exists_of_fetch (address : i.address ≠ 0) (serves : m.memory.Serves (.fetch i.address i.size :: rs))
    (b : m.memory.Built config period) :
    ∃ t memory, fetch i m = .ok () { m with state := m.state.elapse 0 t, memory } ∧ memory.Built config period ∧
      memory.Serves rs := by
  obtain ⟨served, memory, answered, built, left⟩ := serves.exists_of_cons b
  refine ⟨served.latency, memory, ?_, built, left⟩
  unfold fetch
  rw [if_pos address]
  exact bind_eq_ok.mpr ⟨served, { m with memory }, zoom_eq_ok.mpr ⟨memory, answered, rfl⟩, rfl⟩

/-- An instruction that has all it needs is timed if its fetch is served. -/
theorem exists_of_time_of_serves (holds : m.state.Holds i own rest) (kept : m.outOfRange? i = none)
    (address : i.address ≠ 0) (serves : m.memory.Serves (.fetch i.address i.size :: rs))
    (b : m.memory.Built config period) :
    ∃ m', InOrder.time i m = .ok (.ok true) m' ∧ m'.state.clock.period = m.state.clock.period ∧
      m'.memory.Built config period ∧ m'.memory.Serves rs := by
  obtain ⟨t, memory, fetched, built, left⟩ := exists_of_fetch address serves b
  rw [time_of_holds holds kept, bind_of_ok fetched, modify_bind]
  refine ⟨_, rfl, ?_⟩
  rw [execute_eq]
  exact ⟨rfl, built, left⟩

end InOrder

/-! ## Section 2: Models that share no window -/

namespace Model

section

variable {M : Type} {model : Model M}

/-- Which timing model it is. -/
def kind : Model M → ModelKind
  | .simple _ => .simple
  | .magic _ => .magic
  | .inOrder _ => .iocoom
  | .windowed _ => .robSmt

theorem windowed?_eq_none_iff : model.windowed? = none ↔ model.kind ≠ .robSmt := by
  cases model <;> simp [windowed?, kind]

@[simp] theorem kind_withInfos (queue : List MemoryInfo) (model : Model M) :
    (model.withInfos queue).kind = model.kind := by
  cases model <;> rfl

@[simp] theorem intake_withInfos (queue : List MemoryInfo) (model : Model M) :
    (model.withInfos queue).intake = { model.intake with queue } := by
  cases model <;> rfl

@[simp] theorem state_withInfos (queue : List MemoryInfo) (model : Model M) :
    (model.withInfos queue).state = model.state.withInfos queue := by
  cases model <;> rfl

/-- An enabled model queues what it is told. -/
theorem pushInfo_of_enabled (enabled : model.state.enabled = true) (info : MemoryInfo) :
    model.modifyState (·.pushInfo info) = model.withInfos (model.state.infos ++ [info]) := by
  have pushed : model.state.pushInfo info = model.state.withInfos (model.state.infos ++ [info]) := if_pos enabled
  cases model with
  | simple s => exact congrArg Model.simple pushed
  | magic s => exact congrArg Model.magic pushed
  | inOrder m => exact congrArg (fun state => Model.inOrder { m with state }) pushed
  | windowed w => exact congrArg (fun state => Model.windowed { w with state }) pushed

theorem withInfos_withInfos (queue queue' : List MemoryInfo) (model : Model M) :
    (model.withInfos queue).withInfos queue' = model.withInfos queue' := by
  cases model <;> rfl

end

variable {kind : ModelKind} {period : Period} {k : Nat} {rs : List MemoryRequest} {model : Model Hierarchy}
  {u : InstrInstance} {infos : List MemoryInfo}

/-- The fetches of the model, if it performs any, are served. -/
def Fetches (rs : List MemoryRequest) (model : Model Hierarchy) : Prop :=
  ∀ m, model = .inOrder m → (∃ config period, m.memory.Built config period) ∧ m.memory.Serves rs

/-- The model has timed `k` instructions and nothing is queued; the fetches of those that follow will be served. -/
structure CaughtUp (kind : ModelKind) (period : Period) (k : Nat) (rs : List MemoryRequest) (model : Model Hierarchy) :
    Prop where
  /-- Which model it is. -/
  named : model.kind = kind
  /-- It shares no window. -/
  alone : kind ≠ .robSmt
  /-- It takes what it is given. -/
  enabled : model.state.enabled = true
  /-- Nothing is queued. -/
  queue : model.state.infos = []
  /-- What has been timed. -/
  counted : model.state.instructions = k
  /-- The length of a cycle. -/
  cycle : model.state.clock.period = period
  /-- If it knows a limited number of registers, these are as many as in a new core. -/
  registers : ∀ n, model.intake.registers = some n → n = InOrder.numRegisters
  /-- The fetches to come. -/
  fetches : model.Fetches rs
  /-- A magic model has taken a cycle for each instruction, or time has come to its end. -/
  paced : kind = .magic → min (period.length.toNat * k) Time.limit ≤ model.state.clock.now.toNat

theorem CaughtUp.serial (h : model.CaughtUp kind period k rs) : model.windowed? = none := by
  rw [windowed?_eq_none_iff, h.named]
  exact h.alone

theorem CaughtUp.serial_withInfos (h : model.CaughtUp kind period k rs) (infos : List MemoryInfo) :
    (model.withInfos infos).windowed? = none := by
  rw [windowed?_eq_none_iff, kind_withInfos, h.named]
  exact h.alone

/-- With the information on its memory operands, an instruction of a workload finds all it needs. -/
theorem CaughtUp.verdict (h : model.CaughtUp kind period k rs) (plain : Workload.Plain u)
    (directions : infos.map (·.direction) = u.instruction.memoryOperands) :
    (model.withInfos infos).verdict u.instruction = .ok true := by
  rw [verdict_eq_ok_true_iff (h.serial_withInfos infos)]
  rw [intake_withInfos]
  constructor
  · have ready : matchInfos u.instruction.address u.instruction.memoryOperands (infos ++ []) = .ok true :=
      matchInfos_append directions
    rwa [List.append_nil] at ready
  · dsimp only
    cases limit : model.intake.registers with
    | none => exact within_none _
    | some n =>
      rw [h.registers n limit]
      exact plain.within

/-- The instruction is timed: a cycle or more elapses in a magic model. -/
theorem CaughtUp.exists_time (h : model.CaughtUp kind period k (u.fetch :: rs)) (plain : Workload.Plain u)
    (favour : (model.withInfos infos).verdict u.instruction = .ok true) :
    ∃ model', time u.instruction (model.withInfos infos) = .ok (.ok true) model' ∧ model'.kind = model.kind ∧
      model'.state.clock.period = model.state.clock.period ∧ model'.Fetches rs ∧
      (model.kind = .magic → ∃ t, model'.state.clock.now =
        model.state.clock.now + (t + model.state.clock.period.cycles 1)) := by
  obtain ⟨⟨own, rest, holds⟩, kept⟩ := exists_holds_of_verdict (h.serial_withInfos infos) favour
  cases model with
  | simple s =>
    refine ⟨_, serially_of_holds holds _ .simple _, rfl, rfl, ?_, ?_⟩
    · rintro m ⟨⟩
    · rintro ⟨⟩
  | magic s =>
    refine ⟨_, serially_of_holds holds _ .magic _, rfl, rfl, ?_, ?_⟩
    · rintro m ⟨⟩
    · intro _
      -- a pseudo instruction could cost nothing
      have cost : (s.withInfos infos).unitCost u.instruction = s.clock.period.cycles 1 := by
        unfold ModelState.unitCost
        rw [plain.program]
        rfl
      exact ⟨_, congrArg (fun cost => s.clock.now + (ModelState.totalLatency own + cost)) cost⟩
  | inOrder m =>
    obtain ⟨⟨config, p, built⟩, serves⟩ := h.fetches m rfl
    obtain ⟨m', ran, cycle, built', serves'⟩ :=
      InOrder.exists_of_time_of_serves holds (kept _ rfl) plain.address serves built
    refine ⟨.inOrder m', time_inOrder ran, rfl, cycle, ?_, ?_⟩
    · rintro _ ⟨⟩
      exact ⟨⟨config, p, built'⟩, serves'⟩
    · rintro ⟨⟩
  | windowed w => cases h.serial

/-- Another cycle has elapsed, or time has come to its end. -/
theorem paced_succ {t now : Time} (paced : min (period.length.toNat * k) Time.limit ≤ now.toNat) :
    min (period.length.toNat * (k + 1)) Time.limit ≤ (now + (t + period.cycles 1)).toNat := by
  rw [Time.toNat_add, Time.toNat_add, Period.toNat_cycles, Nat.mul_succ, Nat.mul_one]
  omega

/-- After the instruction the model is ready for the next one. -/
theorem CaughtUp.exists_of_time (h : model.CaughtUp kind period k (u.fetch :: rs)) (plain : Workload.Plain u)
    (directions : infos.map (·.direction) = u.instruction.memoryOperands) :
    ∃ model', time u.instruction (model.withInfos infos) = .ok (.ok true) model' ∧
      model'.CaughtUp kind period (k + 1) rs := by
  have favour := h.verdict plain directions
  have serial := h.serial_withInfos infos
  obtain ⟨model', timed, named, cycle, fetches, paced⟩ := h.exists_time plain favour
  obtain ⟨-, own, holds, counted, -⟩ := Model.exists_of_verdict serial favour timed
  have switch := preserves_switch u.instruction timed
  simp only [intake_withInfos, Prod.mk.injEq] at switch
  obtain ⟨enabled, registers⟩ := switch
  rw [state_withInfos] at holds counted
  refine ⟨model', timed, ?_⟩
  constructor
  · rw [named, h.named]
  · exact h.alone
  · rw [← enabled_intake, enabled, enabled_intake, h.enabled]
  · -- all that was queued belongs to this instruction
    have queued : infos = own ++ model'.state.infos := holds.queued
    have length := congrArg List.length (holds.matching.trans directions.symm)
    have together := congrArg List.length queued
    simp only [List.length_map, List.length_append] at length together
    exact List.eq_nil_of_length_eq_zero (by omega)
  · rw [counted]
    exact congrArg (· + 1) h.counted
  · rw [cycle, h.cycle]
  · intro n limit
    exact h.registers n (registers.symm.trans limit)
  · exact fetches
  · intro magic
    obtain ⟨t, now⟩ := paced (h.named.trans magic)
    rw [now, h.cycle]
    exact paced_succ (h.paced magic)

end Model

/-! ## Section 3: Calls on a machine -/

namespace Machine

variable {M : Type} [MemorySystem M] {m : Machine M} {i : Nat} {model : Model M}

/-- One information more is queued. -/
theorem call_info_of_enabled (found : m.models[i]? = some model) (enabled : model.state.enabled = true)
    (info : MemoryInfo) :
    call i (.info info) m = .ok (.completed true) (m.setModel i (model.withInfos (model.state.infos ++ [info]))) := by
  unfold call
  rw [get_bind, model_of_found found]
  show (modifyState i (·.pushInfo info) *> pure (.completed true) : Faulting (Machine M) Progress) m = _
  rw [seqRight_eq_bind, ← Model.pushInfo_of_enabled enabled]
  exact bind_eq_ok.mpr ⟨(), _, modifyState_of_found found _, rfl⟩

/-- All of them are, in order. -/
theorem forM_call_info (found : m.models[i]? = some model) (enabled : model.state.enabled = true)
    (infos : List MemoryInfo) :
    (infos.forM fun info => discard (call i (.info info))) m =
      .ok () (m.setModel i (model.withInfos (model.state.infos ++ infos))) := by
  induction infos generalizing m model with
  | nil =>
    have same : model.withInfos (model.state.infos ++ []) = model := by
      rw [List.append_nil]
      cases model <;> rfl
    rw [same, setModel_of_found found]
    rfl
  | cons info infos ih =>
    have first : discard (call i (.info info)) m = .ok () _ := bind_of_ok (call_info_of_enabled found enabled info)
    have enabled' : (model.withInfos (model.state.infos ++ [info])).state.enabled = true := by
      rw [Model.state_withInfos]
      exact enabled
    have queue : (model.withInfos (model.state.infos ++ [info])).state.infos ++ infos =
        model.state.infos ++ info :: infos := by
      rw [Model.state_withInfos]
      exact List.append_assoc ..
    have rest := ih (getElem?_setModel_self found) enabled'
    rw [setModel_setModel, Model.withInfos_withInfos, queue] at rest
    exact (bind_of_ok first).trans rest

/-- A model that times an instruction answers so. -/
theorem call_instruction_of_timed {model' : Model M} {u : InstrInstance} (found : m.models[i]? = some model)
    (enabled : model.state.enabled = true) (serial : model.windowed? = none)
    (timed : Model.time u.instruction model = .ok (.ok true) model') :
    call i (.instruction u) m = .ok (.completed true) (m.setModel i model') := by
  unfold call
  rw [get_bind, model_of_found found, ofExcept_ok_bind]
  show timeInstruction i model u m = _
  unfold timeInstruction
  rw [enabled, serial]
  have ran : onModel i (Model.time u.instruction) m = .ok (.ok true) (m.setModel i model') := by
    rw [onModel_of_found found, timed]
  exact bind_of_ok ran

/-- A model that shares no window has nothing to drain. -/
theorem call_finish_of_serial (found : m.models[i]? = some model) (serial : model.windowed? = none) :
    call i .finish m = .ok (.completed true) m := by
  unfold call
  rw [get_bind, model_of_found found, ofExcept_ok_bind, serial]
  rfl

end Machine

/-! ## Section 4: Host threads -/

namespace Simulation

variable {w : Workload} {core i k left n : Nat} {kind : ModelKind} {period : Period} {s : Simulation}

/-- The front end of core `i` has provided the first `k` instructions of the workload and its model has timed them;
`left` more are to come. -/
structure Fed (w : Workload) (core i : Nat) (kind : ModelKind) (period : Period) (k left : Nat) (s : Simulation) :
    Prop where
  /-- The model. -/
  model : ∃ model, s.machine.models[i]? = some model ∧ model.CaughtUp kind period k (w.fetches core k left)
  /-- The front end. -/
  feed : ∃ memory, s.feeds[i]? = some { core, workload := w, position := k, memory } ∧
    (∃ config period, memory.Built config period) ∧ memory.Serves (w.requests core k left)

/-- An operation on a feed that is there. -/
theorem onFeed_of_found {α : Type} {x : Faulting Feed α} {a : α} {f f' : Feed} (found : s.feeds[i]? = some f)
    (ran : x f = .ok a f') : onFeed i x s = .ok a { s with feeds := s.feeds.setIfInBounds i f' } := by
  have part : s.feeds.getD i default = f := by
    rw [Array.getD_eq_getD_getElem?, found]
    rfl
  refine zoom_eq_ok.mpr ⟨f', ?_, ?_⟩
  · rw [part]
    exact ran
  · simp

/-- One more instruction. -/
theorem Fed.exists_of_feedOne (h : s.Fed w core i kind period k (left + 1)) (low : core < 2 ^ 32)
    (short : k < 2 ^ 50) :
    ∃ s', feedOne i s = .ok (.completed true) s' ∧ s'.Fed w core i kind period (k + 1) left ∧
      s'.stages = s.stages := by
  obtain ⟨u, made, plain⟩ := w.exists_instruction low short
  obtain ⟨⟨model, found, caughtUp⟩, memory, provided, ⟨config, p, built⟩, serves⟩ := h
  rw [w.requests_succ made] at serves
  rw [w.fetches_succ made] at caughtUp
  obtain ⟨infos, memory', next, directions, built', serves'⟩ := Feed.exists_of_next
    (f := { core, workload := w, position := k, memory }) made serves built
  obtain ⟨model', timed, caughtUp'⟩ := caughtUp.exists_of_time plain directions
  have taken := onFeed_of_found provided next
  -- the information is queued, and then used up
  have queued := Machine.forM_call_info found caughtUp.enabled infos
  rw [caughtUp.queue, List.nil_append] at queued
  have enabled : (model.withInfos infos).state.enabled = true := by
    rw [Model.state_withInfos]
    exact caughtUp.enabled
  have answered := Machine.call_instruction_of_timed (Machine.getElem?_setModel_self found) enabled
    (caughtUp.serial_withInfos infos) timed
  rw [Machine.setModel_setModel] at answered
  refine ⟨_, (bind_of_ok taken).trans (zoom_eq_ok.mpr ⟨_, bind_eq_ok.mpr ⟨(), _, queued, answered⟩, rfl⟩),
    ?_, rfl⟩
  constructor
  · exact ⟨model', Machine.getElem?_setModel_self found, caughtUp'⟩
  · refine ⟨memory', ?_, ⟨config, p, built'⟩, serves'⟩
    exact Array.getElem?_setIfInBounds_self_of_lt (Array.getElem?_eq_some_iff.mp provided).1

/-- All instructions that are left, each of which is timed; the host thread makes just these calls, and is through. -/
theorem Fed.exists_of_feed (h : s.Fed w core i kind period k left) (low : core < 2 ^ 32) (short : k + left ≤ 2 ^ 50)
    (calls : List Nat) (enough : calls.length = left) :
    ∃ s', calls.mapM (fun _ => feedOne i) s = .ok (List.replicate left (.completed true)) s' ∧
      s'.Fed w core i kind period (k + left) 0 ∧ s'.stages = s.stages ∧
      Simulation.feed i left s = .ok () (s'.setStage i .done) := by
  -- each instruction leaves front end and model abreast, which is all that the next one needs
  induction left generalizing k s calls with
  | zero =>
    obtain rfl := List.eq_nil_of_length_eq_zero enough
    obtain ⟨model, found, caughtUp⟩ := h.model
    have finished := Machine.call_finish_of_serial found caughtUp.serial
    have drains : onMachine (Machine.call i .finish) s = .ok (.completed true) s :=
      zoom_eq_ok.mpr ⟨_, finished, rfl⟩
    exact ⟨s, rfl, h, rfl, bind_of_ok drains⟩
  | succ left ih =>
    obtain ⟨call, calls, rfl⟩ := List.exists_cons_of_length_eq_add_one enough
    obtain ⟨s₁, first, fed, stages₁⟩ := h.exists_of_feedOne low (by omega)
    obtain ⟨s', all, fed', stages, rest⟩ := ih fed (by omega) calls (Nat.succ.inj enough)
    refine ⟨s', ?_, ?_, ?_, ?_⟩
    · rw [List.mapM_cons, bind_of_ok first, bind_of_ok all]
      rfl
    · rwa [Nat.add_right_comm] at fed'
    · rw [stages, stages₁]
    · exact (bind_of_ok first).trans rest

/-- A host thread that comes through does so in one turn. -/
theorem turn_of_feed {s' : Simulation} (stage : s.stages[i]? = some (.ready n)) (fed : feed i n s = .ok () s') :
    turn i s = .ok () s' := by
  have ready : s.stages.getD i .done = .ready n := by
    rw [Array.getD_eq_getD_getElem?, stage]
    rfl
  have proceeds : proceed i s = .ok () s' := by
    unfold proceed
    rw [get_bind, ready]
    exact fed
  unfold turn
  simp only [tryCatch, tryCatchThe, MonadExceptOf.tryCatch, EStateM.tryCatch, proceeds]

/-! ## Section 5: Summaries -/

/-- The summary of a core whose host thread is through, if half a cycle can be added to its time. -/
theorem coreSummary_of_done {model : Model Hierarchy} {f : Feed} (stage : s.stages[i]? = some .done)
    (found : s.machine.models[i]? = some model) (provided : s.feeds[i]? = some f)
    (fits : model.state.clock.now.toNat + model.state.clock.period.length.toNat / 2 ≤ Word.max) :
    s.coreSummary i = .ok
      { core := i
        instructions := model.state.instructions
        cycles := (model.state.clock.now.toNat + model.state.clock.period.length.toNat / 2) /
          model.state.clock.period.length.toNat
        elapsed := model.state.clock.now
        caches := f.memory.stats } := by
  have through : s.stages.getD i .died = .done := by
    rw [Array.getD_eq_getD_getElem?, stage]
    rfl
  have rounded := (Time.divideRounded_eq_ok_iff model.state.clock.period.length_pos).mpr ⟨fits, rfl⟩
  unfold coreSummary
  rw [through, found, provided]
  simp only [rounded]

/-- If half a cycle can be added to a time that does not stop short of `n` cycles, it is rounded to no fewer. -/
theorem le_rounded (short : n < 2 ^ 50) {now : Time} (paced : min (period.length.toNat * n) Time.limit ≤ now.toNat)
    (fits : now.toNat + period.length.toNat / 2 ≤ Word.max) :
    n ≤ (now.toNat + period.length.toNat / 2) / period.length.toNat := by
  rw [Nat.le_div_iff_mul_le period.length_pos, Nat.mul_comm]
  rcases Nat.le_total (period.length.toNat * n) Time.limit with within | beyond
  · rw [Nat.min_eq_left within] at paced
    exact Nat.le_trans paced (Nat.le_add_right _ _)
  · -- at the end of time only a cycle of one femtosecond can be rounded, and so many have not elapsed
    rw [Nat.min_eq_right beyond] at paced
    have pos := period.length_pos
    have one : period.length.toNat = 1 := by
      simp only [Time.limit, Word.max] at paced fits
      omega
    rw [one, Nat.one_mul] at beyond
    simp only [Time.limit] at beyond
    omega

end Simulation

/-! ## Section 6: New models -/

/-- A valid configuration has a clock period. -/
theorem Config.exists_period {config : Config} (valid : config.validate = .ok ()) :
    ∃ period, config.period = .ok period := by
  have positive : (config.core.frequencyGhz > 0.0 && config.core.frequencyGhz.isFinite) = true :=
    Config.demand_of_valid valid (List.mem_cons_self ..)
  rw [Bool.and_eq_true, decide_eq_true_iff] at positive
  exact ⟨_, if_pos positive.1⟩

/-- A new model has everything before it. -/
theorem Model.caughtUp_new {model : Model Hierarchy} {kind : ModelKind} {period : Period} {costs : CostTable}
    {rs : List MemoryRequest} (named : model.kind = kind) (alone : kind ≠ .robSmt)
    (state : model.state = .new period costs)
    (registers : ∀ n, model.intake.registers = some n → n = InOrder.numRegisters) (fetches : model.Fetches rs) :
    model.CaughtUp kind period 0 rs where
  named := named
  alone := alone
  enabled := by rw [state]; rfl
  queue := by rw [state]; rfl
  counted := by rw [state]; rfl
  cycle := by rw [state]; rfl
  registers := registers
  fetches := fetches
  paced _ := by simp

/-- So has the model that is added for a core that shares no window. -/
theorem Machine.exists_of_attach {config : Config} {period : Period} {memory : Hierarchy} {rs : List MemoryRequest}
    (clock : config.period = .ok period) (alone : config.core.model ≠ .robSmt)
    (built : ∃ config period, memory.Built config period)
    (fetches : config.core.model = .iocoom → memory.Serves rs) :
    ∃ model : Model Hierarchy, model.CaughtUp config.core.model period 0 rs ∧
      ∀ core app m, attach config core app memory m = .ok () { m with models := m.models.push model } := by
  unfold attach
  rw [clock]
  -- the in-order model is the only one that fetches, and that knows a limited number of registers
  cases kind : config.core.model with
  | simple =>
    have new : (.simple (.new period config.core.instructionCosts) : Model Hierarchy).CaughtUp .simple period 0 rs := by
      refine Model.caughtUp_new rfl (by decide) rfl ?_ ?_
      · rintro n ⟨⟩
      · rintro m ⟨⟩
    exact ⟨_, new, fun core app m => rfl⟩
  | magic =>
    have new : (.magic (.new period config.core.instructionCosts) : Model Hierarchy).CaughtUp .magic period 0 rs := by
      refine Model.caughtUp_new rfl (by decide) rfl ?_ ?_
      · rintro n ⟨⟩
      · rintro m ⟨⟩
    exact ⟨_, new, fun core app m => rfl⟩
  | iocoom =>
    have new : (.inOrder (.new period config.core.instructionCosts config.inOrder memory) :
        Model Hierarchy).CaughtUp .iocoom period 0 rs := by
      refine Model.caughtUp_new rfl (by decide) rfl ?_ ?_
      · rintro n ⟨⟩
        exact Array.size_replicate
      · rintro m ⟨⟩
        exact ⟨built, fetches kind⟩
    exact ⟨_, new, fun core app m => rfl⟩
  | robSmt => exact absurd kind alone

/-! ## Section 7: Whole runs -/

namespace Simulation

/-- A core of its own skips nothing.  Let `data` be the caches of its front end, and `fetched` those that its model
fetches from if that is in order, and let the sum of cycles be a word for each request that they get.  From the model
that the configuration describes, every instruction of the workload is timed at the first attempt; no information is
left in the end, and if the time can be rounded to cycles, the core reports just as many instructions as were asked
for, and a magic core no fewer cycles. -/
theorem no_instruction_is_skipped {config : Config} (valid : config.validate = .ok ())
    (alone : config.core.model ≠ .robSmt) (w : Workload) {core n : Nat} (low : core < 2 ^ 32) (short : n < 2 ^ 50)
    {dataConfig fetchConfig : MemoryConfig} {dataPeriod fetchPeriod : Period} {data fetched : Hierarchy}
    (dataReached : Hierarchy.Reached dataConfig dataPeriod data)
    (fetchReached : Hierarchy.Reached fetchConfig fetchPeriod fetched) (dataServed : data.Serves (w.requests core 0 n))
    (fetchesServed : config.core.model = .iocoom → fetched.Serves (w.fetches core 0 n)) :
    ∃ period model, config.period = .ok period ∧
      (∀ core app m, Machine.attach config core app fetched m = .ok () { m with models := m.models.push model }) ∧
      ∀ (s : Simulation) (i : Nat), s.machine.models[i]? = some model →
        s.feeds[i]? = some { core, workload := w, memory := data } → s.stages[i]? = some (.ready n) →
        ∃ s' model', (List.range n).mapM (fun _ => feedOne i) s = .ok (List.replicate n (.completed true)) s' ∧
          turn i s = .ok () (s'.setStage i .done) ∧
          s'.machine.models[i]? = some model' ∧ model'.state.infos = [] ∧
          (model'.state.clock.now.toNat + period.length.toNat / 2 ≤ Word.max →
            ∃ summary, (s'.setStage i .done).coreSummary i = .ok summary ∧ summary.instructions = n ∧
              (config.core.model = .magic → n ≤ summary.cycles)) := by
  obtain ⟨period, clock⟩ := config.exists_period valid
  obtain ⟨model, new, attached⟩ := Machine.exists_of_attach clock alone ⟨_, _, fetchReached.built⟩ fetchesServed
  refine ⟨period, model, clock, attached, ?_⟩
  intro s i found provided stage
  have ready : s.Fed w core i config.core.model period 0 n :=
    ⟨⟨model, found, new⟩, data, provided, ⟨_, _, dataReached.built⟩, dataServed⟩
  obtain ⟨s', all, fed, stages, ran⟩ := ready.exists_of_feed low (by omega) (List.range n) List.length_range
  rw [Nat.zero_add] at fed
  obtain ⟨⟨model', found', caughtUp⟩, memory, provided', -⟩ := fed
  refine ⟨s', model', all, turn_of_feed stage ran, found', caughtUp.queue, ?_⟩
  intro fits
  rw [← caughtUp.cycle] at fits
  have through : (s'.setStage i .done).stages[i]? = some .done := by
    have inside := (Array.getElem?_eq_some_iff.mp stage).1
    rw [← stages] at inside
    exact Array.getElem?_setIfInBounds_self_of_lt inside
  refine ⟨_, coreSummary_of_done through found' provided' fits, caughtUp.counted, ?_⟩
  intro magic
  rw [caughtUp.cycle] at fits ⊢
  exact le_rounded short (caughtUp.paced magic) fits

section

variable {config : Config} {period : Period} {model : Model Hierarchy} {memory : Hierarchy}

/-- Adding the same model for some cores. -/
theorem forM_attach
    (attached : ∀ core app m, Machine.attach config core app memory m =
      .ok () { m with models := m.models.push model })
    (cores : List Nat) (m : Machine Hierarchy) :
    (cores.forM fun core => Machine.attach config core (some core) memory) m =
      .ok () { m with models := m.models ++ Array.replicate cores.length model } := by
  induction cores generalizing m with
  | nil =>
    rw [List.length_nil, Array.replicate_zero, Array.append_empty]
    rfl
  | cons core cores ih =>
    refine (bind_of_ok (attached core (some core) m)).trans ((ih _).trans ?_)
    congr 2
    dsimp only
    rw [Array.push_eq_append, Array.append_assoc, List.length_cons, Array.replicate_succ']

/-- Every core of a new simulation is about to be fed. -/
theorem new_eq_ok (clock : config.period = .ok period)
    (attached : ∀ core app m, Machine.attach config core app (.new config.memory period) m =
      .ok () { m with models := m.models.push model }) (w : Workload) (cores n : Nat) :
    new config w cores n = .ok
      { machine := { models := Array.replicate cores model }
        feeds := (Array.range cores).map fun core =>
          { core, workload := w, memory := .new config.memory period }
        stages := Array.replicate cores (.ready n) } := by
  have all := forM_attach attached (List.range cores) {}
  rw [List.length_range, Array.empty_append] at all
  simp only [new, clock, bind, Except.bind, all]

end

/-- Two magic cores with small caches. -/
def twoMagicCores : Config := { core := { model := .magic }, memory := Hierarchy.twoLevels }

/-- The time of core `i` of a new simulation once it has been fed `n` instructions. -/
def timeAfter (config : Config) (w : Workload) (cores i n : Nat) : Option Nat := do
  let s ← (new config w cores n).toOption
  match (List.range n).mapM (fun _ => feedOne i) s with
  | .ok _ s => s.machine.models[i]?.map (·.state.clock.now.toNat)
  | .error _ _ => none

theorem timeAfter_eq {config : Config} {w : Workload} {cores i n : Nat} {s s' : Simulation} {answers : List Progress}
    {model : Model Hierarchy} (made : new config w cores n = .ok s)
    (all : (List.range n).mapM (fun _ => feedOne i) s = .ok answers s') (found : s'.machine.models[i]? = some model) :
    timeAfter config w cores i n = some model.state.clock.now.toNat := by
  simp [timeAfter, made, Except.toOption, all, found]

/-- The second of them reads, writes and branches. -/
theorem no_instruction_is_skipped_of_second_core :
    ∃ s s' summary, new twoMagicCores .mixed 2 16 = .ok s ∧
      (List.range 16).mapM (fun _ => feedOne 1) s = .ok (List.replicate 16 (.completed true)) s' ∧
      turn 1 s = .ok () (s'.setStage 1 .done) ∧ (s'.setStage 1 .done).coreSummary 1 = .ok summary ∧
      summary.instructions = 16 ∧ 16 ≤ summary.cycles := by
  have clock : twoMagicCores.period = .ok (.ofTime (.ofNat 375940)) := by decide +kernel
  have length : (Period.ofTime (.ofNat 375940)).length.toNat = 375940 := by decide +kernel
  have valid : twoMagicCores.validate = .ok () := by decide +kernel
  generalize Period.ofTime (.ofNat 375940) = p at clock length
  have reached : Hierarchy.Reached twoMagicCores.memory p (.new twoMagicCores.memory p) := ⟨[], rfl⟩
  -- no request takes so long that its cycles exceed a word
  have served : ∀ rs, (Hierarchy.new twoMagicCores.memory p).Serves rs := by
    intro rs
    apply reached.built.serves
    intro r _
    cases r with
    | data access => exact (by decide : twoMagicCores.memory.longest Hierarchy.Level.dataPath ≤ Word.max)
    | fetch address size => exact (by decide : twoMagicCores.memory.longest Hierarchy.Level.fetchPath ≤ Word.max)
  obtain ⟨period, model, clock', attached, skips⟩ := no_instruction_is_skipped valid (by decide) .mixed
    (by decide : 1 < 2 ^ 32) (by decide : 16 < 2 ^ 50) reached reached (served _) (fun _ => served _)
  obtain rfl := Except.ok.inj (clock'.symm.trans clock)
  obtain ⟨s, made, first, provided, stage⟩ : ∃ s, new twoMagicCores .mixed 2 16 = .ok s ∧
      s.machine.models[1]? = some model ∧
      s.feeds[1]? = some { core := 1, workload := .mixed, memory := .new twoMagicCores.memory period } ∧
      s.stages[1]? = some (.ready 16) := ⟨_, new_eq_ok clock attached .mixed 2 16, by simp, by simp, by simp⟩
  obtain ⟨s', model', all, through, found, -, summarized⟩ := skips s 1 first provided stage
  have time : timeAfter twoMagicCores .mixed 2 1 16 = some 213533920 := by decide +kernel
  rw [timeAfter_eq made all found] at time
  have fits : model'.state.clock.now.toNat + period.length.toNat / 2 ≤ Word.max := by
    rw [Option.some.inj time, length]
    decide
  obtain ⟨summary, reported, counted, cycles⟩ := summarized fits
  exact ⟨s, s', summary, made, all, through, reported, counted, cycles rfl⟩

end Simulation

end CoreTiming
