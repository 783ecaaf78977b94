import CoreTiming.Proofs.Retrying
import CoreTiming.Proofs.WholeCalls

/-!
# What a model takes in

Of all that a model keeps, three things decide what becomes of the information on memory operands that it is given:
its queue, whether it is enabled, and which registers it knows.  They make up its `Intake`, a queue with a switch, and
each call on the model is a move of that queue (`Intake.after`).

`Machine.intake_of_call` shows that the model follows the moves, and `Machine.Aside.intake` that nothing else in the
machine reaches its intake, neither other models nor the window that it shares with them.
-/

namespace CoreTiming

open Faulting

/-! ## Section 1: A queue with a switch -/

/-- Whether a core that knows so many registers knows this operand; some cores know every register. -/
def Operand.within (registers : Option Nat) : Operand → Bool
  | .reg _ r => registers.all fun n => decide (r < n)
  | .memory .. => true

/-- Whether a core knows all registers that the instruction names. -/
def Instruction.within (i : Instruction) (registers : Option Nat) : Bool := i.operands.all (·.within registers)

/-- What decides what becomes of information on memory operands. -/
@[ext] structure Intake where
  /-- What waits for its instruction, oldest first. -/
  queue : List MemoryInfo
  /-- Whether information is queued and instructions are timed. -/
  enabled : Bool
  /-- How many registers are known, if that is limited. -/
  registers : Option Nat

namespace Intake

/-- Whether an instruction that is offered uses up information. -/
def accepts (t : Intake) (i : Instruction) : Bool :=
  t.enabled && matchInfos i.address i.memoryOperands t.queue == .ok true && i.within t.registers

/-- The intake after a call. -/
def after (t : Intake) : ModelCall → Intake
  | .info info => if t.enabled then { t with queue := t.queue ++ [info] } else t
  | .enable => { t with enabled := true }
  | .disable => { t with enabled := false }
  | .instruction u =>
    if t.accepts u.instruction then { t with queue := t.queue.drop u.instruction.memoryOperands.length } else t
  | .setTime _ | .synchronize | .notify | .finish => t

variable {t : Intake} {u : InstrInstance}

theorem after_of_accepts (accepted : t.accepts u.instruction = true) :
    t.after (.instruction u) = { t with queue := t.queue.drop u.instruction.memoryOperands.length } := if_pos accepted

theorem after_of_not_accepts (rejected : ¬t.accepts u.instruction = true) : t.after (.instruction u) = t :=
  if_neg rejected

theorem accepts_iff {i : Instruction} :
    t.accepts i = true ↔ t.enabled = true ∧ matchInfos i.address i.memoryOperands t.queue = .ok true ∧
      i.within t.registers = true := by
  unfold accepts
  simp [and_assoc]

theorem enabled_of_accepts {i : Instruction} (accepted : t.accepts i = true) : t.enabled = true :=
  (accepts_iff.mp accepted).1

end Intake

/-- Whether the call may change the intake of the model. -/
def ModelCall.reachesIntake : ModelCall → Bool
  | .info _ | .enable | .disable | .instruction _ => true
  | .setTime _ | .synchronize | .notify | .finish => false

/-! ## Section 2: The intake of a model -/

namespace InOrder

variable {M : Type} [MemorySystem M]

/-- Timing an instruction switches nothing, and keeps the same registers. -/
theorem preserves_switch (i : Instruction) :
    Preserves (fun m : InOrder M => (m.state.enabled, some m.registers.size)) (InOrder.time i) := by
  have fetches : Preserves (fun m : InOrder M => (m.state.enabled, some m.registers.size)) (fetch i) := by
    intro m _ m' fetched
    obtain ⟨clock, memory, rfl⟩ := fetch_frame fetched
    rfl
  unfold InOrder.time
  refine preserves_get.bind fun m => ?_
  split
  · exact preserves_pure _
  · exact preserves_pure _
  · exact preserves_pure _
  · refine fetches.bind fun _ => ?_
    refine (preserves_modify fun m => ?_).bind fun _ => preserves_pure _
    rw [execute_eq, size_write]
    rfl

end InOrder

namespace Model

variable {M : Type} {model model' : Model M}

/-- The intake of the model.  Only in-order cores know a limited number of registers. -/
def intake : Model M → Intake
  | .simple s | .magic s => { queue := s.infos, enabled := s.enabled, registers := none }
  | .inOrder m =>
    { queue := m.state.infos, enabled := m.state.enabled, registers := some m.registers.size }
  | .windowed w => { queue := w.state.infos, enabled := w.state.enabled, registers := none }

theorem queue_intake (model : Model M) : model.intake.queue = model.state.infos := by cases model <;> rfl

theorem enabled_intake (model : Model M) : model.intake.enabled = model.state.enabled := by cases model <;> rfl

/-- A change of the common state shows in the intake as far as it concerns the queue and the switch. -/
theorem intake_modifyState (f : ModelState → ModelState) (model : Model M) :
    (model.modifyState f).intake =
      { model.intake with queue := (f model.state).infos, enabled := (f model.state).enabled } := by
  cases model <;> rfl

theorem intake_modifyState_of_same {f : ModelState → ModelState} (infos : ∀ s, (f s).infos = s.infos)
    (enabled : ∀ s, (f s).enabled = s.enabled) (model : Model M) : (model.modifyState f).intake = model.intake := by
  rw [intake_modifyState, infos, enabled, ← queue_intake, ← enabled_intake]

theorem intake_setTime {t : Time} (h : model.setTime t = .ok model') : model'.intake = model.intake := by
  have moved : model.modifyState (·.setTime t) = model' → model'.intake = model.intake := by
    rintro rfl
    apply intake_modifyState_of_same
    · intro s
      rfl
    · intro s
      rfl
  cases model with
  | simple s => exact moved (Except.ok.inj h)
  | magic s =>
    unfold setTime ModelState.setTimeForward at h
    dsimp only at h
    split at h
    · exact moved (Except.ok.inj h)
    · cases h
  | inOrder m => exact moved (Except.ok.inj h)
  | windowed w => exact moved (Except.ok.inj h)

/-- All registers are known if none is found out of range. -/
theorem outOfRange?_eq_none_iff {m : InOrder M} {i : Instruction} :
    m.outOfRange? i = none ↔ i.within (some m.registers.size) = true := by
  unfold InOrder.outOfRange? Instruction.within
  rw [List.findSome?_eq_none_iff, List.all_eq_true]
  refine forall₂_congr fun operand _ => ?_
  cases operand with
  | reg direction r => simp [Operand.within]
  | memory direction base => simp [Operand.within]

/-- A core that knows every register knows those of any instruction. -/
theorem within_none (i : Instruction) : i.within none = true := by
  unfold Instruction.within
  rw [List.all_eq_true]
  intro operand _
  cases operand <;> rfl

/-- The verdict of a model that shares no window, seen from its intake. -/
theorem verdict_eq_ok_true_iff {i : Instruction} (serial : model.windowed? = none) :
    model.verdict i = .ok true ↔
      matchInfos i.address i.memoryOperands model.intake.queue = .ok true ∧
        i.within model.intake.registers = true := by
  cases model with
  | simple s => exact ⟨fun ready => ⟨ready, within_none i⟩, fun both => both.1⟩
  | magic s => exact ⟨fun ready => ⟨ready, within_none i⟩, fun both => both.1⟩
  | inOrder m =>
    show _ ↔ m.state.infosReady i = .ok true ∧ i.within (some m.registers.size) = true
    rw [← outOfRange?_eq_none_iff]
    unfold verdict
    dsimp only
    cases m.state.infosReady i with
    | error e => simp
    | ok ready =>
      cases ready with
      | false => simp
      | true => cases m.outOfRange? i <;> simp
  | windowed w => cases serial

theorem accepts_of_verdict {i : Instruction} (enabled : model.state.enabled = true) (serial : model.windowed? = none)
    (favour : model.verdict i = .ok true) : model.intake.accepts i = true := by
  rw [Intake.accepts_iff, Model.enabled_intake]
  exact ⟨enabled, (verdict_eq_ok_true_iff serial).mp favour⟩

/-- A share in a window does not look at registers. -/
theorem accepts_windowed_iff {w : Windowed} {i : Instruction} :
    (Model.windowed w : Model M).intake.accepts i = true ↔ w.state.enabled = true ∧ w.state.infosReady i = .ok true := by
  rw [Intake.accepts_iff]
  constructor
  · rintro ⟨enabled, ready, -⟩
    exact ⟨enabled, ready⟩
  · rintro ⟨enabled, ready⟩
    exact ⟨enabled, ready, within_none i⟩

/-- Where information is used up, the verdict is in favour of the instruction. -/
theorem verdict_of_accepts {i : Instruction} (accepted : model.intake.accepts i = true) :
    model.verdict i = .ok true := by
  cases serial : model.windowed? with
  | none => exact (verdict_eq_ok_true_iff serial).mpr (Intake.accepts_iff.mp accepted).2
  | some w =>
    obtain ⟨w, rfl⟩ := exists_windowed serial
    unfold verdict
    dsimp only
    rw [(accepts_windowed_iff.mp accepted).2]

/-- A mismatch is one with what is queued. -/
theorem matchInfos_of_verdict {i : Instruction} {ip : Address} {expected found : Direction}
    (mismatch : model.verdict i = .error (.infoMismatch ip expected found)) :
    matchInfos i.address i.memoryOperands model.intake.queue = .error (.infoMismatch ip expected found) := by
  cases model with
  | simple s => exact mismatch
  | magic s => exact mismatch
  | inOrder m =>
    unfold verdict at mismatch
    dsimp only at mismatch
    split at mismatch
    · cases mismatch
    · exact mismatch
  | windowed w =>
    unfold verdict at mismatch
    dsimp only at mismatch
    split at mismatch
    · rename_i e ready
      rw [← mismatch]
      exact ready
    · cases mismatch

variable [MemorySystem M]

/-- Timing an instruction switches nothing, and makes no register known. -/
theorem preserves_switch (i : Instruction) :
    Preserves (fun model : Model M => (model.intake.enabled, model.intake.registers)) (time i) := by
  intro model answer model' h
  have serially {s : ModelState} {wrap : ModelState → Model M} {cost : Time}
      (same : ∀ s, ((wrap s).intake.enabled, (wrap s).intake.registers) = (s.enabled, none))
      (ran : time.serially wrap (s.timeSerially i cost) (wrap s) = .ok answer model') :
      (model'.intake.enabled, model'.intake.registers) = (s.enabled, none) := by
    by_cases ready : s.infosReady i = .ok true
    · obtain ⟨own, rest, holds⟩ := ModelState.exists_holds ready
      rw [serially_of_holds holds] at ran
      cases ran
      exact same _
    · rw [serially_of_verdict_ne ready] at ran
      cases ran
      exact same _
  cases model with
  | simple s => exact serially (fun _ => rfl) h
  | magic s => exact serially (fun _ => rfl) h
  | inOrder m =>
    unfold time at h
    dsimp only at h
    split at h
    · rename_i answer' m' ran
      cases h
      exact InOrder.preserves_switch i ran
    · cases h
  | windowed w =>
    cases h
    rfl

end Model

/-! ## Section 3: Operations that reach no intake -/

namespace Machine

variable {M : Type} {m m' : Machine M} {i j : Nat}

/-- The intake of model `i`. -/
def intake? (i : Nat) (m : Machine M) : Option Intake := m.models[i]?.map Model.intake

theorem intake?_of_found {model : Model M} (found : m.models[i]? = some model) : m.intake? i = some model.intake := by
  unfold intake?
  rw [found, Option.map_some]

/-- Whatever leaves all models alone leaves the intake alone. -/
theorem preserves_intake_of_models {α : Type} {x : Faulting (Machine M) α} (same : Preserves (·.models) x) :
    Preserves (intake? i) x := by
  intro m a m' h
  have models : m'.models = m.models := same h
  unfold intake?
  rw [models]

/-- An operation on a model. -/
theorem onModel_eq_ok {α : Type} {a : α} {x : Faulting (Model M) α} (h : onModel j x m = .ok a m') :
    ∃ model model', m.models[j]? = some model ∧ x model = .ok a model' ∧ m' = m.setModel j model' := by
  cases found : m.models[j]? with
  | none =>
    have outside : ¬j < m.models.size := Nat.not_lt.mpr (Array.getElem?_eq_none_iff.mp found)
    unfold onModel at h
    rw [get_bind, if_neg outside] at h
    cases h
  | some model =>
    rw [onModel_of_found found] at h
    split at h
    · rename_i b model' ran
      cases h
      exact ⟨model, model', rfl, ran, rfl⟩
    · cases h

/-- An operation on another model, or one that keeps the intake of the model it works on. -/
theorem preserves_intake_onModel {α : Type} {x : Faulting (Model M) α}
    (same : j ≠ i ∨ Preserves Model.intake x) : Preserves (intake? i) (onModel j x) := by
  intro m a m' h
  obtain ⟨model, model', found, ran, rfl⟩ := onModel_eq_ok h
  unfold intake?
  by_cases here : j = i
  · subst here
    have kept := same.resolve_left (fun other => other rfl)
    rw [getElem?_setModel_self found, found, Option.map_some, Option.map_some, kept ran]
  · rw [getElem?_setModel_ne here]

theorem preserves_intake_modifyState {f : ModelState → ModelState} (infos : ∀ s, (f s).infos = s.infos)
    (enabled : ∀ s, (f s).enabled = s.enabled) : Preserves (intake? (M := M) i) (modifyState j f) :=
  preserves_intake_onModel (.inr (preserves_modify (Model.intake_modifyState_of_same infos enabled)))

variable [MemorySystem M] {w : Windowed}

theorem preserves_intake_onGroup {α : Type} (master : Nat) (x : Faulting (Session (Window M)) α) :
    Preserves (intake? i) (onGroup master x) :=
  preserves_intake_of_models fun _ _ _ h => models_onGroup h

omit [MemorySystem M] in
/-- Time and instructions that are added do not concern the intake. -/
theorem preserves_intake_elapse (n : Nat) (t : Time) :
    Preserves (intake? (M := M) i) (modifyState j (·.elapse n t)) := by
  apply preserves_intake_modifyState
  · intro s
    rfl
  · intro s
    rfl

theorem preserves_intake_progress (draining : Bool) : Preserves (intake? (M := M) i) (progress j w draining) := by
  have collects : Preserves (intake? (M := M) i) (collect j w) :=
    (preserves_intake_onGroup _ _).bind fun told => preserves_intake_elapse told.1 told.2
  unfold progress
  refine preserves_get.bind fun m => ?_
  split
  · cases draining with
    | false => exact preserves_pure _
    | true => exact collects.bind fun _ => preserves_pure _
  · exact preserves_pure _

theorem preserves_intake_simulate : Preserves (intake? (M := M) i) (simulate j w) :=
  (preserves_intake_onGroup _ _).bind fun _ => preserves_intake_progress false

theorem preserves_intake_finish : Preserves (intake? (M := M) i) (finishWindowed j w) :=
  (preserves_intake_onGroup _ _).bind fun _ => preserves_intake_progress true

theorem preserves_intake_resume (j : Nat) : Preserves (intake? (M := M) i) (resume j) := by
  unfold resume
  refine preserves_get.bind fun m => (preserves_ofExcept _).bind fun model => ?_
  split
  · exact preserves_pure _
  · refine preserves_get.bind fun m => ?_
    exact (preserves_intake_onGroup _ _).bind fun _ => preserves_intake_progress _

/-- An instruction for another model. -/
theorem preserves_intake_timeInstruction (other : j ≠ i) (model : Model M) (u : InstrInstance) :
    Preserves (intake? i) (timeInstruction j model u) := by
  unfold timeInstruction
  split
  · exact preserves_pure _
  · split
    · rename_i w _
      unfold timeWindowed
      refine (preserves_ofExcept _).bind fun cracked => ?_
      split
      · exact preserves_pure _
      · refine (preserves_intake_onModel (.inl other)).bind fun _ => ?_
        refine (preserves_intake_onGroup _ _).bind fun told => ?_
        exact (preserves_intake_elapse _ _).bind fun _ => preserves_intake_simulate
    · refine (preserves_intake_onModel (.inl other)).bind fun answer => ?_
      split
      · exact preserves_pure _
      · exact preserves_pure _

theorem preserves_intake_setEnabled (other : j ≠ i) (w? : Option Windowed) (enabled : Bool) :
    Preserves (intake? (M := M) i) (setEnabled j w? enabled) := by
  unfold setEnabled
  refine (preserves_intake_onModel (.inl other)).bind fun _ => ?_
  cases w? with
  | none => exact preserves_pure _
  | some w => exact preserves_intake_onGroup _ _

/-- A call on another model, or one that brings neither information nor an instruction and switches nothing. -/
theorem preserves_intake_call {c : ModelCall} (same : j ≠ i ∨ c.reachesIntake = false) :
    Preserves (intake? (M := M) i) (call j c) := by
  have other (reaches : c.reachesIntake = true) : j ≠ i := by
    rcases same with other | not
    · exact other
    · rw [reaches] at not
      cases not
  have done {α : Type} {x : Faulting (Machine M) α} (kept : Preserves (intake? i) x) :
      Preserves (intake? i) (x *> pure (Progress.completed true) : Faulting (Machine M) Progress) := by
    rw [seqRight_eq_bind]
    exact kept.bind fun _ => preserves_pure _
  unfold call
  refine preserves_get.bind fun m => (preserves_ofExcept _).bind fun model => ?_
  cases c with
  | instruction u => exact preserves_intake_timeInstruction (other rfl) model u
  | info info => exact done (preserves_intake_onModel (.inl (other rfl)))
  | enable => exact done (preserves_intake_setEnabled (other rfl) _ _)
  | disable => exact done (preserves_intake_setEnabled (other rfl) _ _)
  | setTime t =>
    refine done (preserves_intake_onModel (.inr ?_))
    intro model' _ model'' h
    rw [get_bind] at h
    obtain ⟨moved, _, forward, h⟩ := bind_eq_ok.mp h
    obtain ⟨there, rfl⟩ := ofExcept_eq_ok.mp forward
    cases h
    exact Model.intake_setTime there
  | synchronize =>
    cases model.windowed? with
    | none => exact preserves_pure _
    | some w => exact preserves_intake_simulate
  | notify =>
    cases model.windowed? with
    | none => exact preserves_pure _
    | some w => exact done (preserves_intake_onGroup _ _)
  | finish =>
    cases model.windowed? with
    | none => exact preserves_pure _
    | some w => exact preserves_intake_finish

/-- A model that is added is a further one. -/
theorem intake_of_attach {config : Config} {core : Nat} {app : Option Nat} {memory : M} {t : Intake}
    (h : attach config core app memory m = .ok () m') (here : m.intake? i = some t) : m'.intake? i = some t := by
  rw [attach_eq] at h
  obtain ⟨period, m₁, first, h⟩ := bind_eq_ok.mp h
  obtain ⟨-, rfl⟩ := ofExcept_eq_ok.mp first
  obtain ⟨model, m₂, built, h⟩ := bind_eq_ok.mp h
  have models := ((keepsThreads_build config core app memory period).done built).models
  obtain rfl := modify_eq_ok.mp h
  obtain ⟨old, found, -⟩ := Option.map_eq_some_iff.mp here
  have inside := (Array.getElem?_eq_some_iff.mp found).1
  unfold intake? at here ⊢
  dsimp only
  rw [Array.getElem?_push_lt (models ▸ inside), ← Array.getElem?_eq_getElem, models]
  exact here

/-- What may happen in a machine beside the calls that reach the intake of model `i`. -/
inductive Aside (i : Nat) : Machine M → Machine M → Prop
  /-- A call on another model, or one that does not reach the intake. -/
  | call {j : Nat} {c : ModelCall} {a : Progress} {m m' : Machine M} (same : j ≠ i ∨ c.reachesIntake = false)
    (made : Machine.call j c m = .ok a m') : Aside i m m'
  /-- A call that waits in the barrier goes on. -/
  | resume {j : Nat} {a : Progress} {m m' : Machine M} (made : Machine.resume j m = .ok a m') : Aside i m m'
  /-- A call is given up. -/
  | abandon (j : Nat) (m : Machine M) : Aside i m (m.abandon j)
  /-- An event reaches a group. -/
  | handle {master : Nat} {event : Barrier.Event} {m m' : Machine M}
    (made : onBarrier master (Barrier.handle event) m = .ok () m') : Aside i m m'
  /-- An event reaches every group. -/
  | handleAll {event : Barrier.Event} {m m' : Machine M} (made : Machine.handleAll event m = .ok () m') : Aside i m m'
  /-- A model is added. -/
  | attach {config : Config} {core : Nat} {app : Option Nat} {memory : M} {m m' : Machine M}
    (made : Machine.attach config core app memory m = .ok () m') : Aside i m m'

/-- None of this touches the intake of the model. -/
theorem Aside.intake {t : Intake} (h : Aside i m m') (here : m.intake? i = some t) : m'.intake? i = some t := by
  cases h with
  | call same made => exact (preserves_intake_call same made).trans here
  | resume made => exact (preserves_intake_resume _ made).trans here
  | abandon j =>
    rw [← here]
    unfold intake? Machine.abandon
    split <;> rfl
  | handle made => exact (preserves_intake_onGroup _ _ made).trans here
  | @handleAll event _ _ made =>
    have all : Preserves (intake? (M := M) i) (Machine.handleAll event) := by
      unfold Machine.handleAll
      refine preserves_get.bind fun m => Preserves.forM (fun k => ?_) _
      apply preserves_intake_of_models
      intro m a m' h
      obtain ⟨session, -, rfl⟩ := zoom_eq_ok.mp h
      rfl
    exact (all made).trans here
  | attach made => exact intake_of_attach made here

/-! ## Section 4: Calls on the model -/

omit [MemorySystem M] in
theorem intake?_setModel {model old : Model M} (found : m.models[i]? = some old) :
    (m.setModel i model).intake? i = some model.intake :=
  intake?_of_found (getElem?_setModel_self found)

/-- The model is switched. -/
theorem intake_of_setEnabled {w? : Option Windowed} {enabled : Bool} {t : Intake}
    (h : setEnabled i w? enabled m = .ok () m') (here : m.intake? i = some t) :
    m'.intake? i = some { t with enabled } := by
  unfold setEnabled at h
  obtain ⟨⟨⟩, m₁, switched, h⟩ := bind_eq_ok.mp h
  obtain ⟨model, _, found, changed, rfl⟩ := onModel_eq_ok switched
  obtain rfl := modify_eq_ok.mp changed
  have after : m'.intake? i = (m.setModel i (model.modifyState (·.setEnabled enabled))).intake? i := by
    cases w? with
    | none => exact congrArg (intake? i) (pure_eq_ok.mp h).2.symm
    | some w => exact preserves_intake_onGroup _ _ h
  rw [intake?_of_found found] at here
  obtain rfl := Option.some.inj here
  rw [after, intake?_setModel found, Model.intake_modifyState]
  unfold ModelState.setEnabled
  dsimp only
  rw [← Model.queue_intake]

omit [MemorySystem M] in
/-- Information comes in. -/
theorem intake_of_pushInfo {info : MemoryInfo} {t : Intake} (h : modifyState i (·.pushInfo info) m = .ok () m')
    (here : m.intake? i = some t) : m'.intake? i = some (t.after (.info info)) := by
  obtain ⟨model, _, found, changed, rfl⟩ := onModel_eq_ok h
  obtain rfl := modify_eq_ok.mp changed
  rw [intake?_of_found found] at here
  obtain rfl := Option.some.inj here
  rw [intake?_setModel found, Model.intake_modifyState]
  unfold Intake.after ModelState.pushInfo
  dsimp only
  rw [Model.enabled_intake]
  split
  · rw [Model.queue_intake]
  · rw [← Model.queue_intake, ← Model.enabled_intake]

/-- An instruction is offered. -/
theorem intake_of_offered {model : Model M} {u : InstrInstance} {a : Progress} (found : m.models[i]? = some model)
    (offered : Offered i u m model a m') : m'.intake? i = some (model.intake.after (.instruction u)) := by
  cases offered with
  | ignored disabled =>
    rw [Intake.after_of_not_accepts fun accepted => ?_]
    · exact intake?_of_found found
    · rw [← Model.enabled_intake, Intake.enabled_of_accepts accepted] at disabled
      cases disabled
  | failed enabled against =>
    rw [Intake.after_of_not_accepts fun accepted => against (Model.verdict_of_accepts accepted)]
    exact intake?_of_found found
  | timed enabled serial favour ran =>
    obtain ⟨-, own, holds, -⟩ := Model.exists_of_verdict serial favour ran
    have same := Model.preserves_switch u.instruction ran
    simp only [Prod.mk.injEq] at same
    rw [Intake.after_of_accepts (Model.accepts_of_verdict enabled serial favour), intake?_setModel found]
    congr 1
    refine Intake.ext ?_ same.1 same.2
    dsimp only
    rw [Model.queue_intake, Model.queue_intake, holds.queued, holds.length, List.drop_left]
  | @handed w ops state _ _ enabled shares cracked rest =>
    subst shares
    obtain ⟨told, m₁, pushed, rest⟩ := bind_eq_ok.mp rest
    obtain ⟨⟨⟩, m₂, elapsed, last⟩ := bind_eq_ok.mp rest
    -- the group and the barrier leave the models alone, so the queue is what cracking has made of it
    have queued : state = _ := ModelState.infos_of_crack cracked
    rw [preserves_intake_simulate last, preserves_intake_elapse _ _ elapsed, preserves_intake_onGroup _ _ pushed,
      intake?_setModel found]
    congr 1
    by_cases ready : w.state.infosReady u.instruction = .ok true
    · rw [if_pos ready] at queued
      rw [Intake.after_of_accepts (Model.accepts_windowed_iff.mpr ⟨enabled, ready⟩), queued]
      rfl
    · rw [if_neg ready] at queued
      rw [Intake.after_of_not_accepts fun accepted => ready (Model.accepts_windowed_iff.mp accepted).2, queued]

/-- A call moves the queue as it says. -/
theorem intake_of_call {c : ModelCall} {t : Intake} {a : Progress} (h : call i c m = .ok a m')
    (here : m.intake? i = some t) : m'.intake? i = some (t.after c) := by
  obtain ⟨model, found⟩ := exists_model_of_call h
  have known := intake?_of_found found
  rw [here] at known
  obtain rfl := Option.some.inj known
  -- three of the calls are an operation whose answer says nothing
  have made {x : Faulting (Machine M) Unit}
      (ran : (x *> pure (Progress.completed true) : Faulting (Machine M) Progress) m = .ok a m') :
      x m = .ok () m' := by
    rw [seqRight_eq_bind] at ran
    obtain ⟨⟨⟩, _, first, rest⟩ := bind_eq_ok.mp ran
    obtain ⟨-, rfl⟩ := pure_eq_ok.mp rest
    exact first
  have begun := h
  unfold call at begun
  rw [get_bind, model_of_found found] at begun
  cases c with
  | info info => exact intake_of_pushInfo (made begun) here
  | enable => exact intake_of_setEnabled (made begun) here
  | disable => exact intake_of_setEnabled (made begun) here
  | setTime t => exact (preserves_intake_call (.inr rfl) h).trans here
  | synchronize => exact (preserves_intake_call (.inr rfl) h).trans here
  | notify => exact (preserves_intake_call (.inr rfl) h).trans here
  | finish => exact (preserves_intake_call (.inr rfl) h).trans here
  | instruction u =>
    obtain ⟨model', found', offered⟩ := exists_offered h
    obtain rfl := Option.some.inj (found.symm.trans found')
    exact intake_of_offered found offered

/-- A call is refused for information that does not match only if the queue begins with such information. -/
theorem matchInfos_of_call {c : ModelCall} {t : Intake} {ip : Address} {expected found' : Direction}
    (h : call i c m = .ok (.refused (.infoMismatch ip expected found')) m') (here : m.intake? i = some t) :
    ∃ u, c = .instruction u ∧
      matchInfos u.instruction.address u.instruction.memoryOperands t.queue =
        .error (.infoMismatch ip expected found') := by
  have instruction : ∃ u, c = .instruction u := by
    by_contra other
    cases not_failed_of_not_instruction h fun u same => other ⟨u, same⟩
  obtain ⟨u, rfl⟩ := instruction
  refine ⟨u, rfl, ?_⟩
  obtain ⟨model, found, offered⟩ := exists_offered h
  have known := intake?_of_found found
  rw [here] at known
  obtain rfl := Option.some.inj known
  -- only a verdict against the instruction is a refusal
  generalize answered : Progress.refused (.infoMismatch ip expected found') = a at offered
  cases offered with
  | ignored disabled => cases answered
  | timed enabled serial favour ran => cases answered
  | handed enabled shares cracked rest =>
    obtain ⟨told, m₁, -, rest⟩ := bind_eq_ok.mp rest
    obtain ⟨⟨⟩, m₂, -, last⟩ := bind_eq_ok.mp rest
    have failed := not_failed_of_simulate last
    rw [← answered] at failed
    cases failed
  | failed enabled against =>
    cases verdict : model.verdict u.instruction with
    | ok timed =>
      rw [verdict] at answered
      cases answered
    | error e =>
      rw [verdict] at answered
      cases answered
      exact Model.matchInfos_of_verdict verdict

end Machine

end CoreTiming
