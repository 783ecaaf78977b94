import CoreTiming.Proofs.Intake

/-!
# Information reaches its instruction

Information on memory operands is matched with instructions by its place in the queue alone, so that it must be queued
and used up in step with the instructions.  A host does its part if it pushes one information for each memory operand
of an instruction, in the directions of the operands, and then offers the instruction once (`Delivery`).

But a model that is disabled drops what is pushed and ignores what is offered, and a core that does not know a
register refuses the instruction and keeps its information.  A delivery leaves nothing in the queue if it comes as a
whole or not at all (`Delivery.queue_eq_nil_iff`); as long as all of them do, each instruction finds its own
information in the queue and nothing else (`Machine.infos_reach_their_instruction`).
-/

namespace CoreTiming

open Faulting

/-! ## Section 1: Deliveries -/

/-- What a host does before it offers an instruction. -/
inductive Preparation
  /-- It pushes what is known about a memory operand. -/
  | known (info : MemoryInfo)
  /-- It enables or disables the model. -/
  | switch (on : Bool)

namespace Preparation

/-- The call that is made. -/
def toCall : Preparation → ModelCall
  | .known info => .info info
  | .switch true => .enable
  | .switch false => .disable

/-- What is pushed. -/
def info? : Preparation → Option MemoryInfo
  | .known info => some info
  | .switch _ => none

/-- What the model takes of the information that is pushed, if it is enabled or not when they begin. -/
def taken : Bool → List Preparation → List MemoryInfo
  | _, [] => []
  | on, .known info :: rest => if on then info :: taken on rest else taken on rest
  | _, .switch on :: rest => taken on rest

/-- Whether the model is enabled in the end. -/
def switched : Bool → List Preparation → Bool
  | on, [] => on
  | on, .known _ :: rest => switched on rest
  | _, .switch on :: rest => switched on rest

end Preparation

/-- The calls for one instruction. -/
structure Delivery where
  /-- What comes before the instruction is offered. -/
  before : List Preparation
  /-- The instruction. -/
  instruction : InstrInstance

namespace Delivery

/-- The calls in turn. -/
def calls (d : Delivery) : List ModelCall := d.before.map Preparation.toCall ++ [.instruction d.instruction]

/-- The information that is pushed for the instruction. -/
def infos (d : Delivery) : List MemoryInfo := d.before.filterMap Preparation.info?

/-- There is one information for each memory operand, in the direction of the operand. -/
def Fits (d : Delivery) : Prop := d.infos.map (·.direction) = d.instruction.instruction.memoryOperands

/-- The model takes nothing of the delivery, or it takes all information and the instruction with it. -/
def Whole (registers : Option Nat) (on : Bool) (d : Delivery) : Prop :=
  Preparation.taken on d.before = [] ∨
    Preparation.taken on d.before = d.infos ∧ Preparation.switched on d.before = true ∧
      d.instruction.instruction.within registers = true

/-- All deliveries are taken as a whole or not at all. -/
def AllWhole (registers : Option Nat) : Bool → List Delivery → Prop
  | _, [] => True
  | on, d :: ds => d.Whole registers on ∧ AllWhole registers (Preparation.switched on d.before) ds

end Delivery

/-! ## Section 2: What is left of a delivery -/

namespace Preparation

/-- What the preparations leave in the queue. -/
theorem foldl_after (before : List Preparation) (t : Intake) :
    (before.map toCall).foldl Intake.after t =
      { t with queue := t.queue ++ taken t.enabled before, enabled := switched t.enabled before } := by
  induction before generalizing t with
  | nil => simp [taken, switched]
  | cons p rest ih =>
    rw [List.map_cons, List.foldl_cons, ih]
    cases p with
    | known info =>
      cases enabled : t.enabled with
      | false => simp [toCall, Intake.after, taken, switched, enabled]
      | true => simp [toCall, Intake.after, taken, switched, enabled]
    | switch on => cases on <;> rfl

/-- No more is taken than is pushed. -/
theorem taken_sublist (on : Bool) (before : List Preparation) : (taken on before).Sublist (before.filterMap info?) := by
  induction before generalizing on with
  | nil => exact List.Sublist.refl _
  | cons p rest ih =>
    cases p with
    | known info =>
      cases on with
      | false => exact (ih false).cons info
      | true => exact (ih true).cons_cons info
    | switch on => exact ih on

end Preparation

/-- An instruction switches nothing. -/
theorem Intake.switch_after_instruction (t : Intake) (u : InstrInstance) :
    (t.after (.instruction u)).enabled = t.enabled ∧ (t.after (.instruction u)).registers = t.registers := by
  unfold Intake.after
  dsimp only
  split
  · exact ⟨rfl, rfl⟩
  · exact ⟨rfl, rfl⟩

namespace Delivery

variable {d : Delivery} {t : Intake}

/-- The intake when the instruction is offered, if nothing was queued before. -/
def offered (d : Delivery) (t : Intake) : Intake :=
  { t with queue := Preparation.taken t.enabled d.before, enabled := Preparation.switched t.enabled d.before }

/-- If all information is there, then all of it was taken. -/
theorem taken_of_ready (fits : d.Fits) {on : Bool} {ip : Address}
    (ready : matchInfos ip d.instruction.instruction.memoryOperands (Preparation.taken on d.before) = .ok true) :
    Preparation.taken on d.before = d.infos := by
  obtain ⟨own, rest, queued, matching⟩ := exists_of_matchInfos ready
  apply (Preparation.taken_sublist on d.before).eq_of_length_le
  have length : own.length = d.infos.length := by
    rw [← List.length_map (f := fun info : MemoryInfo => info.direction), matching, ← fits, List.length_map]
  rw [queued, List.length_append]
  show d.infos.length ≤ _
  omega

/-- All that is pushed is all that is needed. -/
theorem ready_of_fits (fits : d.Fits) (ip : Address) :
    matchInfos ip d.instruction.instruction.memoryOperands d.infos = .ok true := by
  have ready : matchInfos ip d.instruction.instruction.memoryOperands (d.infos ++ []) = .ok true :=
    matchInfos_append fits
  rwa [List.append_nil] at ready

/-- The instruction is timed if all was taken. -/
theorem accepts_iff (fits : d.Fits) :
    (d.offered t).accepts d.instruction.instruction = true ↔
      Preparation.taken t.enabled d.before = d.infos ∧ Preparation.switched t.enabled d.before = true ∧
        d.instruction.instruction.within t.registers = true := by
  rw [Intake.accepts_iff]
  constructor
  · rintro ⟨on, ready, within⟩
    exact ⟨taken_of_ready fits ready, on, within⟩
  · rintro ⟨all, on, within⟩
    have ready := ready_of_fits fits d.instruction.instruction.address
    rw [← all] at ready
    exact ⟨on, ready, within⟩

/-- Nothing is left of a delivery exactly if it was taken as a whole or not at all. -/
theorem queue_eq_nil_iff (fits : d.Fits) :
    ((d.offered t).after (.instruction d.instruction)).queue = [] ↔ d.Whole t.registers t.enabled := by
  unfold Whole
  by_cases accepted : (d.offered t).accepts d.instruction.instruction = true
  · have all := (accepts_iff fits).mp accepted
    rw [Intake.after_of_accepts accepted]
    refine ⟨fun _ => Or.inr all, fun _ => ?_⟩
    have length := congrArg List.length fits
    rw [List.length_map] at length
    show (Preparation.taken t.enabled d.before).drop _ = []
    rw [all.1, ← length, List.drop_length]
  · rw [Intake.after_of_not_accepts accepted]
    refine ⟨Or.inl, fun whole => ?_⟩
    exact whole.resolve_right fun all => accepted ((accepts_iff fits).mpr all)

end Delivery

/-! ## Section 3: Runs of a host -/

/-- A call on a model, and what came of it. -/
structure CallNote where
  /-- The call. -/
  call : ModelCall
  /-- The answer. -/
  answer : Progress
  /-- What was queued before. -/
  before : List MemoryInfo
  /-- What was queued afterwards. -/
  after : List MemoryInfo
  deriving DecidableEq

/-- Whether the call brought an instruction. -/
def CallNote.isInstruction (s : CallNote) : Bool :=
  match s.call with
  | .instruction _ => true
  | _ => false

/-- The call was refused because the queue begins with information that does not match. -/
def CallNote.Mismatched (s : CallNote) : Prop :=
  ∃ ip expected found, s.answer = .refused (.infoMismatch ip expected found)

/-- The instruction of the delivery found its own information in the queue, or nothing, and left nothing. -/
structure Delivery.MetBy (d : Delivery) (s : CallNote) : Prop where
  /-- The call is that of the delivery. -/
  call : s.call = .instruction d.instruction
  /-- Nothing else was queued. -/
  own : s.before = [] ∨ s.before = d.infos
  /-- All of it was used up. -/
  usedUp : s.after = []

namespace Machine

variable {M : Type} [MemorySystem M] {m m' m₁ : Machine M} {i : Nat} {t : Intake} {ds : List Delivery}
  {log : List CallNote} {s : CallNote}

/-- What is queued in model `i`. -/
def queueOf (i : Nat) (m : Machine M) : List MemoryInfo :=
  match m.models[i]? with
  | some model => model.state.infos
  | none => []

/-- Makes a call on model `i`, and notes what comes of it. -/
def noteCall (i : Nat) (c : ModelCall) : Faulting (Machine M) CallNote := do
  let before := (← get).queueOf i
  let answer ← call i c
  pure { call := c, answer, before, after := (← get).queueOf i }

/-- A host makes calls on model `i`, and between them the rest of the machine goes its way. -/
inductive Driven (i : Nat) : Machine M → List CallNote → Machine M → Prop
  /-- No call is made. -/
  | none {m : Machine M} : Driven i m [] m
  /-- Something happens beside the calls. -/
  | aside {m m₁ m' : Machine M} {log : List CallNote} (first : Aside i m m₁) (rest : Driven i m₁ log m') :
    Driven i m log m'
  /-- A call is made. -/
  | call {m m₁ m' : Machine M} {c : ModelCall} {s : CallNote} {log : List CallNote} (first : noteCall i c m = .ok s m₁)
    (rest : Driven i m₁ log m') : Driven i m (s :: log) m'

/-- A host that is alone with the machine. -/
theorem driven_of_mapM {calls : List ModelCall} (h : calls.mapM (noteCall i) m = .ok log m') : Driven i m log m' := by
  induction calls generalizing m log with
  | nil =>
    rw [List.mapM_nil] at h
    obtain ⟨rfl, rfl⟩ := pure_eq_ok.mp h
    exact .none
  | cons c calls ih =>
    rw [List.mapM_cons] at h
    obtain ⟨s, m₁, first, h⟩ := bind_eq_ok.mp h
    obtain ⟨rest, m₂, later, h⟩ := bind_eq_ok.mp h
    obtain ⟨rfl, rfl⟩ := pure_eq_ok.mp h
    exact .call first (ih later)

omit [MemorySystem M] in
theorem queueOf_of_intake (here : m.intake? i = some t) : m.queueOf i = t.queue := by
  obtain ⟨model, found, rfl⟩ := Option.map_eq_some_iff.mp here
  unfold queueOf
  rw [found]
  exact model.queue_intake.symm

/-- What a call says about the queue, seen from the intake before it. -/
structure Moves (t : Intake) (s : CallNote) : Prop where
  /-- What was queued. -/
  before : s.before = t.queue
  /-- What is queued then. -/
  after : s.after = (t.after s.call).queue
  /-- Only an instruction mismatches, and only what is queued. -/
  mismatch : s.Mismatched → ∃ u, s.call = .instruction u ∧
    ∃ e, matchInfos u.instruction.address u.instruction.memoryOperands t.queue = .error e

theorem moves_of_noteCall {c : ModelCall} (h : noteCall i c m = .ok s m') (here : m.intake? i = some t) :
    s.call = c ∧ Moves t s ∧ m'.intake? i = some (t.after c) := by
  unfold noteCall at h
  rw [get_bind] at h
  obtain ⟨a, m₁, called, h⟩ := bind_eq_ok.mp h
  rw [get_bind] at h
  obtain ⟨rfl, rfl⟩ := pure_eq_ok.mp h
  have there := intake_of_call called here
  refine ⟨rfl, ⟨queueOf_of_intake here, queueOf_of_intake there, ?_⟩, there⟩
  rintro ⟨ip, expected, found, refused⟩
  dsimp only at refused
  subst refused
  obtain ⟨u, rfl, error⟩ := matchInfos_of_call called here
  exact ⟨u, rfl, _, error⟩

/-- The calls of a log move the intake one after the other. -/
def Follows : Intake → List CallNote → Prop
  | _, [] => True
  | t, s :: log => Moves t s ∧ Follows (t.after s.call) log

/-- Whatever happens beside them, the calls alone move the intake. -/
theorem Driven.follows (driven : Driven i m log m') (here : m.intake? i = some t) : Follows t log := by
  induction driven generalizing t with
  | none => trivial
  | aside first _ ih => exact ih (first.intake here)
  | call first _ ih =>
    obtain ⟨rfl, moves, there⟩ := moves_of_noteCall first here
    exact ⟨moves, ih there⟩

theorem follows_append {log log' : List CallNote} :
    Follows t (log ++ log') ↔ Follows t log ∧ Follows ((log.map (·.call)).foldl Intake.after t) log' := by
  induction log generalizing t with
  | nil => simp [Follows]
  | cons s log ih => simp [Follows, ih, and_assoc]

/-- The calls before an instruction is offered neither bring one nor mismatch. -/
theorem quiet_of_preparations {before : List Preparation} (follows : Follows t log)
    (made : log.map (·.call) = before.map Preparation.toCall) :
    (∀ s ∈ log, ¬s.Mismatched) ∧ log.filter (·.isInstruction) = [] := by
  have prepares : ∀ s ∈ log, ∀ u, s.call ≠ .instruction u := by
    intro s mem u same
    have listed := List.mem_map_of_mem (f := CallNote.call) mem
    rw [made] at listed
    obtain ⟨p, -, called⟩ := List.mem_map.mp listed
    rw [same] at called
    cases p with
    | known info => cases called
    | switch on => cases on <;> cases called
  constructor
  · intro s mem mismatched
    obtain ⟨front, back, rfl⟩ := List.append_of_mem mem
    obtain ⟨u, same, -⟩ := (follows_append.mp follows).2.1.mismatch mismatched
    exact prepares s mem u same
  · rw [List.filter_eq_nil_iff]
    intro s mem instruction
    unfold CallNote.isInstruction at instruction
    split at instruction
    · rename_i u same
      exact prepares s mem u same
    · cases instruction

/-- The notes on one delivery. -/
theorem exists_of_delivery {d : Delivery} {rest : List ModelCall} (made : log.map (·.call) = d.calls ++ rest) :
    ∃ front s back, log = front ++ s :: back ∧ front.map (·.call) = d.before.map Preparation.toCall ∧
      s.call = .instruction d.instruction ∧ back.map (·.call) = rest := by
  unfold Delivery.calls at made
  rw [List.append_assoc] at made
  obtain ⟨front, behind, rfl, prepared, made⟩ := List.map_eq_append_iff.mp made
  obtain ⟨s, back, rfl, called, made⟩ := List.map_eq_cons_iff.mp made
  exact ⟨front, s, back, rfl, prepared, called, made⟩

/-- The instruction of a delivery that comes as a whole or not at all. -/
theorem metBy_of_whole {d : Delivery} (fits : d.Fits) (whole : d.Whole t.registers t.enabled)
    (moves : Moves (d.offered t) s) (called : s.call = .instruction d.instruction) :
    d.MetBy s ∧ ¬s.Mismatched := by
  have own : Preparation.taken t.enabled d.before = [] ∨ Preparation.taken t.enabled d.before = d.infos :=
    whole.imp_right fun all => all.1
  refine ⟨⟨called, ?_, ?_⟩, ?_⟩
  · rw [moves.before]
    exact own
  · rw [moves.after, called]
    exact (Delivery.queue_eq_nil_iff fits).mpr whole
  · intro mismatched
    obtain ⟨u, same, e, error⟩ := moves.mismatch mismatched
    rw [called] at same
    cases same
    unfold Delivery.offered at error
    dsimp only at error
    rcases own with nothing | all
    · rw [nothing] at error
      cases operands : d.instruction.instruction.memoryOperands with
      | nil =>
        rw [operands] at error
        cases error
      | cons direction others =>
        rw [operands] at error
        cases error
    · rw [all, Delivery.ready_of_fits fits] at error
      cases error

/-- Each instruction finds its own information.

A host delivers instructions to a model in whose queue nothing is left: for each of them it pushes one information for
each memory operand, in the directions of the operands, and offers it once, and it enables and disables the model
wherever it likes.  Meanwhile other hosts make calls on other models, and calls that wait in a barrier go on.  As long
as the model takes each delivery as a whole or not at all, an instruction that is offered finds nothing in the queue but
the information that was pushed for it, uses it up, and is not refused for information that does not match. -/
theorem infos_reach_their_instruction (here : m.intake? i = some t) (empty : t.queue = []) (driven : Driven i m log m')
    (made : log.map (·.call) = ds.flatMap Delivery.calls) (fits : ∀ d ∈ ds, d.Fits)
    (whole : Delivery.AllWhole t.registers t.enabled ds) :
    List.Forall₂ Delivery.MetBy ds (log.filter (·.isInstruction)) ∧ ∀ s ∈ log, ¬s.Mismatched := by
  have follows := driven.follows here
  clear here driven
  -- by induction on the deliveries; nothing is queued before each of them
  induction ds generalizing t log with
  | nil =>
    obtain rfl : log = [] := List.map_eq_nil_iff.mp made
    exact ⟨List.Forall₂.nil, fun s mem => by cases mem⟩
  | cons d ds ih =>
    rw [List.flatMap_cons] at made
    obtain ⟨front, s, back, rfl, prepared, called, made⟩ := exists_of_delivery made
    obtain ⟨preparing, moves, following⟩ := follows_append.mp follows
    obtain ⟨quiet, nobody⟩ := quiet_of_preparations preparing prepared
    have offered : (front.map (·.call)).foldl Intake.after t = d.offered t := by
      rw [prepared, Preparation.foldl_after, empty]
      rfl
    rw [offered] at moves following
    obtain ⟨met, matched⟩ := metBy_of_whole (fits d List.mem_cons_self) whole.1 moves called
    rw [called] at following
    have nothing := (Delivery.queue_eq_nil_iff (fits d List.mem_cons_self)).mpr whole.1
    have later := whole.2
    obtain ⟨enabled, registers⟩ := Intake.switch_after_instruction (d.offered t) d.instruction
    obtain ⟨all, none⟩ := ih nothing made (fun d mem => fits d (List.mem_cons_of_mem _ mem))
      (by rw [enabled, registers]; exact later) following
    have instruction : s.isInstruction = true := by
      unfold CallNote.isInstruction
      rw [called]
    constructor
    · rw [List.filter_append, nobody, List.nil_append, List.filter_cons_of_pos instruction]
      exact List.Forall₂.cons met all
    · intro s' mem
      rcases List.mem_append.mp mem with before | behind
      · exact quiet s' before
      · rcases List.mem_cons.mp behind with rfl | after
        · exact matched
        · exact none s' after

/-- What is known about a read that took so many femtoseconds. -/
def readIn (fs : UInt64) : MemoryInfo := { direction := .read, latency := ⟨fs⟩, hit := .l2 }

/-- What is known about a write. -/
def written : MemoryInfo := { direction := .write, latency := ⟨40⟩, hit := .l2 }

/-- An addition of two values in memory. -/
def pairAddition : InstrInstance :=
  { instruction := { kind := .add, operands := [.memory .read none, .memory .read none] } }

/-- A store. -/
def storing : InstrInstance := { instruction := { kind := .add, operands := [.memory .write none] } }

/-- An addition and a store while the model is enabled, and between them one while it is not. -/
def wholeDeliveries : List Delivery :=
  [{ before := [.known (readIn 10), .switch false, .switch true, .known (readIn 20)], instruction := pairAddition },
    { before := [.switch false, .known (readIn 30)], instruction := loadingAddition },
    { before := [.switch true, .known written], instruction := storing }]

theorem infos_reach_their_instruction_of_three :
    ∃ log m, (wholeDeliveries.flatMap Delivery.calls).mapM (noteCall 0) oneSimple = .ok log m ∧
      List.Forall₂ Delivery.MetBy wholeDeliveries (log.filter (·.isInstruction)) ∧ ∀ s ∈ log, ¬s.Mismatched := by
  have ran : ∃ log m, (wholeDeliveries.flatMap Delivery.calls).mapM (noteCall 0) oneSimple = .ok log m ∧
      log.map (·.call) = wholeDeliveries.flatMap Delivery.calls := ⟨_, _, rfl, rfl⟩
  obtain ⟨log, m, ran, made⟩ := ran
  have here : oneSimple.intake? 0 = some { queue := [], enabled := true, registers := none } := rfl
  refine ⟨log, m, ran, infos_reach_their_instruction here rfl (driven_of_mapM ran) made ?_ ?_⟩
  · intro d mem
    simp only [wholeDeliveries, List.mem_cons, List.not_mem_nil, or_false] at mem
    rcases mem with rfl | rfl | rfl
    · rfl
    · rfl
    · rfl
  · exact ⟨.inr ⟨rfl, rfl, rfl⟩, .inl rfl, .inr ⟨rfl, rfl, rfl⟩, trivial⟩

/-- The model is enabled between the two pushes for an addition of two values.  It has dropped the first of them, and
an addition of one value and a store come after it. -/
def tornDeliveries : List Delivery :=
  [{ before := [.switch false, .known (readIn 10), .switch true, .known (readIn 20)], instruction := pairAddition },
    { before := [.known (readIn 30)], instruction := loadingAddition },
    { before := [.known written], instruction := storing }]

/-- Half of what is known about the first instruction is taken for what is known about the second, and the store is
refused for information that does not match. -/
theorem infos_reach_next_instruction :
    (∀ d ∈ tornDeliveries, d.Fits) ∧
    ∃ log m, Driven 0 oneSimple log m ∧ log.map (·.call) = tornDeliveries.flatMap Delivery.calls ∧
      (∃ s₁ s₂ s₃, log.filter (·.isInstruction) = [s₁, s₂, s₃] ∧
        s₁.answer = .completed false ∧ s₁.after = [readIn 20] ∧
        s₂.answer = .completed true ∧ s₂.before = [readIn 20, readIn 30] ∧ s₂.after = [readIn 30] ∧
        s₃.Mismatched) ∧
      ¬List.Forall₂ Delivery.MetBy tornDeliveries (log.filter (·.isInstruction)) := by
  constructor
  · intro d mem
    simp only [tornDeliveries, List.mem_cons, List.not_mem_nil, or_false] at mem
    rcases mem with rfl | rfl | rfl
    · rfl
    · rfl
    · rfl
  · have ran : ∃ log m, (tornDeliveries.flatMap Delivery.calls).mapM (noteCall 0) oneSimple = .ok log m ∧
        log.map (·.call) = tornDeliveries.flatMap Delivery.calls ∧
        ∃ s₁ s₂ s₃, log.filter (·.isInstruction) = [s₁, s₂, s₃] ∧
          s₁.answer = .completed false ∧ s₁.after = [readIn 20] ∧
          s₂.answer = .completed true ∧ s₂.before = [readIn 20, readIn 30] ∧ s₂.after = [readIn 30] ∧
          s₃.answer = .refused (.infoMismatch 0 .write .read) :=
      ⟨_, _, rfl, rfl, _, _, _, rfl, rfl, rfl, rfl, rfl, rfl, rfl⟩
    obtain ⟨log, m, ran, made, s₁, s₂, s₃, listed, missing, kept, timed, stale, left, refused⟩ := ran
    refine ⟨log, m, driven_of_mapM ran, made, ⟨s₁, s₂, s₃, listed, missing, kept, timed, stale, left, ?_⟩, ?_⟩
    · exact ⟨_, _, _, refused⟩
    · intro met
      rw [listed] at met
      obtain ⟨first, -⟩ := List.forall₂_cons.mp met
      have nothing := first.usedUp
      rw [kept] at nothing
      cases nothing

end Machine

end CoreTiming
