import CoreTiming.Proofs.Agreement
import CoreTiming.Proofs.InOrderCores
import CoreTiming.Proofs.OperandInfo
import CoreTiming.Proofs.Streams

/-!
# Calls that fail may be made again

A model looks at everything that an instruction needs before it touches anything: is the information on its memory
operands there, and in the right directions, and does it keep its registers?  `Model.verdict` is what it finds.  If
that is not in favour of the instruction, the model stays as it is, and else it uses up the information on this
instruction and no other.

Since calls that fail change nothing, it does not matter how many of them come before one that succeeds
(`Machine.failed_calls_change_nothing`).
-/

namespace CoreTiming

open Faulting

/-! ## Section 1: In-order cores -/

namespace InOrder

variable {M : Type} {m m' : InOrder M} {i : Instruction} {own rest queue : List MemoryInfo}

/-- The core with another queue. -/
def withInfos (queue : List MemoryInfo) (m : InOrder M) : InOrder M := { m with state := m.state.withInfos queue }

theorem load_withInfos (m : InOrder M) (time : Time) (info : MemoryInfo) :
    (m.withInfos queue).load time info = ((m.load time info).1, (m.load time info).2.withInfos queue) := by
  unfold load withInfos
  dsimp only
  split <;> rfl

theorem loadAll_withInfos (infos : List MemoryInfo) (ready longest : Time) (m : InOrder M) :
    loadAll infos ready longest (m.withInfos queue) =
      ((loadAll infos ready longest m).1, (loadAll infos ready longest m).2.withInfos queue) := by
  induction infos generalizing ready longest m with
  | nil => rfl
  | cons info infos ih =>
    rw [loadAll_cons, loadAll_cons, load_withInfos, ih]

theorem loaded_withInfos (m : InOrder M) (i : Instruction) (infos : List MemoryInfo) :
    (m.withInfos queue).loaded i infos = ((m.loaded i infos).1, (m.loaded i infos).2.withInfos queue) :=
  loadAll_withInfos _ _ _ m

theorem completion_withInfos (m : InOrder M) (i : Instruction) (infos : List MemoryInfo) :
    (m.withInfos queue).completion i infos = m.completion i infos := by
  unfold completion
  rw [loaded_withInfos]
  rfl

/-- Executing an instruction does not look at the queue. -/
theorem execute_withInfos (m : InOrder M) (i : Instruction) (infos : List MemoryInfo) :
    (m.withInfos queue).execute i infos = (m.execute i infos).withInfos queue := by
  have stored : ((m.withInfos queue).stored i infos).1 = (m.stored i infos).1 ∧
      ((m.withInfos queue).stored i infos).2.stores = (m.stored i infos).2.stores := by
    unfold InOrder.stored
    rw [loaded_withInfos, completion_withInfos]
    apply storeAll_congr
    rfl
  rw [execute_eq, execute_eq, completion_withInfos, loaded_withInfos, stored.1, stored.2]
  rfl

theorem state_execute (m : InOrder M) (i : Instruction) (infos : List MemoryInfo) :
    (m.execute i infos).state.infos = m.state.infos ∧
      (m.execute i infos).state.instructions = m.state.instructions + 1 := by
  rw [execute_eq]
  exact ⟨rfl, rfl⟩

variable [MemorySystem M]

/-- A fetch adds to the clock, and the memory remembers it. -/
theorem fetch_frame (h : fetch i m = .ok () m') :
    ∃ clock memory, m' = { m with state := { m.state with clock }, memory } := by
  unfold fetch at h
  split at h
  · obtain ⟨served, m₁, asked, h⟩ := bind_eq_ok.mp h
    obtain ⟨memory, -, rfl⟩ := zoom_eq_ok.mp asked
    obtain rfl := modify_eq_ok.mp h
    exact ⟨_, memory, rfl⟩
  · obtain ⟨-, rfl⟩ := pure_eq_ok.mp h
    exact ⟨m.state.clock, m.memory, rfl⟩

/-- A fetch does not look at the queue. -/
theorem fetch_withInfos (i : Instruction) (m : InOrder M) (queue : List MemoryInfo) :
    Lockstep (fun m m' => m' = m.withInfos queue) (fetch i m) (fetch i (m.withInfos queue)) := by
  unfold fetch
  split
  · refine lockstep_bind (S := fun m m' => m' = m.withInfos queue) (lockstep_zoom (R := Eq) ?_ ?_) ?_
    · exact Lockstep.refl (fun _ => rfl) _
    · rintro p _ rfl
      rfl
    · rintro served s _ - - rfl
      exact .ok rfl
  · exact lockstep_pure rfl

/-- An instruction that has all it needs is fetched and executed. -/
theorem time_of_holds (holds : m.state.Holds i own rest) (kept : m.outOfRange? i = none) :
    InOrder.time i m =
      (do
        fetch i
        modify fun m => execute { m with state := m.state.dropOldest i.memoryOperands.length } i
          (m.state.oldest i.memoryOperands.length)
        pure (Except.ok true) : Faulting (InOrder M) (Except CallError Bool)) m := by
  unfold InOrder.time
  rw [get_bind, holds.ready, kept]

/-- It uses up what is known about its operands. -/
theorem exists_of_time (holds : m.state.Holds i own rest) (kept : m.outOfRange? i = none)
    {answer : Except CallError Bool} (h : InOrder.time i m = .ok answer m') :
    answer = .ok true ∧ m'.state.infos = rest ∧ m'.state.instructions = m.state.instructions + 1 := by
  rw [time_of_holds holds kept] at h
  obtain ⟨⟨⟩, m₁, fetched, h⟩ := bind_eq_ok.mp h
  obtain ⟨clock, memory, rfl⟩ := fetch_frame fetched
  rw [modify_bind] at h
  obtain ⟨rfl, rfl⟩ := pure_eq_ok.mp h
  have holding : ModelState.Holds { m.state with clock } i own rest := ⟨holds.queued, holds.matching⟩
  rw [holding.dropOldest]
  obtain ⟨left, counted⟩ := state_execute { m with state := { m.state with clock }.withInfos rest, memory } i
    ({ m.state with clock }.oldest i.memoryOperands.length)
  exact ⟨rfl, left, counted⟩

/-- It does not look at what is queued behind that. -/
theorem time_withInfos (holds : m.state.Holds i own rest) (kept : m.outOfRange? i = none) (queue : List MemoryInfo) :
    Lockstep (fun m m' => m' = m.withInfos queue) (InOrder.time i m) (InOrder.time i (m.withInfos (own ++ queue))) := by
  have holding : (m.withInfos (own ++ queue)).state.Holds i own queue := holds.withInfos queue
  rw [time_of_holds holds kept, time_of_holds holding kept]
  refine lockstep_bind (fetch_withInfos i m (own ++ queue)) ?_
  rintro ⟨⟩ s _ fetched - rfl
  have holds' : s.state.Holds i own rest := by
    obtain ⟨clock, memory, rfl⟩ := fetch_frame fetched
    exact ⟨holds.queued, holds.matching⟩
  have there : (s.withInfos (own ++ queue)).state.Holds i own queue := holds'.withInfos queue
  rw [modify_bind, modify_bind, holds'.oldest, holds'.dropOldest, there.oldest, there.dropOldest]
  refine lockstep_pure ?_
  rw [← execute_withInfos]
  have same : { s with state := (s.withInfos (own ++ queue)).state.withInfos queue } =
      (s.withInfos rest).withInfos queue := rfl
  exact congrArg (execute · i own) same

end InOrder

/-! ## Section 2: Models by themselves -/

namespace Model

variable {M : Type} {model model' : Model M} {i : Instruction} {answer : Except CallError Bool}

/-- Only a share in a window is one. -/
theorem exists_windowed {w : Windowed} (shared : model.windowed? = some w) : ∃ w, model = .windowed w := by
  cases model with
  | simple s => cases shared
  | magic s => cases shared
  | inOrder m => cases shared
  | windowed w => exact ⟨w, rfl⟩

/-- The model with another queue. -/
def withInfos (queue : List MemoryInfo) (model : Model M) : Model M := model.modifyState (·.withInfos queue)

/-- What the model finds about an instruction before it touches anything.  A share in a window does not wait for
information. -/
def verdict (i : Instruction) : Model M → Except CallError Bool
  | .simple s | .magic s => s.infosReady i
  | .inOrder m =>
    match m.state.infosReady i, m.outOfRange? i with
    | .ok true, some r => .error (.registerOutOfRange r m.registers.size)
    | ready, _ => ready
  | .windowed w =>
    match w.state.infosReady i with
    | .error e => .error e
    | .ok _ => .ok true

/-- If the verdict is in favour of the instruction, what it needs is there. -/
theorem exists_holds_of_verdict (serial : model.windowed? = none) (favour : model.verdict i = .ok true) :
    (∃ own rest, model.state.Holds i own rest) ∧ ∀ m, model = .inOrder m → m.outOfRange? i = none := by
  cases model with
  | simple s => exact ⟨ModelState.exists_holds favour, fun m same => by cases same⟩
  | magic s => exact ⟨ModelState.exists_holds favour, fun m same => by cases same⟩
  | inOrder m =>
    unfold verdict at favour
    dsimp only at favour
    split at favour
    · cases favour
    · rename_i here
      refine ⟨ModelState.exists_holds favour, ?_⟩
      rintro _ ⟨⟩
      by_contra outside
      obtain ⟨r, missing⟩ := Option.ne_none_iff_exists'.mp outside
      exact here r favour missing
  | windowed w => cases serial

/-- What the simple and the magic model do with an instruction whose information is there. -/
theorem serially_of_holds {s : ModelState} {own rest : List MemoryInfo} (holds : s.Holds i own rest) (cost : Time)
    (wrap : ModelState → Model M) (model : Model M) :
    time.serially wrap (s.timeSerially i cost) model =
      .ok (.ok true) (wrap ((s.withInfos rest).elapse 1 (ModelState.totalLatency own + cost))) := by
  have timed : s.timeSerially i cost =
      .ok (true, (s.dropOldest i.memoryOperands.length).elapse 1
        (ModelState.totalLatency (s.oldest i.memoryOperands.length) + cost)) := by
    unfold ModelState.timeSerially
    rw [holds.ready]
    rfl
  rw [timed, holds.oldest, holds.dropOldest]
  rfl

theorem serially_of_verdict_ne {s : ModelState} {wrap : ModelState → Model M}
    (against : s.infosReady i ≠ .ok true) (cost : Time) :
    time.serially wrap (s.timeSerially i cost) (wrap s) = .ok (s.infosReady i) (wrap s) := by
  unfold ModelState.timeSerially
  cases ready : s.infosReady i with
  | error e => rfl
  | ok all =>
    cases all with
    | false => rfl
    | true => exact absurd ready against

variable [MemorySystem M]

/-- The model of an in-order core is the core. -/
theorem time_inOrder {m m' : InOrder M} (h : InOrder.time i m = .ok answer m') :
    time i (.inOrder m) = .ok answer (.inOrder m') := by
  unfold time
  dsimp only
  rw [h]

/-- If the verdict is against the instruction, it is the answer, and the model stays as it is. -/
theorem time_of_verdict_ne (serial : model.windowed? = none) (against : model.verdict i ≠ .ok true) :
    time i model = .ok (model.verdict i) model := by
  cases model with
  | simple s => exact serially_of_verdict_ne against _
  | magic s => exact serially_of_verdict_ne against _
  | inOrder m =>
    have same : InOrder.time i m = .ok ((Model.inOrder m).verdict i) m := by
      unfold InOrder.time
      rw [get_bind]
      unfold verdict at against ⊢
      dsimp only at against ⊢
      cases ready : m.state.infosReady i with
      | error e => rfl
      | ok all =>
        cases all with
        | false => rfl
        | true =>
          cases missing : m.outOfRange? i with
          | some r => rfl
          | none =>
            rw [ready, missing] at against
            exact absurd rfl against
    exact time_inOrder same
  | windowed w => cases serial

/-- If the verdict is in favour of the instruction, the model uses up what is known about its memory operands, and it
makes no difference what is queued behind that. -/
theorem exists_of_verdict (serial : model.windowed? = none) (favour : model.verdict i = .ok true)
    (h : time i model = .ok answer model') :
    answer = .ok true ∧ ∃ own, model.state.Holds i own model'.state.infos ∧
      model'.state.instructions = model.state.instructions + 1 ∧
      ∀ queue, time i (model.withInfos (own ++ queue)) = .ok (.ok true) (model'.withInfos queue) := by
  obtain ⟨⟨own, rest, holds⟩, kept⟩ := exists_holds_of_verdict serial favour
  cases model with
  | simple s =>
    have timed := serially_of_holds holds (s.staticCost i) Model.simple (Model.simple s : Model M)
    obtain ⟨rfl, rfl⟩ := EStateM.Result.ok.inj (h.symm.trans timed)
    refine ⟨rfl, own, holds, rfl, fun queue => ?_⟩
    exact serially_of_holds (holds.withInfos queue) (s.staticCost i) .simple _
  | magic s =>
    have timed := serially_of_holds holds (s.unitCost i) Model.magic (Model.magic s : Model M)
    obtain ⟨rfl, rfl⟩ := EStateM.Result.ok.inj (h.symm.trans timed)
    refine ⟨rfl, own, holds, rfl, fun queue => ?_⟩
    exact serially_of_holds (holds.withInfos queue) (s.unitCost i) .magic _
  | inOrder m =>
    unfold time at h
    dsimp only at h
    split at h
    · rename_i answer' m' ran
      cases h
      obtain ⟨rfl, infos, counted⟩ := InOrder.exists_of_time holds (kept m rfl) ran
      refine ⟨rfl, own, ?_, counted, fun queue => ?_⟩
      · rw [← infos] at holds
        exact holds
      · have together := InOrder.time_withInfos holds (kept m rfl) queue
        rw [ran] at together
        obtain ⟨_, ran', rfl⟩ := together.of_ok
        exact time_inOrder ran'
    · cases h
  | windowed w => cases serial

end Model

/-! ## Section 3: Calls on a machine -/

/-- Cracking an instruction uses up the information on it, if it is there; the queue is not touched otherwise. -/
theorem ModelState.infos_of_crack {s : ModelState} {u : InstrInstance}
    {cracked : Except CallError (List OpInstance × ModelState)} (h : s.crack u = .ok cracked) :
    match cracked with
    | .error e => s.infosReady u.instruction = .error e
    | .ok (_, state) => state = if s.infosReady u.instruction = .ok true then
        s.dropOldest u.instruction.memoryOperands.length else s := by
  cases cracked_of_crack h with
  | refused ready => exact ready
  | bare _ ready =>
    dsimp only
    rw [ready, if_neg (by simp)]
  | informed _ ready =>
    dsimp only
    rw [ready, if_pos rfl]

/-- The call has had no effect: it was refused, or information on memory operands is missing. -/
def Progress.failed : Progress → Bool
  | .refused _ | .completed false => true
  | .waiting | .completed true => false

namespace Machine

variable {M : Type} [MemorySystem M] {m m' : Machine M} {i : Nat} {w : Windowed} {u : InstrInstance} {a : Progress}

/-- A turn of a host thread does not fail. -/
theorem not_failed_of_progress {draining : Bool} (h : progress i w draining m = .ok a m') : a.failed = false := by
  unfold progress at h
  rw [get_bind] at h
  split at h
  · cases draining with
    | false =>
      obtain ⟨rfl, -⟩ := pure_eq_ok.mp h
      rfl
    | true =>
      have collected : (collect i w >>= fun _ => pure (Progress.completed true)) m = .ok a m' := h
      obtain ⟨-, m₁, -, h⟩ := bind_eq_ok.mp collected
      obtain ⟨rfl, -⟩ := pure_eq_ok.mp h
      rfl
  · obtain ⟨rfl, -⟩ := pure_eq_ok.mp h
    rfl

theorem not_failed_of_simulate (h : simulate i w m = .ok a m') : a.failed = false := by
  obtain ⟨-, m₁, -, h⟩ := bind_eq_ok.mp h
  exact not_failed_of_progress h

theorem not_failed_of_finish (h : finishWindowed i w m = .ok a m') : a.failed = false := by
  obtain ⟨-, m₁, -, h⟩ := bind_eq_ok.mp h
  exact not_failed_of_progress h

/-- Calls are made on models that are there. -/
theorem exists_model_of_call {c : ModelCall} (h : call i c m = .ok a m') : ∃ model, m.models[i]? = some model := by
  unfold call at h
  rw [get_bind] at h
  obtain ⟨model, m₁, found, -⟩ := bind_eq_ok.mp h
  have there := (ofExcept_eq_ok.mp found).1
  unfold Machine.model at there
  split at there
  · rename_i model' at_i
    exact ⟨model', at_i⟩
  · cases there

/-- The answer to an instruction, from what the model by itself says to it. -/
def answerOf : Except CallError Bool → Progress
  | .ok timed => .completed timed
  | .error e => .refused e

/-- What becomes of an instruction that is offered to model `i`. -/
inductive Offered (i : Nat) (u : InstrInstance) (m : Machine M) (model : Model M) : Progress → Machine M → Prop
  /-- The model is disabled. -/
  | ignored (disabled : model.state.enabled = false) : Offered i u m model (.completed true) m
  /-- The verdict is against the instruction. -/
  | failed (enabled : model.state.enabled = true) (against : model.verdict u.instruction ≠ .ok true) :
    Offered i u m model (answerOf (model.verdict u.instruction)) m
  /-- The model shares no window, and times the instruction. -/
  | timed {model' : Model M} (enabled : model.state.enabled = true) (serial : model.windowed? = none)
    (favour : model.verdict u.instruction = .ok true) (ran : Model.time u.instruction model = .ok (.ok true) model') :
    Offered i u m model (.completed true) (m.setModel i model')
  /-- The model hands micro-ops to its window, adds what it is told, and lets the window advance. -/
  | handed {w : Windowed} {ops : List OpInstance} {state : ModelState} {a : Progress} {m' : Machine M}
    (enabled : model.state.enabled = true) (shares : model = .windowed w)
    (cracked : w.state.crack u = .ok (.ok (ops, state)))
    (rest : (do
      let told ← onBarrier w.master (Barrier.push w.slot ops)
      modifyState i (·.elapse told.1 told.2)
      simulate i w : Faulting (Machine M) Progress) (m.setModel i (.windowed { w with state })) = .ok a m') :
    Offered i u m model a m'

/-- An enabled model that shares no window. -/
theorem offered_of_serial {model : Model M} (found : m.models[i]? = some model) (enabled : model.state.enabled = true)
    (serial : model.windowed? = none) (h : timeInstruction i model u m = .ok a m') : Offered i u m model a m' := by
  unfold timeInstruction at h
  rw [enabled, serial] at h
  obtain ⟨answer, m₁, ran, told⟩ := bind_eq_ok.mp h
  have answered : a = answerOf answer ∧ m' = m₁ := by
    cases answer with
    | ok timed =>
      obtain ⟨rfl, rfl⟩ := pure_eq_ok.mp told
      exact ⟨rfl, rfl⟩
    | error e =>
      obtain ⟨rfl, rfl⟩ := pure_eq_ok.mp told
      exact ⟨rfl, rfl⟩
  obtain ⟨rfl, rfl⟩ := answered
  rw [onModel_of_found found] at ran
  by_cases favour : model.verdict u.instruction = .ok true
  · split at ran
    · rename_i answer' model' timed
      cases ran
      obtain ⟨rfl, -⟩ := Model.exists_of_verdict serial favour timed
      exact .timed enabled serial favour timed
    · cases ran
  · rw [Model.time_of_verdict_ne serial favour] at ran
    cases ran
    rw [setModel_of_found found]
    exact .failed enabled favour

/-- An enabled share in a window. -/
theorem offered_of_windowed (found : m.models[i]? = some (.windowed w)) (enabled : w.state.enabled = true)
    (h : timeWindowed i w u m = .ok a m') : Offered i u m (.windowed w) a m' := by
  unfold timeWindowed at h
  obtain ⟨cracked, m₁, first, rest⟩ := bind_eq_ok.mp h
  obtain ⟨made, rfl⟩ := ofExcept_eq_ok.mp first
  have queued := ModelState.infos_of_crack made
  cases cracked with
  | error e =>
    obtain ⟨rfl, rfl⟩ := pure_eq_ok.mp rest
    have refused : (Model.windowed w : Model M).verdict u.instruction = .error e := by
      unfold Model.verdict
      dsimp only at queued ⊢
      rw [queued]
    have against : (Model.windowed w : Model M).verdict u.instruction ≠ .ok true := by
      rw [refused]
      exact fun same => by cases same
    have failed : Offered i u m (.windowed w) (answerOf ((Model.windowed w : Model M).verdict u.instruction)) m :=
      .failed enabled against
    rw [refused] at failed
    exact failed
  | ok handed =>
    obtain ⟨ops, state⟩ := handed
    dsimp only at rest
    rw [bind_of_ok (modifyState_of_found found _)] at rest
    exact .handed enabled rfl made rest

/-- An instruction is offered to a model that is there, and becomes one of four things. -/
theorem exists_offered (h : call i (.instruction u) m = .ok a m') :
    ∃ model, m.models[i]? = some model ∧ Offered i u m model a m' := by
  obtain ⟨model, found⟩ := exists_model_of_call h
  refine ⟨model, found, ?_⟩
  unfold call at h
  rw [get_bind, model_of_found found] at h
  have offered : timeInstruction i model u m = .ok a m' := h
  cases enabled : model.state.enabled with
  | false =>
    unfold timeInstruction at offered
    rw [enabled] at offered
    cases offered
    exact .ignored enabled
  | true =>
    cases serial : model.windowed? with
    | none => exact offered_of_serial found enabled serial offered
    | some w =>
      obtain ⟨w, rfl⟩ := Model.exists_windowed serial
      unfold timeInstruction at offered
      rw [enabled] at offered
      exact offered_of_windowed found enabled offered

/-- An instruction that fails leaves the whole machine as it was. -/
theorem eq_of_failed_instruction (h : call i (.instruction u) m = .ok a m') (failed : a.failed = true) : m' = m := by
  obtain ⟨model, found, offered⟩ := exists_offered h
  cases offered with
  | ignored disabled => rfl
  | failed enabled against => rfl
  | timed enabled serial favour ran => cases failed
  | handed enabled shares cracked rest =>
    obtain ⟨told, m₁, -, rest⟩ := bind_eq_ok.mp rest
    obtain ⟨⟨⟩, m₂, -, last⟩ := bind_eq_ok.mp rest
    rw [not_failed_of_simulate last] at failed
    cases failed

/-- No other call fails. -/
theorem not_failed_of_not_instruction {c : ModelCall} (h : call i c m = .ok a m')
    (other : ∀ u, c ≠ .instruction u) : a.failed = false := by
  obtain ⟨model, found⟩ := exists_model_of_call h
  have nothing : (pure (Progress.completed true) : Faulting (Machine M) Progress) m = .ok a m' → a.failed = false := by
    intro ran
    obtain ⟨rfl, -⟩ := pure_eq_ok.mp ran
    rfl
  have done : ∀ {α : Type} {x : Faulting (Machine M) α},
      (x *> pure (Progress.completed true) : Faulting (Machine M) Progress) m = .ok a m' → a.failed = false := by
    intro α x ran
    rw [seqRight_eq_bind] at ran
    obtain ⟨-, m₁, -, ran⟩ := bind_eq_ok.mp ran
    obtain ⟨rfl, -⟩ := pure_eq_ok.mp ran
    rfl
  unfold call at h
  rw [get_bind, model_of_found found] at h
  rw [bind_of_ok (ofExcept_eq_ok.mpr ⟨rfl, rfl⟩)] at h
  cases c with
  | instruction u => exact absurd rfl (other u)
  | info info => exact done h
  | setTime t => exact done h
  | enable => exact done h
  | disable => exact done h
  -- the other calls do something only if the model shares a window
  | synchronize =>
    cases shared : model.windowed? with
    | none =>
      simp only [shared] at h
      exact nothing h
    | some w =>
      simp only [shared] at h
      exact not_failed_of_simulate h
  | notify =>
    cases shared : model.windowed? with
    | none =>
      simp only [shared] at h
      exact nothing h
    | some w =>
      simp only [shared] at h
      exact done h
  | finish =>
    cases shared : model.windowed? with
    | none =>
      simp only [shared] at h
      exact nothing h
    | some w =>
      simp only [shared] at h
      exact not_failed_of_finish h

/-- A call that fails leaves the whole machine as it was. -/
theorem eq_of_failed {c : ModelCall} (h : call i c m = .ok a m') (failed : a.failed = true) : m' = m := by
  by_cases instruction : ∃ u, c = .instruction u
  · obtain ⟨u, rfl⟩ := instruction
    exact eq_of_failed_instruction h failed
  · rw [not_failed_of_not_instruction h fun u same => instruction ⟨u, same⟩] at failed
    cases failed

/-! ## Section 4: Offering an instruction again -/

/-- Makes calls on models, one after the other, and lists the answers. -/
def answers (calls : List (Nat × ModelCall)) : Faulting (Machine M) (List Progress) :=
  calls.mapM fun c => call c.1 c.2

/-- The calls without those that have failed. -/
def strike (calls : List (Nat × ModelCall)) (answers : List Progress) : List (Nat × ModelCall) :=
  ((calls.zip answers).filter fun made => !made.2.failed).map Prod.fst

/-- Calls that have failed may as well not have been made: the others are answered the same without them, and leave
the same machine. -/
theorem answers_strike {calls : List (Nat × ModelCall)} {as : List Progress} (h : answers calls m = .ok as m') :
    answers (strike calls as) m = .ok (as.filter (!·.failed)) m' := by
  unfold answers at h ⊢
  induction calls generalizing m as with
  | nil =>
    rw [List.mapM_nil] at h
    obtain ⟨rfl, rfl⟩ := pure_eq_ok.mp h
    rfl
  | cons c calls ih =>
    rw [List.mapM_cons] at h
    obtain ⟨a, m₁, first, h⟩ := bind_eq_ok.mp h
    obtain ⟨rest, m₂, later, h⟩ := bind_eq_ok.mp h
    obtain ⟨rfl, rfl⟩ := pure_eq_ok.mp h
    have others := ih later
    cases failed : a.failed with
    | true =>
      have same := eq_of_failed first failed
      subst same
      simpa [strike, failed] using others
    | false =>
      have made : strike (c :: calls) (a :: rest) = c :: strike calls rest := by simp [strike, failed]
      have told : (a :: rest).filter (!·.failed) = a :: rest.filter (!·.failed) := by simp [failed]
      rw [made, told, List.mapM_cons, bind_of_ok first, bind_of_ok others]
      rfl

/-- Calls that fail change nothing.

A model that shares no window answers an instruction in one of two ways.  Unless it times the instruction, it stays
exactly as it is.  If it does, it uses up the information that its queue begins with, one for each memory operand, in
the order and in the directions of the operands; one more instruction is counted, and what is queued behind makes no
difference.

In a machine, no call that is refused or lacks information changes anything, neither a model nor a window.  So hosts
may make such calls again and again until they succeed: what comes of all calls is what would have come of them without
those that failed. -/
theorem failed_calls_change_nothing :
    (∀ (instruction : Instruction) (model model' : Model M) (answer : Except CallError Bool),
      model.windowed? = none → Model.time instruction model = .ok answer model' →
        (answer ≠ .ok true → model' = model) ∧
        (answer = .ok true → ∃ own, model.state.Holds instruction own model'.state.infos ∧
          model'.state.instructions = model.state.instructions + 1 ∧
          ∀ queue, Model.time instruction (model.withInfos (own ++ queue)) =
            .ok (.ok true) (model'.withInfos queue))) ∧
    (∀ (i : Nat) (c : ModelCall) (m m' : Machine M) (a : Progress), call i c m = .ok a m' → a.failed = true → m' = m) ∧
    (∀ (calls : List (Nat × ModelCall)) (m m' : Machine M) (as : List Progress), answers calls m = .ok as m' →
      answers (strike calls as) m = .ok (as.filter (!·.failed)) m') := by
  refine ⟨?_, fun i c m m' a h failed => eq_of_failed h failed, fun calls m m' as h => answers_strike h⟩
  intro instruction model model' answer serial timed
  by_cases favour : model.verdict instruction = .ok true
  · obtain ⟨rfl, uses⟩ := Model.exists_of_verdict serial favour timed
    exact ⟨fun against => absurd rfl against, fun _ => uses⟩
  · rw [Model.time_of_verdict_ne serial favour] at timed
    cases timed
    exact ⟨fun _ => rfl, fun done => absurd done favour⟩

/-- A machine with a simple model. -/
def oneSimple : Machine FixedMemory := { models := #[.simple (.new (.ofTime ⟨1000⟩) {})] }

/-- What is known about a read. -/
def arrived : MemoryInfo := { direction := .read, latency := ⟨20⟩, hit := .l2 }

/-- A machine with a share in a window, whose queue begins with information on a write. -/
def oneMismatched : Machine FixedMemory :=
  { models := #[.windowed
      { state := { ModelState.new (.ofTime ⟨1000⟩) {} with infos := [{ arrived with direction := .write }] }
        master := 0
        slot := 0 }] }

/-- An instruction that is offered before the information on its operand is there, and again afterwards; one whose
information is there; and one that the share in a window refuses. -/
theorem failed_calls_change_nothing_of_three :
    (∃ m, answers [(0, .instruction loadingAddition), (0, .info arrived), (0, .instruction loadingAddition)] oneSimple =
        .ok [.completed false, .completed true, .completed true] m ∧
      answers [(0, .info arrived), (0, .instruction loadingAddition)] oneSimple =
        .ok [.completed true, .completed true] m) ∧
    (∃ model own, Model.time loadingAddition.instruction
        (.magic { ModelState.new (.ofTime ⟨1000⟩) {} with infos := [arrived, arrived] } : Model FixedMemory) =
          .ok (.ok true) model ∧
      ModelState.Holds { ModelState.new (.ofTime ⟨1000⟩) {} with infos := [arrived, arrived] }
        loadingAddition.instruction own model.state.infos) ∧
    ∃ m, call 0 (.instruction loadingAddition) oneMismatched = .ok (.refused (.infoMismatch 0 .read .write)) m ∧
      m = oneMismatched := by
  refine ⟨?_, ?_, ?_⟩
  · have offered : ∃ m,
        answers [(0, .instruction loadingAddition), (0, .info arrived), (0, .instruction loadingAddition)] oneSimple =
          .ok [.completed false, .completed true, .completed true] m := ⟨_, rfl⟩
    obtain ⟨m, offered⟩ := offered
    exact ⟨m, offered, failed_calls_change_nothing.2.2 _ _ _ _ offered⟩
  · have timed : ∃ model, Model.time loadingAddition.instruction
        (.magic { ModelState.new (.ofTime ⟨1000⟩) {} with infos := [arrived, arrived] } : Model FixedMemory) =
          .ok (.ok true) model := ⟨_, rfl⟩
    obtain ⟨model, timed⟩ := timed
    obtain ⟨own, holds, -⟩ := (failed_calls_change_nothing.1 _ _ _ _ rfl timed).2 rfl
    exact ⟨model, own, timed, holds⟩
  · have refused : ∃ m, call 0 (.instruction loadingAddition) oneMismatched =
        .ok (.refused (.infoMismatch 0 .read .write)) m := ⟨_, rfl⟩
    obtain ⟨m, refused⟩ := refused
    exact ⟨m, refused, failed_calls_change_nothing.2.1 _ _ _ _ _ refused rfl⟩

end Machine

end CoreTiming
