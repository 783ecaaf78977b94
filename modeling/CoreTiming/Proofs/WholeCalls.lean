import CoreTiming.Proofs.Agreement

/-!
# Calls are series of actions

`Machine.call` runs a call until it has returned or waits in the barrier, and `Machine.resume` goes on with it.  Seen
from `Traffic`, where other calls and events may come in between, these are the series in which nothing comes in: the
call begins, and goes on as often as it can.
-/

namespace CoreTiming

open Faulting

/-! ## Section 1: Going on -/

/-- How far a call has come once the machine is through with it: one that waits is inside. -/
def Progress.stage (draining : Bool) : Progress → CallStage
  | .waiting => .inside draining
  | .refused _ | .completed _ => .idle

namespace Traffic

variable {M : Type} [MemorySystem M] {m m₁ : Machine M} {i : Nat} {w : Windowed} {stage stage₁ : CallStage}
  {draining : Bool} {stages : Nat → CallStage} {f : Fault}
  {r : EStateM.Result Fault (Machine M) Progress}

/-- The traffic in which the call on model `i` has ended or has to wait. -/
def settle (i : Nat) (draining : Bool) (stages : Nat → CallStage) :
    EStateM.Result Fault (Machine M) Progress → Traffic M
  | .ok p m => { machine := m, stages := Function.update stages i (p.stage draining) }
  | .error _ m => { machine := m.abandon i, stages := Function.update stages i .idle }

/-- To go on with the call on model `i`, from `stage` and as often as it takes, ends in `r`. -/
def Carries (i : Nat) (draining : Bool) (stage : CallStage) (m : Machine M)
    (r : EStateM.Result Fault (Machine M) Progress) : Prop :=
  ∀ stages : Nat → CallStage, ∃ n,
    (List.replicate n (Action.goOn i)).foldl after { machine := m, stages := Function.update stages i stage } =
      settle i draining stages r

/-- Nothing is left to do. -/
theorem carries_settled (p : Progress) (m : Machine M) : Carries i draining (p.stage draining) m (.ok p m) :=
  fun _ => ⟨0, rfl⟩

theorem Carries.of_proceed (stage₁ : CallStage) (found : m.models[i]? = some (.windowed w))
    (ran : Machine.proceed i w stage m = .ok stage₁ m₁) (rest : Carries i draining stage₁ m₁ r) :
    Carries i draining stage m r := by
  intro stages
  obtain ⟨n, reached⟩ := rest stages
  refine ⟨n + 1, ?_⟩
  rw [← reached, List.replicate_succ, List.foldl_cons]
  congr 1
  simp [after, turn, found, ran]

theorem Carries.of_stopped (found : m.models[i]? = some (.windowed w))
    (ran : Machine.proceed i w stage m = .error f m₁) : Carries i draining stage m (.error f m₁) := by
  intro stages
  refine ⟨1, ?_⟩
  simp [after, turn, found, ran, settle]

end Traffic

/-! ## Section 2: Operations on a group in turn -/

namespace Machine

variable {M α β : Type} [MemorySystem M] {m m₁ : Machine M} {master i : Nat} {w : Windowed} {a : α} {draining : Bool}

omit [MemorySystem M] in
theorem setSession_of_found {s : Session (Window M)} (h : m.session? master = some s) :
    m.setSession master s = m := by
  obtain ⟨k, g, found, at_k, rfl⟩ := exists_of_session? h
  unfold setSession
  rw [found]
  dsimp only
  congr 1
  apply Array.ext_getElem?
  intro n
  rw [Array.getElem?_modify]
  split
  · rename_i same
    rw [← same, at_k]
    rfl
  · rfl

theorem models_onGroup {x : Faulting (Session (Window M)) α} (h : onGroup master x m = .ok a m₁) :
    m₁.models = m.models := by
  cases found : m.session? master with
  | none =>
    rw [onGroup_of_none found] at h
    cases h
  | some s =>
    rw [onGroup_of_session found] at h
    cases inner : x s with
    | ok b s' =>
      simp only [inner] at h
      cases h
      exact models_setSession ..
    | error f s' =>
      simp only [inner] at h
      cases h

/-- Two operations on one group in turn are one. -/
theorem onGroup_bind (master : Nat) (x : Faulting (Session (Window M)) α)
    (next : α → Faulting (Session (Window M)) β) :
    onGroup master (x >>= next) = onGroup master x >>= fun a => onGroup master (next a) := by
  funext m
  show onGroup master (x >>= next) m = EStateM.bind _ _ m
  unfold EStateM.bind
  cases found : m.session? master with
  | none => simp only [onGroup_of_none found]
  | some s =>
    simp only [onGroup_of_session found]
    have both : (x >>= next) s = EStateM.bind x next s := rfl
    rw [both]
    unfold EStateM.bind
    cases x s with
    | error f s' => rfl
    | ok a s' =>
      simp only [onGroup_of_session (session?_setSession_self found)]
      cases next a s' with
      | ok b s'' => simp only [setSession_setSession]
      | error f s'' => simp only [setSession_setSession]

/-- An operation on a group that looks at the session first. -/
theorem onGroup_get_bind {s : Session (Window M)} (h : m.session? master = some s)
    (next : Session (Window M) → Faulting (Session (Window M)) α) :
    onGroup master (get >>= next) m = onGroup master (next s) m := by
  rw [onGroup_of_session h, onGroup_of_session h, get_bind]

theorem onGroup_pure {s : Session (Window M)} (h : m.session? master = some s) (a : α) :
    onGroup master (pure a) m = .ok a m := by
  rw [onGroup_of_session h]
  show EStateM.Result.ok a (m.setSession master s) = _
  rw [setSession_of_found h]

/-- No operation on a group takes it away. -/
theorem session_onGroup {x : Faulting (Session (Window M)) α} (there : (m.session? master).isSome)
    (h : onGroup master x m = .ok a m₁) : (m₁.session? master).isSome := by
  obtain ⟨s, found⟩ := Option.isSome_iff_exists.mp there
  rw [onGroup_of_session found] at h
  cases inner : x s with
  | ok b s' =>
    simp only [inner] at h
    cases h
    rw [session?_setSession_self found]
    rfl
  | error f s' =>
    simp only [inner] at h
    cases h

end Machine

/-! ## Section 3: Whole calls -/

namespace Traffic

open Machine

variable {M : Type} [MemorySystem M] {m m₁ : Machine M} {i : Nat} {w : Windowed} {draining : Bool}

/-- What is left of a drained slot is collected, and added. -/
theorem carries_collect (found : m.models[i]? = some (.windowed w)) :
    Carries i draining .drained m ((do collect i w; pure (Progress.completed true)) m) := by
  cases told : onBarrier w.master (Barrier.returnLatency w.slot) m with
  | error f m₁ =>
    have stopped : collect i w m = .error f m₁ := bind_of_error told
    rw [bind_of_error stopped]
    exact .of_stopped found (bind_of_error told)
  | ok answer m₁ =>
    obtain ⟨n, t⟩ := answer
    have found₁ : m₁.models[i]? = some (.windowed w) := by
      rw [models_onGroup told]
      exact found
    have added := modifyState_of_found found₁ (·.elapse n t)
    have collected : collect i w m = .ok () (m₁.setModel i (.windowed { w with state := w.state.elapse n t })) :=
      (bind_of_ok told).trans added
    rw [bind_of_ok collected]
    refine .of_proceed (.told n t true) found (bind_of_ok told) ?_
    refine .of_proceed .idle found₁ (bind_of_ok added) ?_
    exact carries_settled (.completed true) _

/-- The window hears of the model's time. -/
theorem carries_notify (found : m.models[i]? = some (.windowed w)) :
    Carries i draining .moved m ((do
      onBarrier w.master (Barrier.synchronize w.slot w.state.clock.now)
      pure (Progress.completed true)) m) := by
  cases ran : onBarrier w.master (Barrier.synchronize w.slot w.state.clock.now) m with
  | error f m₁ =>
    rw [bind_of_error ran]
    exact .of_stopped found (bind_of_error ran)
  | ok a m₁ =>
    rw [bind_of_ok ran]
    exact .of_proceed .idle found (bind_of_ok ran) (carries_settled (.completed true) m₁)

/-- The end of a turn of the host thread. -/
theorem carries_progress (found : m.models[i]? = some (.windowed w)) :
    Carries i draining (m.stageOf w draining) m (progress i w draining m) := by
  unfold stageOf progress
  rw [get_bind]
  split
  · cases draining with
    | true => exact carries_collect found
    | false => exact carries_settled (.completed true) m
  · exact carries_settled .waiting m

/-- The host thread runs while it holds the lock. -/
theorem carries_runLoop (found : m.models[i]? = some (.windowed w)) (there : (m.session? w.master).isSome)
    (n : Nat) :
    Carries i draining (m.stageOf w draining) m
      ((do onGroup w.master (Session.runLoop w.slot n); progress i w draining) m) := by
  -- one action for each round of the loop
  induction n generalizing m with
  | zero =>
    obtain ⟨s, session⟩ := Option.isSome_iff_exists.mp there
    rw [bind_of_ok (x := onGroup w.master (Session.runLoop w.slot 0)) (onGroup_pure session ())]
    exact carries_progress found
  | succ n ih =>
    obtain ⟨s, session⟩ := Option.isSome_iff_exists.mp there
    have host : m.hostOf w = s.host w.slot := by
      unfold hostOf
      rw [session]
    have loop : onGroup w.master (Session.runLoop w.slot (n + 1)) m = onGroup w.master
        (if s.host w.slot = .looping then (do Session.step w.slot; Session.runLoop w.slot n) else pure ()) m :=
      onGroup_get_bind session _
    by_cases looping : s.host w.slot = .looping
    · -- the stage is inside, and to go on runs one section
      have inside : m.stageOf w draining = .inside draining := by
        unfold stageOf
        rw [host, looping, if_neg (by decide)]
      rw [if_pos looping, onGroup_bind] at loop
      rw [inside]
      cases first : onGroup w.master (Session.step w.slot) m with
      | error f m₁ =>
        rw [bind_of_error (loop.trans (bind_of_error first))]
        exact .of_stopped found (bind_of_error first)
      | ok a m₁ =>
        have found₁ : m₁.models[i]? = some (.windowed w) := by
          rw [models_onGroup first]
          exact found
        have rest := ih found₁ (session_onGroup there first)
        have same : (do onGroup w.master (Session.runLoop w.slot (n + 1)); progress i w draining) m =
            (do onGroup w.master (Session.runLoop w.slot n); progress i w draining) m₁ := by
          cases onwards : onGroup w.master (Session.runLoop w.slot n) m₁ with
          | ok b m₂ =>
            rw [bind_of_ok onwards, bind_of_ok (loop.trans ((bind_of_ok first).trans onwards))]
          | error f m₂ =>
            rw [bind_of_error onwards, bind_of_error (loop.trans ((bind_of_ok first).trans onwards))]
        rw [same]
        exact .of_proceed _ found (bind_of_ok first) rest
    · rw [if_neg looping] at loop
      rw [bind_of_ok (loop.trans (onGroup_pure session ()))]
      exact carries_progress found

/-- A section of the host thread, after which it runs while it holds the lock. -/
theorem carries_section {x : Faulting (Session (Window M)) Unit} {stage : CallStage} (n : Nat)
    (found : m.models[i]? = some (.windowed w)) (there : (m.session? w.master).isSome)
    (part : proceed i w stage = do onGroup w.master x; pure ((← get).stageOf w draining)) :
    Carries i draining stage m
      ((do onGroup w.master (do x; Session.runLoop w.slot n); progress i w draining) m) := by
  rw [onGroup_bind, bind_assoc]
  cases first : onGroup w.master x m with
  | error f m₁ =>
    rw [bind_of_error first]
    refine .of_stopped found ?_
    rw [part]
    exact bind_of_error first
  | ok a m₁ =>
    have found₁ : m₁.models[i]? = some (.windowed w) := by
      rw [models_onGroup first]
      exact found
    rw [bind_of_ok first]
    refine .of_proceed _ found ?_ (carries_runLoop found₁ (session_onGroup there first) n)
    rw [part]
    exact bind_of_ok first

/-- The window is let advance. -/
theorem carries_simulate (found : m.models[i]? = some (.windowed w)) (there : (m.session? w.master).isSome) :
    Carries i false .handed m (simulate i w m) :=
  carries_section Session.maxRounds found there rfl

/-- A host thread that was woken goes on. -/
theorem carries_resume (found : m.models[i]? = some (.windowed w)) (there : (m.session? w.master).isSome) :
    Carries i (m.hostOf w == .parked true) (.inside (m.hostOf w == .parked true)) m (resume i m) := by
  have resumed : resume i m = (do
      onGroup w.master (Session.resume w.slot)
      progress i w (m.hostOf w == Host.parked true)) m := by
    unfold resume
    rw [get_bind, model_of_found found]
    rfl
  rw [resumed]
  exact carries_section (x := Session.step w.slot) Session.maxRounds found there rfl

variable {s : Traffic M}

/-- A call that begins and then goes on as often as it takes. -/
theorem exists_actions_of_begin {call : ModelCall} (stage : CallStage)
    {r : EStateM.Result Fault (Machine M) Progress} (idle : s.stages i = .idle)
    (found : s.machine.models[i]? = some (.windowed w)) (ran : Machine.begin i w call s.machine = .ok stage m)
    (rest : Carries i draining stage m r) :
    ∃ n, (Action.begin i call :: List.replicate n (.goOn i)).foldl after s = settle i draining s.stages r := by
  obtain ⟨n, reached⟩ := rest s.stages
  refine ⟨n, ?_⟩
  rw [← reached, List.foldl_cons]
  congr 1
  simp [after, turn, idle, found, ran]

/-- Likewise, if it is stopped at once. -/
theorem exists_actions_of_stopped {call : ModelCall} {f : Fault} (idle : s.stages i = .idle)
    (found : s.machine.models[i]? = some (.windowed w)) (ran : Machine.begin i w call s.machine = .error f m) :
    ∃ n, (Action.begin i call :: List.replicate n (.goOn i)).foldl after s =
      settle i draining s.stages (.error f m) := by
  refine ⟨0, ?_⟩
  simp [after, turn, idle, found, ran, settle]

/-- An instruction begins with being cracked, and with what it is cracked into being handed over. -/
theorem begin_instruction (enabled : w.state.enabled = true) (u : InstrInstance) :
    (begin i w (.instruction u) : Faulting (Machine M) CallStage) = (do
      match ← Faulting.ofExcept (w.state.crack u) with
      | .error _ => pure .idle
      | .ok (ops, state) =>
        modifyState i fun _ => state
        let (n, t) ← onBarrier w.master (Barrier.push w.slot ops)
        pure (.told n t false)) := by
  unfold begin
  rw [enabled]
  rfl

/-- Once the instruction is cracked, what it is cracked into is handed over, what is told is added, and the window may
advance. -/
theorem exists_actions_of_cracked (idle : s.stages i = .idle) (found : s.machine.models[i]? = some (.windowed w))
    (there : (s.machine.session? w.master).isSome) (enabled : w.state.enabled = true) {u : InstrInstance}
    {ops : List OpInstance} {state : ModelState} (cracked : w.state.crack u = .ok (.ok (ops, state))) :
    ∃ n, (Action.begin i (.instruction u) :: List.replicate n (.goOn i)).foldl after s =
      settle i false s.stages (timeWindowed i w u s.machine) := by
  have begins := begin_instruction (M := M) (i := i) enabled u
  rw [cracked] at begins
  have taken := modifyState_of_found found fun _ => state
  have there₁ : ((s.machine.setModel i (.windowed { w with state })).session? w.master).isSome := there
  have found₁ :
      (s.machine.setModel i (.windowed { w with state })).models[i]? = some (.windowed { w with state }) :=
    getElem?_setModel_self found
  cases pushed : onBarrier w.master (Barrier.push w.slot ops) (s.machine.setModel i (.windowed { w with state })) with
  | error f m =>
    have called : timeWindowed i w u s.machine = .error f m := by
      unfold timeWindowed
      rw [cracked]
      exact (bind_of_ok taken).trans (bind_of_error pushed)
    have begun : begin i w (.instruction u) s.machine = .error f m := by
      rw [begins]
      exact (bind_of_ok taken).trans (bind_of_error pushed)
    rw [called]
    exact exists_actions_of_stopped idle found begun
  | ok told m =>
    obtain ⟨n, t⟩ := told
    have begun : begin i w (.instruction u) s.machine = .ok (.told n t false) m := by
      rw [begins]
      exact (bind_of_ok taken).trans (bind_of_ok pushed)
    have found₂ : m.models[i]? = some (.windowed { w with state }) := by
      rw [models_onGroup pushed]
      exact found₁
    have added := modifyState_of_found found₂ (·.elapse n t)
    have called : timeWindowed i w u s.machine =
        simulate i w (m.setModel i (.windowed { w with state := state.elapse n t })) := by
      unfold timeWindowed
      rw [cracked]
      exact (bind_of_ok taken).trans ((bind_of_ok pushed).trans (bind_of_ok added))
    have there₂ : (m.session? w.master).isSome := session_onGroup there₁ pushed
    rw [called]
    refine exists_actions_of_begin _ idle found begun (.of_proceed .handed found₂ (bind_of_ok added) ?_)
    exact carries_simulate (w := { w with state := state.elapse n t }) (getElem?_setModel_self found₂) there₂

/-- An instruction stops or is refused when it is cracked, or it is timed. -/
theorem exists_actions_of_timeWindowed (idle : s.stages i = .idle)
    (found : s.machine.models[i]? = some (.windowed w)) (there : (s.machine.session? w.master).isSome)
    (enabled : w.state.enabled = true) (u : InstrInstance) :
    ∃ n, (Action.begin i (.instruction u) :: List.replicate n (.goOn i)).foldl after s =
      settle i false s.stages (timeWindowed i w u s.machine) := by
  have begins := begin_instruction (M := M) (i := i) enabled u
  cases cracked : w.state.crack u with
  | error f =>
    rw [cracked] at begins
    have called : timeWindowed i w u s.machine = .error f s.machine := by
      unfold timeWindowed
      rw [cracked]
      rfl
    rw [called]
    exact exists_actions_of_stopped idle found (by rw [begins]; rfl)
  | ok answer =>
    cases answer with
    | error e =>
      rw [cracked] at begins
      have called : timeWindowed i w u s.machine = .ok (.refused e) s.machine := by
        unfold timeWindowed
        rw [cracked]
        rfl
      rw [called]
      exact exists_actions_of_begin .idle idle found (by rw [begins]; rfl) (carries_settled (.refused e) _)
    | ok made => exact exists_actions_of_cracked idle found there enabled cracked

/-- A call of one section, after which nothing is left to do. -/
theorem exists_actions_of_once {α : Type} {c : ModelCall} {x : Faulting (Machine M) α} (idle : s.stages i = .idle)
    (found : s.machine.models[i]? = some (.windowed w))
    (begins : (do let _ ← x; pure CallStage.idle) s.machine = Machine.begin i w c s.machine)
    (calls : Machine.call i c s.machine = (do let _ ← x; pure (Progress.completed true)) s.machine) :
    ∃ n, (Action.begin i c :: List.replicate n (.goOn i)).foldl after s =
      settle i draining s.stages (Machine.call i c s.machine) := by
  rw [calls]
  cases ran : x s.machine with
  | error f m =>
    rw [bind_of_error ran] at begins ⊢
    exact exists_actions_of_stopped idle found begins.symm
  | ok a m =>
    rw [bind_of_ok ran] at begins ⊢
    exact exists_actions_of_begin .idle idle found begins.symm (carries_settled (.completed true) m)

/-- The slot is drained in the loop of its host thread. -/
theorem exists_actions_of_finish (idle : s.stages i = .idle) (found : s.machine.models[i]? = some (.windowed w))
    (there : (s.machine.session? w.master).isSome) :
    ∃ n, (Action.begin i .finish :: List.replicate n (.goOn i)).foldl after s =
      settle i true s.stages (finishWindowed i w s.machine) := by
  have drains : finishWindowed i w s.machine = (do
      onGroup w.master (Session.start w.slot .finish)
      onGroup w.master (Session.runLoop w.slot Session.maxRounds)
      progress i w true) s.machine := by
    unfold finishWindowed Session.call
    rw [onGroup_bind, bind_assoc]
  rw [drains]
  cases first : onGroup w.master (Session.start w.slot .finish) s.machine with
  | error f m =>
    rw [bind_of_error first]
    exact exists_actions_of_stopped idle found (bind_of_error first)
  | ok a m =>
    have found₁ : m.models[i]? = some (.windowed w) := by
      rw [models_onGroup first]
      exact found
    rw [bind_of_ok first]
    exact exists_actions_of_begin _ idle found (bind_of_ok first)
      (carries_runLoop found₁ (session_onGroup there first) _)

/-- Every call on a model that shares a window, but for one that only moves its clock, is a series of actions. -/
theorem exists_actions_of_call (idle : s.stages i = .idle) (found : s.machine.models[i]? = some (.windowed w))
    (there : (s.machine.session? w.master).isSome) {call : ModelCall} (heard : ∀ t, call ≠ .setTime t) :
    ∃ n, (Action.begin i call :: List.replicate n (.goOn i)).foldl after s =
      settle i (call == .finish) s.stages (Machine.call i call s.machine) := by
  cases call with
  | setTime t => exact absurd rfl (heard t)
  | instruction u =>
    rw [call_instruction found]
    cases enabled : w.state.enabled with
    | false =>
      refine exists_actions_of_begin .idle idle found ?_ (carries_settled (.completed true) _)
      simp only [begin, enabled, Bool.not_false, if_true]
      rfl
    | true => exact exists_actions_of_timeWindowed idle found there enabled u
  | info info =>
    have pushed := modifyState_of_found found (·.pushInfo info)
    refine exists_actions_of_once (x := modifyState i (·.pushInfo info)) idle found rfl ?_
    rw [call_info found, bind_of_ok pushed]
    rfl
  | enable => exact exists_actions_of_once idle found rfl (call_enable found)
  | disable => exact exists_actions_of_once idle found rfl (call_disable found)
  | synchronize =>
    rw [call_synchronize found]
    exact exists_actions_of_begin .handed idle found rfl (carries_simulate found there)
  | notify =>
    rw [call_notify found]
    exact exists_actions_of_begin .moved idle found rfl (carries_notify found)
  | finish =>
    rw [call_finish found]
    exact exists_actions_of_finish idle found there

/-- So is one that moves its clock, together with the notice to the window that follows it. -/
theorem exists_actions_of_setTime (idle : s.stages i = .idle) (found : s.machine.models[i]? = some (.windowed w))
    (t : Time) :
    ∃ n, (Action.begin i (.setTime t) :: List.replicate n (.goOn i)).foldl after s =
      settle i false s.stages ((do let _ ← Machine.call i (.setTime t); Machine.call i .notify) s.machine) := by
  have moved := modifyState_of_found found (·.setTime t)
  have set : Machine.call i (.setTime t) s.machine =
      .ok (.completed true) (s.machine.setModel i (.windowed { w with state := w.state.setTime t })) := by
    unfold Machine.call
    rw [get_bind, model_of_found found]
    show ((onModel i (do set (← Faulting.ofExcept (Model.setTime t (← get))))) *> pure _ :
      Faulting (Machine M) Progress) s.machine = _
    rw [seqRight_eq_bind]
    exact bind_of_ok ((onModel_of_found found _).trans rfl)
  have found₁ : (s.machine.setModel i (.windowed { w with state := w.state.setTime t })).models[i]? =
      some (.windowed { w with state := w.state.setTime t }) := getElem?_setModel_self found
  rw [bind_of_ok set, call_notify found₁]
  exact exists_actions_of_begin .moved idle found (bind_of_ok moved) (carries_notify found₁)

end Traffic

end CoreTiming
