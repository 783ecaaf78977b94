import CoreTiming.Proofs.Machines
import CoreTiming.Proofs.Sharing
import Mathlib.Logic.Function.Basic

/-!
# Traffic on the models of a machine

Each model that shares a window is called by a host thread of its own, and the calls of different models go on side
by side: in front of every place where a call takes the lock of its barrier, the calls of others and the events of
application threads may come in.  `Traffic` is a machine with, for each of its models, the place that the call on it
has reached (`CallStage`), and an `Action` carries one call across one such place, or is something that happens beside
all calls.

What becomes of the threads of a machine is said twice: `Machine.Undisturbed`, where none of them is told anything,
and `Machine.Changes`, where one of them is.
-/

namespace CoreTiming

open Faulting

/-! ## Section 1: Calls in stages -/

/-- How far a call on a model has come. -/
inductive CallStage
  /-- No call is in progress. -/
  | idle
  /-- The model's clock has been moved, and the window is not told yet. -/
  | moved
  /-- The model has been told of instructions and of time that it has not added yet. -/
  | told (instructions : Nat) (latency : Time) (draining : Bool)
  /-- The micro-ops of an instruction are handed over, and the window may advance. -/
  | handed
  /-- The host thread is in a call on the barrier. -/
  | inside (draining : Bool)
  /-- The slot is drained, and what is left is to be collected. -/
  | drained
  deriving DecidableEq

namespace Machine

variable {M : Type} [MemorySystem M]

/-- The stage of a call whose host thread has run a section. -/
def stageOf (m : Machine M) (w : Windowed) (draining : Bool) : CallStage :=
  if m.hostOf w = .outside then (if draining then .drained else .idle) else .inside draining

/-- The beginning of a call on model `i`, which is `w`. -/
def begin (i : Nat) (w : Windowed) : ModelCall → Faulting (Machine M) CallStage
  | .instruction u => do
    if !w.state.enabled then pure .idle
    else
      match ← Faulting.ofExcept (w.state.crack u) with
      | .error _ => pure .idle
      | .ok (ops, state) =>
        modifyState i fun _ => state
        let (n, t) ← onBarrier w.master (Barrier.push w.slot ops)
        pure (.told n t false)
  | .info info => do
    modifyState i (·.pushInfo info)
    pure .idle
  | .setTime t => do
    modifyState i (·.setTime t)
    pure .moved
  | .enable => do
    setEnabled i (some w) true
    pure .idle
  | .disable => do
    setEnabled i (some w) false
    pure .idle
  | .synchronize => pure .handed
  | .notify => pure .moved
  | .finish => do
    onGroup w.master (Session.start w.slot .finish)
    pure ((← get).stageOf w true)

/-- The next part of the call on model `i`, which is `w`. -/
def proceed (i : Nat) (w : Windowed) : CallStage → Faulting (Machine M) CallStage
  | .idle => pure .idle
  | .moved => do
    onBarrier w.master (Barrier.synchronize w.slot w.state.clock.now)
    pure .idle
  | .told n t draining => do
    modifyState i (·.elapse n t)
    pure (if draining then .idle else .handed)
  | .handed => do
    onGroup w.master (Session.start w.slot .simulate)
    pure ((← get).stageOf w false)
  | .inside draining => do
    onGroup w.master (Session.step w.slot)
    pure ((← get).stageOf w draining)
  | .drained => do
    let (n, t) ← onBarrier w.master (Barrier.returnLatency w.slot)
    pure (.told n t true)

end Machine

/-- A machine and the calls on its models. -/
structure Traffic (M : Type) where
  /-- The machine. -/
  machine : Machine M := {}
  /-- How far the call on each model has come. -/
  stages : Nat → CallStage := fun _ => .idle

namespace Traffic

/-- What happens to a machine between two places where a lock changes hands. -/
inductive Action (M : Type)
  /-- A model is added. -/
  | attach (config : Config) (core : Nat) (app : Option Nat) (memory : M)
  /-- A slot gets a client, which synchronizes across cores when the slot has driven its window. -/
  | connect (master slot : Nat)
  /-- Something happens to an application thread, or to a barrier as a whole. -/
  | handle (master : Nat) (event : Barrier.Event)
  /-- A call on model `i` begins, if none is in progress. -/
  | begin (i : Nat) (call : ModelCall)
  /-- The call on model `i` goes on, if one is in progress. -/
  | goOn (i : Nat)

variable {M : Type} [MemorySystem M]

/-- What an operation leaves of a machine, whether it goes through or is stopped. -/
def left {α : Type} (x : Faulting (Machine M) α) (m : Machine M) : Machine M :=
  match x m with
  | .ok _ m' | .error _ m' => m'

/-- A part of the call on model `i`.  A call that is stopped is given up. -/
def turn (s : Traffic M) (i : Nat) (part : Windowed → Faulting (Machine M) CallStage) : Traffic M :=
  match s.machine.models[i]? with
  | some (.windowed w) =>
    match part w s.machine with
    | .ok stage m => { machine := m, stages := Function.update s.stages i stage }
    | .error _ m => { machine := m.abandon i, stages := Function.update s.stages i .idle }
  | _ => s

/-- The machine and its calls after an action. -/
def after (s : Traffic M) : Action M → Traffic M
  | .attach config core app memory => { s with machine := left (Machine.attach config core app memory) s.machine }
  | .connect master slot =>
    { s with
      machine := left (Machine.onBarrier master
        (modify (Barrier.modifySlot slot fun x => { x with hasClient := true }))) s.machine }
  | .handle master event => { s with machine := left (Machine.onBarrier master (Barrier.handle event)) s.machine }
  | .begin i call => if s.stages i = .idle then s.turn i fun w => Machine.begin i w call else s
  | .goOn i => s.turn i fun w => Machine.proceed i w (s.stages i)

/-- What a series of actions makes of an empty machine. -/
def of (actions : List (Action M)) : Traffic M := actions.foldl after {}

end Traffic

/-! ## Section 2: Threads of a machine -/

namespace Session

variable {M α : Type} [MemorySystem M]

instance {E : Type} {R : E → E → Prop} [Std.Refl R] :
    Std.Refl fun s s' : Session E => R s.barrier.engine s'.barrier.engine := ⟨fun _ => Std.Refl.refl _⟩

instance {E : Type} {R : E → E → Prop} [IsTrans E R] :
    IsTrans (Session E) fun s s' => R s.barrier.engine s'.barrier.engine :=
  ⟨fun _ _ _ h h' => IsTrans.trans _ _ _ h h'⟩

/-- The operation on a session does not disturb the threads behind it. -/
abbrev KeepsThreads (x : Faulting (Session (Window M)) α) : Prop :=
  Keeps (fun s s' => s.barrier.engine.Undisturbed s'.barrier.engine) (fun _ => True) x

theorem keepsThreads_onBarrier {x : Faulting (Barrier (Window M)) α} {F : Fault → Prop}
    (h : Barrier.KeepsEngine Window.Undisturbed F x) : KeepsThreads (onBarrier x) :=
  (h.mono fun _ _ => trivial).zoom fun _ _ kept => kept

theorem keepsThreads_start (t : Nat) (call : Barrier.HostCall) :
    KeepsThreads (M := M) (Session.start t call) := by
  unfold Session.start
  refine Keeps.bind (keepsThreads_onBarrier (Barrier.keepsEngine_begin (Window.respects_undisturbed M) t call))
    fun h => keeps_modify fun s => ?_
  exact Std.Refl.refl s.barrier.engine

theorem keepsThreads_step (t : Nat) : KeepsThreads (M := M) (Session.step t) := by
  unfold Session.step
  refine keeps_get.bind fun s => ?_
  refine Keeps.bind (keepsThreads_onBarrier (Barrier.keepsEngine_proceed (Window.respects_undisturbed M) t _))
    fun h => keeps_modify fun s => ?_
  exact Std.Refl.refl s.barrier.engine

theorem keepsThreads_register (core : Nat) (hasClient : Bool) (memory : M) (predictor : Option Predictor) :
    KeepsThreads (Session.register core hasClient fun t => Window.initializeThread t memory predictor) := by
  have adds : Barrier.KeepsEngine Window.Undisturbed (fun _ => True)
      (Barrier.register core hasClient fun t => Window.initializeThread t memory predictor) := by
    unfold Barrier.register
    refine keeps_get.bind fun b => ?_
    refine Keeps.bind (Barrier.keepsEngine_modify fun _ => rfl) fun _ => ?_
    refine Keeps.bind (Barrier.keepsEngine_onEngine (Window.keeps_initializeThread _ _ _)) fun _ => ?_
    refine Keeps.bind ?_ fun _ => keeps_pure _
    exact (Barrier.keepsEngine_notifyActive (Window.respects_undisturbed M)).mono fun _ _ => trivial
  unfold Session.register
  refine Keeps.bind (keepsThreads_onBarrier adds) fun t => ?_
  refine Keeps.bind (keeps_modify fun s => ?_) fun _ => keeps_pure t
  exact Std.Refl.refl s.barrier.engine

end Session

namespace Machine

variable {M α : Type} {m m' m'' : Machine M} {master slot : Nat} {P Q : Thread → Thread → Prop}

/-- The thread on a slot of the group named after `master`. -/
def thread? (m : Machine M) (master slot : Nat) : Option Thread :=
  (m.session? master).bind fun s => s.barrier.engine.lanes[slot]?.map (·.thread)

/-- The models are the same, and no thread is disturbed. -/
structure Undisturbed (m m' : Machine M) : Prop where
  /-- The models are the same. -/
  models : m'.models = m.models
  /-- Every thread has been told the same. -/
  threads : ∀ master slot th, m.thread? master slot = some th →
    ∃ th', m'.thread? master slot = some th' ∧ th.Undisturbed th'

/-- The models are the same, the thread on one slot changes as `P` says, and no other thread is disturbed. -/
structure Changes (master slot : Nat) (P : Thread → Thread → Prop) (m m' : Machine M) : Prop where
  /-- The models are the same. -/
  models : m'.models = m.models
  /-- What becomes of the one thread. -/
  here : ∀ th, m.thread? master slot = some th → ∃ th', m'.thread? master slot = some th' ∧ P th th'
  /-- What becomes of the others. -/
  others : ∀ master' slot' th, ¬(master' = master ∧ slot' = slot) → m.thread? master' slot' = some th →
    ∃ th', m'.thread? master' slot' = some th' ∧ th.Undisturbed th'

instance : Std.Refl (Undisturbed (M := M)) := ⟨fun _ => ⟨rfl, fun _ _ th found => ⟨th, found, Std.Refl.refl _⟩⟩⟩

instance : IsTrans (Machine M) Undisturbed := by
  refine ⟨fun m m' m'' h h' => ⟨h'.models.trans h.models, fun master slot th found => ?_⟩⟩
  obtain ⟨th', found', kept⟩ := h.threads master slot th found
  obtain ⟨th'', found'', kept'⟩ := h'.threads master slot th' found'
  exact ⟨th'', found'', IsTrans.trans _ _ _ kept kept'⟩

theorem Undisturbed.changes (h : m.Undisturbed m') (master slot : Nat) :
    m.Changes master slot Thread.Undisturbed m' :=
  ⟨h.models, h.threads master slot, fun master' slot' th _ => h.threads master' slot' th⟩

theorem thread?_of_session {s : Session (Window M)} (h : m.session? master = some s) (slot : Nat) :
    m.thread? master slot = s.barrier.engine.lanes[slot]?.map (·.thread) := by
  unfold thread?
  rw [h, Option.bind_some]

theorem thread?_congr (same : m'.session? master = m.session? master) (slot : Nat) :
    m'.thread? master slot = m.thread? master slot := by
  unfold thread?
  rw [same]

theorem undisturbed_setSession {s s' : Session (Window M)} (h : m.session? master = some s)
    (kept : s.barrier.engine.Undisturbed s'.barrier.engine) : m.Undisturbed (m.setSession master s') := by
  refine ⟨models_setSession .., fun master' slot th found => ?_⟩
  by_cases here : master' = master
  · subst here
    rw [thread?_of_session h] at found
    obtain ⟨l, at_slot, rfl⟩ := Option.map_eq_some_iff.mp found
    obtain ⟨l', at_slot', undisturbed⟩ := kept slot l at_slot
    refine ⟨l'.thread, ?_, undisturbed⟩
    rw [thread?_of_session (session?_setSession_self h), at_slot']
    rfl
  · exact ⟨th, (thread?_congr (session?_setSession_ne here) slot).trans found, Std.Refl.refl _⟩

theorem changes_setSession {s s' : Session (Window M)} (h : m.session? master = some s)
    (changed : s.barrier.engine.Changes slot P s'.barrier.engine) :
    m.Changes master slot P (m.setSession master s') := by
  have at_slots : ∀ j, (m.setSession master s').thread? master j = s'.barrier.engine.lanes[j]?.map (·.thread) :=
    thread?_of_session (session?_setSession_self h)
  refine ⟨models_setSession .., fun th found => ?_, fun master' slot' th other found => ?_⟩
  · rw [thread?_of_session h] at found
    obtain ⟨l, at_slot, rfl⟩ := Option.map_eq_some_iff.mp found
    obtain ⟨l', at_slot', changed⟩ := changed.here l at_slot
    exact ⟨l'.thread, by rw [at_slots, at_slot']; rfl, changed⟩
  · by_cases here : master' = master
    · subst here
      rw [thread?_of_session h] at found
      obtain ⟨l, at_slot, rfl⟩ := Option.map_eq_some_iff.mp found
      obtain ⟨l', at_slot', kept⟩ := changed.others slot' l (fun same => other ⟨rfl, same⟩) at_slot
      exact ⟨l'.thread, by rw [at_slots, at_slot']; rfl, kept⟩
    · exact ⟨th, (thread?_congr (session?_setSession_ne here) slot').trans found, Std.Refl.refl _⟩

variable [MemorySystem M]

/-- The operation on a machine changes no model and disturbs no thread. -/
abbrev KeepsThreads (x : Faulting (Machine M) α) : Prop := Keeps Undisturbed (fun _ => True) x

theorem keepsThreads_onGroup {x : Faulting (Session (Window M)) α} (h : Session.KeepsThreads x) (master : Nat) :
    KeepsThreads (onGroup master x) := by
  refine ⟨fun m a m' ran => ?_, fun m f m' ran => ⟨?_, trivial⟩⟩
  · cases found : m.session? master with
    | none =>
      rw [onGroup_of_none found] at ran
      cases ran
    | some s =>
      rw [onGroup_of_session found] at ran
      cases inner : x s with
      | ok b s' =>
        simp only [inner] at ran
        cases ran
        exact undisturbed_setSession found (h.done inner)
      | error e s' =>
        simp only [inner] at ran
        cases ran
  · cases found : m.session? master with
    | none =>
      rw [onGroup_of_none found] at ran
      cases ran
      exact Std.Refl.refl _
    | some s =>
      rw [onGroup_of_session found] at ran
      cases inner : x s with
      | ok b s' =>
        simp only [inner] at ran
        cases ran
      | error e s' =>
        simp only [inner] at ran
        cases ran
        exact undisturbed_setSession found (h.stopped inner).1

theorem keepsThreads_onBarrier {x : Faulting (Barrier (Window M)) α} {F : Fault → Prop}
    (h : Barrier.KeepsEngine Window.Undisturbed F x) (master : Nat) : KeepsThreads (onBarrier master x) :=
  keepsThreads_onGroup (Session.keepsThreads_onBarrier h) master

theorem keepsThreads_handle (master : Nat) (event : Barrier.Event) :
    KeepsThreads (M := M) (onBarrier master (Barrier.handle event)) :=
  keepsThreads_onBarrier (Barrier.keepsEngine_handle (Window.respects_undisturbed M) event) master

/-! ## Section 3: New models -/

omit [MemorySystem M] in
theorem keepsThreads_ensureGroup (config : Config) (master : Nat) :
    KeepsThreads (M := M) (ensureGroup config master) := by
  refine ⟨fun m a m' ran => ?_, fun m f m' ran => ⟨?_, trivial⟩⟩
  · unfold ensureGroup at ran
    rw [get_bind] at ran
    split at ran
    · -- a group is made only for a master that has none, so no thread of it can be lost
      rename_i missing
      obtain ⟨w, _, made, ran⟩ := bind_eq_ok.mp ran
      obtain ⟨-, rfl⟩ := ofExcept_eq_ok.mp made
      rw [← modify_eq_ok.mp ran]
      refine ⟨rfl, fun master' slot th found => ?_⟩
      have other : master' ≠ master := by
        rintro rfl
        have lost : m.session? master' = none := by
          unfold session?
          rw [Option.isNone_iff_eq_none.mp missing]
          rfl
        unfold thread? at found
        rw [lost] at found
        cases found
      refine ⟨th, ?_, Std.Refl.refl _⟩
      rw [← found]
      refine thread?_congr ?_ slot
      rw [session?_insert { master, session := { barrier := { engine := w } } }, if_neg other]
    · rw [(pure_eq_ok.mp ran).2]
      exact Std.Refl.refl _
  · unfold ensureGroup at ran
    rw [get_bind] at ran
    split at ran
    · rcases bind_eq_error.mp ran with stopped | ⟨w, _, -, ran⟩
      · cases made : Window.new (M := M) config with
        | ok w =>
          rw [made] at stopped
          cases stopped
        | error e =>
          rw [made] at stopped
          cases stopped
          exact Std.Refl.refl _
      · exact absurd ran modify_ne_error
    · exact absurd ran pure_ne_error

/-- The second half of joining a group: the application thread is bound to its slot and started. -/
theorem keepsThreads_bind (core app master : Nat) :
    KeepsThreads (M := M) (onBarrier master do
      let _ ← Barrier.bind core app
      Barrier.handle (.start app)) := by
  refine keepsThreads_onBarrier (F := Window.Stops M) (Keeps.bind ?_ fun _ => ?_) master
  · unfold Barrier.bind
    refine keeps_get.bind fun b => ?_
    split
    · exact Keeps.bind (Barrier.keepsEngine_modify fun _ => rfl) fun _ => keeps_pure _
    · exact keeps_pure _
  · exact Barrier.keepsEngine_handle (Window.respects_undisturbed M) _

theorem keepsThreads_joinGroup (config : Config) (core : Nat) (app : Option Nat) (memory : M) :
    KeepsThreads (joinGroup config core app memory) := by
  unfold joinGroup
  refine (keeps_ofExcept fun _ _ => trivial).bind fun predictor => ?_
  refine (keepsThreads_ensureGroup config _).bind fun _ => ?_
  refine (keepsThreads_onGroup (Session.keepsThreads_register core false memory predictor) _).bind fun slot => ?_
  cases app with
  | none => exact keeps_pure _
  | some app => exact (keepsThreads_bind core app _).bind fun _ => keeps_pure _

/-- The slot that a core gets is new, and its thread has been told nothing. -/
theorem joinGroup_fresh {config : Config} {core : Nat} {app : Option Nat} {memory : M}
    (h : joinGroup config core app memory m = .ok (master, slot) m') :
    m.thread? master slot = none ∧ ∃ th, m'.thread? master slot = some th ∧ th.now = 0 ∧ th.reported = 0 := by
  unfold joinGroup at h
  obtain ⟨predictor, _, made, h⟩ := bind_eq_ok.mp h
  obtain ⟨-, rfl⟩ := ofExcept_eq_ok.mp made
  obtain ⟨⟨⟩, m₁, ensured, h⟩ := bind_eq_ok.mp h
  obtain ⟨t, m₂, registered, h⟩ := bind_eq_ok.mp h
  have first := (keepsThreads_ensureGroup config _).done ensured
  -- binding the application thread disturbs nobody, and the slot is the one that was registered
  obtain ⟨rfl, rfl, later⟩ : masterCore core config.core.smtThreads = master ∧ t = slot ∧ m₂.Undisturbed m' := by
    cases app with
    | none =>
      obtain ⟨same, rfl⟩ := pure_eq_ok.mp h
      exact ⟨congrArg Prod.fst same, congrArg Prod.snd same, Std.Refl.refl _⟩
    | some app =>
      obtain ⟨⟨⟩, m₃, bound, h⟩ := bind_eq_ok.mp h
      obtain ⟨same, rfl⟩ := pure_eq_ok.mp h
      exact ⟨congrArg Prod.fst same, congrArg Prod.snd same, (keepsThreads_bind core app _).done bound⟩
  cases found : m₁.session? (masterCore core config.core.smtThreads) with
  | none =>
    rw [onGroup_of_none found] at registered
    cases registered
  | some s =>
    rw [onGroup_of_session found] at registered
    cases inner : Session.register core false (fun t => Window.initializeThread t memory predictor) s with
    | error e s' =>
      simp only [inner] at registered
      cases registered
    | ok t' s' =>
      simp only [inner] at registered
      cases registered
      unfold Session.register at inner
      obtain ⟨t', s₁, added, inner⟩ := bind_eq_ok.mp inner
      rw [modify_bind] at inner
      obtain ⟨rfl, rfl⟩ := pure_eq_ok.mp inner
      obtain ⟨b, taken, rfl⟩ := Session.onBarrier_eq_ok.mp added
      obtain ⟨free, l, at_slot, now, reported⟩ := Barrier.register_fresh taken
      constructor
      · -- a thread that had been there would be there still
        cases before : m.thread? (masterCore core config.core.smtThreads) t' with
        | none => rfl
        | some th =>
          obtain ⟨th', after, -⟩ := first.threads _ _ th before
          rw [thread?_of_session found, free] at after
          cases after
      · have there : (m₁.setSession (masterCore core config.core.smtThreads)
            { barrier := b, hosts := s.hosts.push .outside }).thread? (masterCore core config.core.smtThreads) t' =
              some l.thread := by
          rw [thread?_of_session (session?_setSession_self found), at_slot]
          rfl
        obtain ⟨th, after, kept⟩ := later.threads _ _ _ there
        exact ⟨th, after, kept.now.trans now, kept.reported.trans reported⟩

/-- The model that a core gets, before it is added to the machine. -/
def build (config : Config) (core : Nat) (app : Option Nat) (memory : M) (period : Period) :
    Faulting (Machine M) (Model M) :=
  let costs := config.core.instructionCosts
  match config.core.model with
  | .simple => pure (.simple (.new period costs))
  | .magic => pure (.magic (.new period costs))
  | .iocoom => pure (.inOrder (.new period costs config.inOrder memory))
  | .robSmt => do
    let (master, slot) ← joinGroup config core app memory
    pure (.windowed { state := .new period costs, master, slot })

theorem attach_eq (config : Config) (core : Nat) (app : Option Nat) (memory : M) :
    attach config core app memory = (do
      let period ← Faulting.ofExcept config.period
      let model ← build config core app memory period
      modify fun m => { m with models := m.models.push model }) := by
  unfold attach build
  refine bind_congr fun period => ?_
  cases config.core.model with
  | simple | magic | iocoom => rfl
  | robSmt =>
    dsimp only
    rw [bind_assoc]

theorem keepsThreads_build (config : Config) (core : Nat) (app : Option Nat) (memory : M) (period : Period) :
    KeepsThreads (build config core app memory period) := by
  unfold build
  cases config.core.model with
  | simple | magic | iocoom => exact keeps_pure _
  | robSmt => exact (keepsThreads_joinGroup config core app memory).bind fun _ => keeps_pure _

/-- A new share in a window starts at time zero, with a slot that nobody has had. -/
theorem build_fresh {config : Config} {core : Nat} {app : Option Nat} {memory : M} {period : Period}
    {w : Windowed} (h : build config core app memory period m = .ok (.windowed w) m') :
    w.state.clock.now = 0 ∧ w.state.instructions = 0 ∧ m.thread? w.master w.slot = none ∧
      ∃ th, m'.thread? w.master w.slot = some th ∧ th.now = 0 ∧ th.reported = 0 := by
  unfold build at h
  cases kind : config.core.model with
  | simple | magic | iocoom =>
    simp only [kind] at h
    cases h
  | robSmt =>
    simp only [kind] at h
    obtain ⟨⟨master, slot⟩, _, joined, h⟩ := bind_eq_ok.mp h
    obtain ⟨same, rfl⟩ := pure_eq_ok.mp h
    cases same
    exact ⟨rfl, rfl, joinGroup_fresh joined⟩

end Machine

end CoreTiming
