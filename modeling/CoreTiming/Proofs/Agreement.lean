import CoreTiming.Proofs.Cracking
import CoreTiming.Proofs.Traffic

/-!
# Models and their threads

A model adds up what it is told when it hands over micro-ops and when it has drained its slot, and the window keeps
in each thread what it has told.  Two components count the same, each on its own, and a call may find the window
advanced, ahead of time, woken up or stopped by a fault.  `CallStage.Agrees` says how the two counts agree in each stage
of a call, and `Traffic.Agrees`, which every action preserves, that they do so for all models.
-/

namespace CoreTiming

open Faulting

/-! ## Section 1: Parts of a call -/

namespace CallStage

/-- How the clock and the count of a model agree with what its thread has told, in each stage of a call. -/
def Agrees : CallStage → ModelState → Thread → Prop
  | .moved, s, th => s.instructions = th.reported ∧ th.reported ≤ th.retired
  | .told n t _, s, th =>
    (s.clock.addLatency t).now = th.now ∧ s.instructions + n = th.reported ∧ th.reported ≤ th.retired
  | _, s, th => s.clock.now = th.now ∧ s.instructions = th.reported ∧ th.reported ≤ th.retired

variable {stage : CallStage} {s s' : ModelState} {th th' th₁ : Thread} {n : Nat} {t : Time}

theorem Agrees.undisturbed (h : stage.Agrees s th) (kept : th.Undisturbed th') : stage.Agrees s th' := by
  have reported : th'.reported ≤ th'.retired ∨ ¬th.reported ≤ th.retired := by
    rw [kept.reported]
    have := kept.retired
    omega
  cases stage with
  | moved => exact ⟨h.1.trans kept.reported.symm, reported.resolve_right fun no => no h.2⟩
  | told | idle | handed | inside | drained =>
    exact ⟨h.1.trans kept.now.symm, h.2.1.trans kept.reported.symm, reported.resolve_right fun no => no h.2.2⟩

theorem Agrees.congr (h : stage.Agrees s th) (clock : s'.clock = s.clock)
    (instructions : s'.instructions = s.instructions) : stage.Agrees s' th := by
  cases stage with
  | moved => exact ⟨instructions.trans h.1, h.2⟩
  | told => exact ⟨by rw [clock]; exact h.1, by rw [instructions]; exact h.2.1, h.2.2⟩
  | idle | handed | inside | drained => exact ⟨by rw [clock]; exact h.1, by rw [instructions]; exact h.2.1, h.2.2⟩

/-- Between calls the thread is told of all that it has not reported. -/
theorem Agrees.informed {draining : Bool} (h : CallStage.idle.Agrees s th) (told : th.Informed n t th') :
    (CallStage.told n t draining).Agrees s th' := by
  obtain ⟨clock, instructions, le⟩ := h
  refine ⟨told.time s.clock clock, ?_, ?_⟩
  · rw [instructions, told.instructions, told.reported]
    omega
  · rw [told.reported, told.retired]

/-- What has been told is added up. -/
theorem Agrees.elapse {draining : Bool} (h : (CallStage.told n t draining).Agrees s th) :
    CallStage.idle.Agrees (s.elapse n t) th := h

end CallStage

namespace Machine

variable {M α : Type} [MemorySystem M] {m m' : Machine M} {i : Nat} {w : Windowed} {stage : CallStage} {th : Thread}
  {P : Thread → Thread → Prop} {state : ModelState}

omit [MemorySystem M] in
theorem setModel_of_found {model : Model M} (found : m.models[i]? = some model) : m.setModel i model = m := by
  unfold setModel
  congr 1
  apply Array.ext_getElem?
  intro j
  by_cases here : i = j
  · subst here
    rw [Array.getElem?_setIfInBounds_self_of_lt (Array.getElem?_eq_some_iff.mp found).1, found]
  · rw [Array.getElem?_setIfInBounds_ne here]

/-- The call on model `i`, which was `w`, has reached a stage: the model agrees with its thread, and neither the
other models nor the other threads are disturbed. -/
structure Reaches (i : Nat) (w : Windowed) (stage : CallStage) (m m' : Machine M) : Prop where
  /-- The model and its thread. -/
  agrees : ∃ (state : ModelState) (th : Thread), m'.models = (m.setModel i (.windowed { w with state })).models ∧
    m'.thread? w.master w.slot = some th ∧ stage.Agrees state th
  /-- The other threads. -/
  others : ∀ master slot th, ¬(master = w.master ∧ slot = w.slot) → m.thread? master slot = some th →
    ∃ th', m'.thread? master slot = some th' ∧ th.Undisturbed th'

omit [MemorySystem M] in
/-- The model takes a new state, and then its thread changes. -/
theorem Changes.reaches (h : (m.setModel i (.windowed { w with state })).Changes w.master w.slot P m')
    (at_slot : m.thread? w.master w.slot = some th) (agrees : ∀ th', P th th' → stage.Agrees state th') :
    m.Reaches i w stage m' := by
  obtain ⟨th', found, changed⟩ := h.here th at_slot
  exact ⟨⟨state, th', h.models, found, agrees th' changed⟩, h.others⟩

omit [MemorySystem M] in
theorem Undisturbed.reaches (h : (m.setModel i (.windowed { w with state })).Undisturbed m')
    (at_slot : m.thread? w.master w.slot = some th) (agrees : stage.Agrees state th) :
    m.Reaches i w stage m' :=
  (h.changes w.master w.slot).reaches at_slot fun _ kept => agrees.undisturbed kept

/-- However a part of the call on model `i` ends, the call has reached the stage that the part gives, or is over if
it was stopped. -/
structure Part (i : Nat) (w : Windowed) (m : Machine M) (result : EStateM.Result Fault (Machine M) CallStage) :
    Prop where
  /-- It goes through. -/
  done : ∀ {stage m'}, result = .ok stage m' → m.Reaches i w stage m'
  /-- It is stopped. -/
  stopped : ∀ {f m'}, result = .error f m' → m.Reaches i w .idle m'

section

variable (found : m.models[i]? = some (.windowed w)) (at_slot : m.thread? w.master w.slot = some th)

include at_slot

omit [MemorySystem M] in
/-- A part in which only the model takes a new state. -/
theorem Part.of_state (agrees : stage.Agrees state th) :
    Part i w m (.ok stage (m.setModel i (.windowed { w with state }))) := by
  refine ⟨fun ran => ?_, fun ran => ?_⟩
  · cases ran
    have same : (m.setModel i (.windowed { w with state })).Undisturbed
      (m.setModel i (.windowed { w with state })) := Std.Refl.refl _
    exact same.reaches at_slot agrees
  · cases ran

omit [MemorySystem M] in
/-- A part in which the model has taken a new state and no thread is disturbed. -/
theorem Part.of_keeps {x : Faulting (Machine M) α} {next : α → Machine M → CallStage} (h : KeepsThreads x)
    (idle : CallStage.idle.Agrees state th) (same : ∀ a m' s th, (next a m').Agrees s th ↔ CallStage.idle.Agrees s th) :
    Part i w m ((do let a ← x; pure (next a (← get))) (m.setModel i (.windowed { w with state }))) := by
  refine ⟨fun ran => ?_, fun ran => ?_⟩
  · obtain ⟨a, m₁, first, rest⟩ := bind_eq_ok.mp ran
    cases rest
    exact (h.done first).reaches at_slot ((same _ _ _ _).mpr idle)
  · rcases bind_eq_error.mp ran with first | ⟨a, m₁, -, rest⟩
    · exact (h.stopped first).1.reaches at_slot idle
    · cases rest

/-- A part in which the model has taken a new state, and its thread is told of what it has not reported. -/
theorem Part.of_told {x : Faulting (Barrier (Window M)) (Nat × Time)} {draining : Bool}
    (idle : CallStage.idle.Agrees state th)
    (done : ∀ {b n t b'}, x b = .ok (n, t) b' → b.engine.Changes w.slot
      (fun th th' => ∃ th₁, th.Undisturbed th₁ ∧ Thread.Informed n t th₁ th') b'.engine)
    (stopped : ∀ {b f b'}, x b = .error f b' → b.engine.Undisturbed b'.engine) :
    Part i w m ((do
      let (n, t) ← onBarrier w.master x
      pure (CallStage.told n t draining)) (m.setModel i (.windowed { w with state }))) := by
  obtain ⟨s, session, -⟩ := Option.bind_eq_some_iff.mp at_slot
  have session' : (m.setModel i (.windowed { w with state })).session? w.master = some s := session
  have ran := onBarrier_of_session session' x
  refine ⟨fun h => ?_, fun h => ?_⟩
  · obtain ⟨⟨n, t⟩, m₁, first, h⟩ := bind_eq_ok.mp h
    obtain ⟨rfl, rfl⟩ := pure_eq_ok.mp h
    rw [ran] at first
    cases inner : x s.barrier with
    | error e b =>
      simp only [inner] at first
      cases first
    | ok r b =>
      simp only [inner] at first
      cases first
      refine (changes_setSession session' (done inner)).reaches at_slot fun th' ⟨th₁, kept, informed⟩ => ?_
      exact (idle.undisturbed kept).informed informed
  · rcases bind_eq_error.mp h with first | ⟨⟨n, t⟩, m₁, -, h⟩
    · rw [ran] at first
      cases inner : x s.barrier with
      | error e b =>
        simp only [inner] at first
        cases first
        exact (undisturbed_setSession session' (stopped inner)).reaches at_slot idle
      | ok r b =>
        simp only [inner] at first
        cases first
    · exact absurd h pure_ne_error

end

omit [MemorySystem M] in
theorem agrees_stageOf (w : Windowed) (draining : Bool) (m : Machine M) (s : ModelState) (th : Thread) :
    (m.stageOf w draining).Agrees s th ↔ CallStage.idle.Agrees s th := by
  unfold stageOf
  split
  · split
    · exact Iff.rfl
    · exact Iff.rfl
  · exact Iff.rfl

end Machine

theorem ModelState.pushInfo_eq (s : ModelState) (info : MemoryInfo) :
    s.pushInfo info = { s with infos := (s.pushInfo info).infos } := by
  unfold pushInfo
  split
  · rfl
  · rfl

/-- What an instruction is cracked into takes information on operands away, and nothing else. -/
theorem ModelState.crack_eq_ok {s state : ModelState} {u : InstrInstance} {ops : List OpInstance}
    (h : s.crack u = .ok (.ok (ops, state))) : state = { s with infos := state.infos } := by
  cases cracked_of_crack h with
  | bare | informed => rfl

namespace Machine

variable {M : Type} [MemorySystem M] {m : Machine M} {i : Nat} {w : Windowed} {stage : CallStage} {th : Thread}

omit [MemorySystem M] in
/-- To change the state of a model first. -/
theorem modifyState_bind {α : Type} {model : Model M} (found : m.models[i]? = some model) (f : ModelState → ModelState)
    (rest : Unit → Faulting (Machine M) α) :
    (modifyState i f >>= rest) m = rest () (m.setModel i (model.modifyState f)) := by
  show EStateM.bind _ _ m = _
  unfold EStateM.bind
  rw [modifyState_of_found found]

/-- The beginning of a call on a model that agrees with its thread. -/
theorem part_begin (found : m.models[i]? = some (.windowed w)) (at_slot : m.thread? w.master w.slot = some th)
    (idle : CallStage.idle.Agrees w.state th) (call : ModelCall) : Part i w m (begin i w call m) := by
  have unchanged : m.setModel i (.windowed { w with state := w.state }) = m := setModel_of_found found
  have stays : ∀ {stage : CallStage}, stage.Agrees w.state th → Part i w m (.ok stage m) := by
    intro stage agrees
    have := Part.of_state (i := i) at_slot agrees
    rwa [unchanged] at this
  have halts : ∀ f, Part i w m (.error f m) := by
    intro f
    refine ⟨fun ran => ?_, fun ran => ?_⟩
    · cases ran
    · cases ran
      exact (stays idle).done rfl
  have toggles : ∀ enabled, Part i w m ((do setEnabled i (some w) enabled; pure CallStage.idle) m) := by
    intro enabled
    unfold setEnabled
    rw [bind_assoc, modifyState_bind found]
    refine Part.of_keeps at_slot (keepsThreads_handle _ _) ?_ fun _ _ _ _ => Iff.rfl
    exact idle.congr rfl rfl
  -- only an instruction and the end of the stream reach the window at once
  cases call with
  | instruction u =>
    dsimp only [begin]
    split
    · exact stays idle
    cases cracked : w.state.crack u with
    | error e => exact halts e
    | ok answer =>
      cases answer with
      | error e => exact stays idle
      | ok made =>
        obtain ⟨ops, state⟩ := made
        have frame := ModelState.crack_eq_ok cracked
        have agrees : CallStage.idle.Agrees state th := idle.congr (by rw [frame]) (by rw [frame])
        show Part i w m ((modifyState i (fun _ => state) >>= _) m)
        rw [modifyState_bind found]
        exact .of_told at_slot agrees Barrier.changes_push Barrier.undisturbed_push_of_error
  | info info =>
    show Part i w m ((modifyState i (·.pushInfo info) >>= _) m)
    rw [modifyState_bind found]
    have frame := w.state.pushInfo_eq info
    exact .of_state at_slot (idle.congr (congrArg (·.clock) frame) (congrArg (·.instructions) frame))
  | setTime t =>
    show Part i w m ((modifyState i (·.setTime t) >>= _) m)
    rw [modifyState_bind found]
    exact .of_state at_slot idle.2
  | enable => exact toggles true
  | disable => exact toggles false
  | synchronize => exact stays idle
  | notify => exact stays idle.2
  | finish =>
    have ends := Part.of_keeps (i := i) at_slot
      (keepsThreads_onGroup (Session.keepsThreads_start w.slot .finish) w.master) idle
      fun _ m' => agrees_stageOf w true m'
    rwa [unchanged] at ends

/-- The time of a model that has been moved is told to its thread, which is there. -/
theorem part_moved (found : m.models[i]? = some (.windowed w)) (at_slot : m.thread? w.master w.slot = some th)
    (agrees : CallStage.moved.Agrees w.state th) : Part i w m (proceed i w .moved m) := by
  have unchanged : m.setModel i (.windowed { w with state := w.state }) = m := setModel_of_found found
  obtain ⟨s, session, lane⟩ := Option.bind_eq_some_iff.mp at_slot
  obtain ⟨l, at_lane, rfl⟩ := Option.map_eq_some_iff.mp lane
  have ran := onBarrier_of_session session (Barrier.synchronize w.slot w.state.clock.now)
  cases inner : Barrier.synchronize w.slot w.state.clock.now s.barrier with
  | error e b => exact absurd inner (Barrier.synchronize_ne_error at_lane)
  | ok r b =>
    simp only [inner] at ran
    have moved : proceed i w .moved m =
        .ok .idle (m.setSession w.master { s with barrier := b }) := bind_eq_ok.mpr ⟨(), _, ran, rfl⟩
    rw [moved]
    refine ⟨fun ran => ?_, fun ran => ?_⟩
    · cases ran
      have changed : (m.setModel i (.windowed { w with state := w.state })).Changes w.master w.slot
          (fun th th' => th' = { th with now := w.state.clock.now })
          (m.setSession w.master { s with barrier := b }) := by
        rw [unchanged]
        exact changes_setSession session (Barrier.changes_synchronize inner)
      refine changed.reaches at_slot fun th' told => ?_
      rw [told]
      exact ⟨rfl, agrees⟩
    · cases ran

/-- The next part of a call whose model agrees with its thread as the stage demands. -/
theorem part_proceed (found : m.models[i]? = some (.windowed w)) (at_slot : m.thread? w.master w.slot = some th)
    (agrees : stage.Agrees w.state th) : Part i w m (proceed i w stage m) := by
  have unchanged : m.setModel i (.windowed { w with state := w.state }) = m := setModel_of_found found
  cases stage with
  | idle =>
    have stays := Part.of_state (i := i) at_slot agrees
    rwa [unchanged] at stays
  | moved => exact part_moved found at_slot agrees
  | told n t draining =>
    show Part i w m ((modifyState i (·.elapse n t) >>= _) m)
    rw [modifyState_bind found]
    cases draining with
    | true => exact .of_state at_slot agrees.elapse
    | false => exact .of_state at_slot agrees.elapse
  | handed =>
    have begins := Part.of_keeps (i := i) at_slot
      (keepsThreads_onGroup (Session.keepsThreads_start w.slot .simulate) w.master) agrees
      fun _ m' => agrees_stageOf w false m'
    rwa [unchanged] at begins
  | inside draining =>
    have goes := Part.of_keeps (i := i) at_slot
      (keepsThreads_onGroup (Session.keepsThreads_step w.slot) w.master) agrees
      fun _ m' => agrees_stageOf w draining m'
    rwa [unchanged] at goes
  | drained =>
    have told : Part i w m (proceed i w .drained (m.setModel i (.windowed { w with state := w.state }))) := by
      refine .of_told at_slot agrees (fun returned => ?_) fun stopped => ?_
      · exact (Std.Refl.refl _ : Window.Undisturbed _ _).then_changes (Barrier.changes_returnLatency returned)
      · rw [Barrier.returnLatency_of_error stopped]
        exact Std.Refl.refl _
    rwa [unchanged] at told

end Machine

/-! ## Section 2: All models -/

namespace Traffic

variable {M : Type} {s : Traffic M} {m' : Machine M} {i : Nat} {w : Windowed} {stage : CallStage}

/-- All models agree with their threads, each as far as the call on it has come. -/
structure Agrees (s : Traffic M) : Prop where
  /-- The models and their threads. -/
  models : ∀ i w, s.machine.models[i]? = some (.windowed w) →
    ∃ th, s.machine.thread? w.master w.slot = some th ∧ (s.stages i).Agrees w.state th
  /-- No two models share a thread. -/
  apart : ∀ (i j : Nat) (w w' : Windowed), s.machine.models[i]? = some (.windowed w) →
    s.machine.models[j]? = some (.windowed w') → w'.master = w.master → w'.slot = w.slot → i = j
  /-- On a model that is yet to come no call is in progress. -/
  absent : ∀ i, s.machine.models.size ≤ i → s.stages i = .idle

theorem Agrees.undisturbed (h : s.Agrees) (kept : s.machine.Undisturbed m') : Agrees { s with machine := m' } := by
  refine ⟨fun i w found => ?_, fun i j w w' found found' => ?_, fun i outside => h.absent i ?_⟩
  · obtain ⟨th, at_slot, agrees⟩ := h.models i w (kept.models ▸ found)
    obtain ⟨th', at_slot', undisturbed⟩ := kept.threads _ _ th at_slot
    exact ⟨th', at_slot', agrees.undisturbed undisturbed⟩
  · exact h.apart i j w w' (kept.models ▸ found) (kept.models ▸ found')
  · exact kept.models ▸ outside

theorem Agrees.reaches (h : s.Agrees) (found : s.machine.models[i]? = some (.windowed w))
    (reached : s.machine.Reaches i w stage m') :
    Agrees { machine := m', stages := Function.update s.stages i stage } := by
  obtain ⟨state, th, models, at_slot, agrees⟩ := reached.agrees
  have here : m'.models[i]? = some (.windowed { w with state }) := by
    rw [models]
    exact Machine.getElem?_setModel_self found
  have elsewhere : ∀ j, i ≠ j → m'.models[j]? = s.machine.models[j]? := by
    intro j other
    rw [models]
    exact Machine.getElem?_setModel_ne other
  -- a share has the same place as before
  have before : ∀ (j : Nat) (x : Windowed), m'.models[j]? = some (.windowed x) →
      ∃ y, s.machine.models[j]? = some (.windowed y) ∧ y.master = x.master ∧ y.slot = x.slot := by
    intro j x at_j
    by_cases same : i = j
    · subst same
      cases here.symm.trans at_j
      exact ⟨w, found, rfl, rfl⟩
    · exact ⟨x, (elsewhere j same).symm.trans at_j, rfl, rfl⟩
  refine ⟨fun j x at_j => ?_, fun j k x y at_j at_k master slot => ?_, fun j outside => ?_⟩
  · by_cases same : i = j
    · subst same
      cases here.symm.trans at_j
      refine ⟨th, at_slot, ?_⟩
      dsimp only
      rw [Function.update_self]
      exact agrees
    · have at_j' := (elsewhere j same).symm.trans at_j
      obtain ⟨th', at_slot', agrees'⟩ := h.models j x at_j'
      have other : ¬(x.master = w.master ∧ x.slot = w.slot) :=
        fun ⟨master, slot⟩ => same (h.apart i j w x found at_j' master slot)
      obtain ⟨th'', at_slot'', kept⟩ := reached.others _ _ th' other at_slot'
      refine ⟨th'', at_slot'', ?_⟩
      dsimp only
      rw [Function.update_of_ne (Ne.symm same)]
      exact agrees'.undisturbed kept
  · obtain ⟨x', at_j', master_x, slot_x⟩ := before j x at_j
    obtain ⟨y', at_k', master_y, slot_y⟩ := before k y at_k
    exact h.apart j k x' y' at_j' at_k' (master_y.trans (master.trans master_x.symm))
      (slot_y.trans (slot.trans slot_x.symm))
  · have size : m'.models.size = s.machine.models.size := by
      rw [models]
      exact Array.size_setIfInBounds
    have inside := (Array.getElem?_eq_some_iff.mp found).1
    dsimp only at outside ⊢
    rw [Function.update_of_ne (by omega)]
    exact h.absent j (size ▸ outside)

variable [MemorySystem M]

omit [MemorySystem M] in
theorem left_undisturbed {α : Type} {x : Faulting (Machine M) α} (h : Machine.KeepsThreads x) (m : Machine M) :
    m.Undisturbed (left x m) := by
  unfold left
  split
  · rename_i ran
    exact h.done ran
  · rename_i ran
    exact (h.stopped ran).1

omit [MemorySystem M] in
/-- To give up a call disturbs no thread. -/
theorem undisturbed_abandon (i : Nat) (m : Machine M) : m.Undisturbed (m.abandon i) := by
  unfold Machine.abandon
  split
  · rename_i w found
    refine ⟨rfl, fun master slot th at_slot => ⟨th, ?_, Std.Refl.refl _⟩⟩
    rw [← at_slot]
    unfold Machine.thread?
    rw [Machine.session?_eq_find?, Machine.session?_eq_find?, Array.find?_map]
    have named : ((fun g : Group M => g.master == master) ∘ fun g =>
        if g.master = w.master then { g with session := g.session.setHost w.slot .outside } else g) =
          fun g => g.master == master := by
      funext g
      dsimp only [Function.comp_apply]
      split
      · rfl
      · rfl
    rw [named]
    cases m.groups.find? (·.master == master) with
    | none => rfl
    | some g =>
      simp only [Option.map_some, Option.bind_some]
      split
      · rfl
      · rfl
  · exact Std.Refl.refl m

omit [MemorySystem M] in
theorem Agrees.turn {part : Windowed → Faulting (Machine M) CallStage} (h : s.Agrees)
    (parts : ∀ {w th}, s.machine.models[i]? = some (.windowed w) → s.machine.thread? w.master w.slot = some th →
      (s.stages i).Agrees w.state th → Machine.Part i w s.machine (part w s.machine)) :
    (s.turn i part).Agrees := by
  unfold Traffic.turn
  split
  · rename_i w found
    obtain ⟨th, at_slot, agrees⟩ := h.models i w found
    have reached := parts found at_slot agrees
    split
    · rename_i stage m ran
      exact h.reaches found (reached.done ran)
    · rename_i f m ran
      exact (h.reaches found (reached.stopped ran)).undisturbed (undisturbed_abandon i m)
  · exact h

omit [MemorySystem M] in
/-- A model that starts with a slot of its own comes in. -/
theorem Agrees.push {model : Model M} {m₁ : Machine M} (h : s.Agrees) (kept : s.machine.Undisturbed m₁)
    (fresh : ∀ w, model = .windowed w → w.state.clock.now = 0 ∧ w.state.instructions = 0 ∧
      s.machine.thread? w.master w.slot = none ∧
      ∃ th, m₁.thread? w.master w.slot = some th ∧ th.now = 0 ∧ th.reported = 0) :
    Agrees { s with machine := { m₁ with models := m₁.models.push model } } := by
  have models : ∀ (j : Nat) (x : Windowed), (m₁.models.push model)[j]? = some (.windowed x) →
      (j = s.machine.models.size ∧ model = .windowed x) ∨ s.machine.models[j]? = some (.windowed x) := by
    intro j x at_j
    rw [Array.getElem?_push, kept.models] at at_j
    split at at_j
    · rename_i last
      exact .inl ⟨last, Option.some.inj at_j⟩
    · exact .inr at_j
  -- a new share has another place than the old ones
  have new : ∀ (j : Nat) (x y : Windowed), s.machine.models[j]? = some (.windowed x) → model = .windowed y →
      ¬(y.master = x.master ∧ y.slot = x.slot) := by
    intro j x y at_j same place
    obtain ⟨th, at_slot, -⟩ := h.models j x at_j
    obtain ⟨-, -, free, -⟩ := fresh y same
    rw [place.1, place.2, at_slot] at free
    cases free
  refine ⟨fun j x at_j => ?_, fun j k x y at_j at_k master slot => ?_, fun j outside => ?_⟩
  · rcases models j x at_j with ⟨rfl, same⟩ | old
    · obtain ⟨clock, instructions, -, th, at_slot, now, reported⟩ := fresh x same
      refine ⟨th, at_slot, ?_⟩
      show (s.stages s.machine.models.size).Agrees x.state th
      rw [h.absent _ le_rfl]
      exact ⟨clock.trans now.symm, instructions.trans reported.symm, by omega⟩
    · obtain ⟨th, at_slot, agrees⟩ := h.models j x old
      obtain ⟨th', at_slot', undisturbed⟩ := kept.threads _ _ th at_slot
      exact ⟨th', at_slot', agrees.undisturbed undisturbed⟩
  · rcases models j x at_j with ⟨rfl, first⟩ | old
    · rcases models k y at_k with ⟨rfl, -⟩ | old'
      · rfl
      · exact absurd ⟨master.symm, slot.symm⟩ (new k y x old' first)
    · rcases models k y at_k with ⟨rfl, second⟩ | old'
      · exact absurd ⟨master, slot⟩ (new j x y old second)
      · exact h.apart j k x y old old' master slot
  · dsimp only at outside
    rw [Array.size_push, kept.models] at outside
    exact h.absent j (by omega)

theorem Agrees.attach (h : s.Agrees) (config : Config) (core : Nat) (app : Option Nat) (memory : M) :
    Agrees { s with machine := left (Machine.attach config core app memory) s.machine } := by
  unfold left
  rw [Machine.attach_eq]
  split
  · rename_i ran
    obtain ⟨period, _, made, ran⟩ := bind_eq_ok.mp ran
    obtain ⟨-, rfl⟩ := ofExcept_eq_ok.mp made
    obtain ⟨model, m₁, built, ran⟩ := bind_eq_ok.mp ran
    rw [← modify_eq_ok.mp ran]
    exact (h.push ((Machine.keepsThreads_build config core app memory period).done built)) fun w same =>
      Machine.build_fresh (same ▸ built)
  · rename_i ran
    rcases bind_eq_error.mp ran with stopped | ⟨period, _, made, ran⟩
    · cases made : config.period with
      | ok period =>
        rw [made] at stopped
        cases stopped
      | error e =>
        rw [made] at stopped
        cases stopped
        exact h
    obtain ⟨-, rfl⟩ := ofExcept_eq_ok.mp made
    rcases bind_eq_error.mp ran with stopped | ⟨model, m₁, -, ran⟩
    · exact h.undisturbed ((Machine.keepsThreads_build config core app memory period).stopped stopped).1
    · exact absurd ran modify_ne_error

/-- Every action leaves all models in agreement with their threads. -/
theorem Agrees.after (h : s.Agrees) (action : Action M) : (s.after action).Agrees := by
  cases action with
  | attach config core app memory => exact h.attach config core app memory
  | connect master slot =>
    refine h.undisturbed (left_undisturbed (Machine.keepsThreads_onBarrier (F := fun _ => True) ?_ master) _)
    exact Barrier.keepsEngine_modify fun _ => rfl
  | handle master event => exact h.undisturbed (left_undisturbed (Machine.keepsThreads_handle master event) _)
  | begin i call =>
    unfold Traffic.after
    dsimp only
    split
    · rename_i idle
      refine h.turn fun found at_slot agrees => Machine.part_begin found at_slot ?_ call
      rw [idle] at agrees
      exact agrees
    · exact h
  | goOn i => exact h.turn fun found at_slot agrees => Machine.part_proceed found at_slot agrees

/-- Whatever has happened, all models agree with their threads. -/
theorem agrees_of (actions : List (Action M)) : (of actions).Agrees := by
  have start : Agrees ({} : Traffic M) := by
    refine ⟨fun i w found => ?_, fun i j w w' found => ?_, fun _ _ => rfl⟩
    · simp at found
    · simp at found
  unfold of
  generalize ({} : Traffic M) = s at start
  induction actions generalizing s with
  | nil => exact start
  | cons action actions ih => exact ih _ (start.after action)

/-- Whatever calls, events and faults a machine has seen, in whichever order: while no call on a model is in progress,
the model's clock shows the time that its thread has been told, and the model has counted the instructions that the
thread has reported, which are of those that it has retired. -/
theorem clock_and_count_agree {M : Type} [MemorySystem M] (actions : List (Action M)) {i : Nat} {w : Windowed}
    (found : (of actions).machine.models[i]? = some (.windowed w)) (idle : (of actions).stages i = .idle) :
    ∃ th, (of actions).machine.thread? w.master w.slot = some th ∧ w.state.clock.now = th.now ∧
      w.state.instructions = th.reported ∧ th.reported ≤ th.retired := by
  obtain ⟨th, at_slot, agrees⟩ := (agrees_of actions).models i w found
  rw [idle] at agrees
  exact ⟨th, at_slot, agrees⟩

/-- Two models on one core.  Both clocks are moved, which moves the core's; the first thread is set back, blocked and
woken, and hands over an instruction. -/
def setBack : List (Action FixedMemory) :=
  [.attach { core := { smtThreads := 2 } } 0 (some 0) default,
    .attach { core := { smtThreads := 2 } } 1 (some 1) default,
    .begin 0 (.setTime ⟨5000⟩), .goOn 0, .begin 1 (.setTime ⟨9000⟩), .goOn 1,
    .begin 0 (.setTime ⟨20000⟩), .goOn 0, .begin 0 (.setTime ⟨1000⟩), .goOn 0,
    .handle 0 (.stall 0), .handle 0 (.resume 0),
    .begin 0 (.instruction { instruction := { kind := .add } }), .goOn 0, .goOn 0]

/-- The thread shows itself, and hands over another instruction. -/
def caughtUp : List (Action FixedMemory) :=
  setBack ++ [.begin 0 .notify, .goOn 0, .begin 0 (.instruction { instruction := { kind := .add } }), .goOn 0, .goOn 0]

/-- A thread that has been woken is told nothing, however far the core is ahead, and both meet once it has shown
itself. -/
theorem clock_and_count_agree_after_wakeup :
    (∃ w th, (of setBack).machine.models[0]? = some (.windowed w) ∧ (of setBack).stages 0 = .idle ∧
      w.state.clock.now = ⟨1000⟩ ∧ (of setBack).machine.thread? w.master w.slot = some th ∧ th.now = ⟨1000⟩) ∧
    ∃ w th, (of caughtUp).machine.models[0]? = some (.windowed w) ∧ (of caughtUp).stages 0 = .idle ∧
      w.state.clock.now = ⟨9000⟩ ∧ (of caughtUp).machine.thread? w.master w.slot = some th ∧ th.now = ⟨9000⟩ := by
  have shown : ∀ {actions : List (Action FixedMemory)} {t : Time},
      ((of actions).machine.models[0]?.bind Model.windowed?).map (·.state.clock.now) = some t →
      (of actions).stages 0 = .idle →
      ∃ w th, (of actions).machine.models[0]? = some (.windowed w) ∧ (of actions).stages 0 = .idle ∧
        w.state.clock.now = t ∧ (of actions).machine.thread? w.master w.slot = some th ∧ th.now = t := by
    intro actions t seen idle
    obtain ⟨w, share, clock⟩ := Option.map_eq_some_iff.mp seen
    obtain ⟨model, found, windowed⟩ := Option.bind_eq_some_iff.mp share
    cases model with
    | windowed w' =>
      cases windowed
      obtain ⟨th, at_slot, same, -⟩ := clock_and_count_agree actions found idle
      exact ⟨w, th, found, idle, clock, at_slot, same.symm.trans clock⟩
    | simple | magic | inOrder => cases windowed
  exact ⟨shown (by decide +kernel) (by decide +kernel), shown (by decide +kernel) (by decide +kernel)⟩

end Traffic

end CoreTiming
