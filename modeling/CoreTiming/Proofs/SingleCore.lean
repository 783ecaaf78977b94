import CoreTiming.Proofs.Buffering
import CoreTiming.Proofs.SingleSlot

/-!
# A machine with one core

With one core there is nobody to wait for, and the calls of its host thread are what is left when the barrier is taken
away: `SingleCore.perform` works on the model and its window directly, and `SingleCore.call_machine` says that the
machine does the same.
-/

namespace CoreTiming

open Faulting

/-! ## Section 1: One group -/

namespace Machine

variable {M : Type} {models : Array (Model M)} {t t' : Session (Window M)}

/-- The machine with one group, named after `master`, whose session is `t`. -/
def around (master : Nat) (models : Array (Model M)) (t : Session (Window M)) : Machine M :=
  { groups := #[{ master, session := t }], models }

theorem findGroup?_around (master : Nat) (models : Array (Model M)) (t : Session (Window M)) :
    (around master models t).findGroup? master = some 0 := by
  simp [findGroup?, around]

theorem session?_around (master : Nat) (models : Array (Model M)) (t : Session (Window M)) :
    (around master models t).session? master = some t :=
  session?_of_found (findGroup?_around master models t) rfl

theorem setSession_around (master : Nat) (models : Array (Model M)) (t t' : Session (Window M)) :
    (around master models t).setSession master t' = around master models t' := by
  unfold setSession
  rw [findGroup?_around]
  rfl

variable [MemorySystem M] {α : Type} {master : Nat}

theorem onGroup_around (x : Faulting (Session (Window M)) α) :
    onGroup master x (around master models t) = match x t with
      | .ok a t' => .ok a (around master models t')
      | .error f t' => .error f (around master models t') := by
  rw [onGroup_of_session (session?_around master models t)]
  cases x t with
  | ok a t' => simp only [setSession_around]
  | error f t' => simp only [setSession_around]

theorem onGroup_around_eq_ok {x : Faulting (Session (Window M)) α} {a : α} {m : Machine M}
    (h : onGroup master x (around master models t) = .ok a m) :
    ∃ t', x t = .ok a t' ∧ m = around master models t' := by
  rw [onGroup_around] at h
  cases ran : x t with
  | error f t' =>
    rw [ran] at h
    cases h
  | ok b t' =>
    rw [ran] at h
    cases h
    exact ⟨t', rfl, rfl⟩

end Machine

/-! ## Section 2: One core -/

/-- A machine with one core whose instructions go through a window.  An application thread is bound to it, and its
host thread is in no call. -/
structure SingleCore (M : Type) where
  /-- The core. -/
  core : Nat
  /-- The application thread. -/
  app : Nat
  /-- What the core's model keeps. -/
  state : ModelState
  /-- The window. -/
  window : Window M
  /-- Whether the application thread runs. -/
  running : Bool := true
  /-- Who has driven the window last. -/
  driver : Option Nat := none

namespace SingleCore

variable {M : Type} {s : SingleCore M} {t : Session (Window M)}

/-- The core's share in the window. -/
def share (s : SingleCore M) : Windowed := { state := s.state, master := s.core, slot := 0 }

/-- The barrier in front of the window. -/
def barrier (s : SingleCore M) : Barrier (Window M) :=
  .single (.outside s.core s.app s.running) s.window s.state.enabled s.driver

/-- The machine with the session `t`. -/
def inside (s : SingleCore M) (t : Session (Window M)) : Machine M := .around s.core #[.windowed s.share] t

/-- The machine between two calls. -/
def machine (s : SingleCore M) : Machine M := s.inside { barrier := s.barrier, hosts := #[.outside] }

theorem found_inside (s : SingleCore M) (t : Session (Window M)) :
    (s.inside t).models[0]? = some (.windowed s.share) := rfl

theorem session?_inside (s : SingleCore M) (t : Session (Window M)) : (s.inside t).session? s.core = some t :=
  Machine.session?_around s.core _ t

variable [MemorySystem M] {α : Type}

theorem onGroup_inside (x : Faulting (Session (Window M)) α) :
    Machine.onGroup s.core x (s.inside t) = match x t with
      | .ok a t' => .ok a (s.inside t')
      | .error f t' => .error f (s.inside t') := Machine.onGroup_around x

/-- The machine that a result of its one core shows. -/
def shown : EStateM.Result Fault (SingleCore M) α → EStateM.Result Fault (Machine M) α
  | .ok a s => .ok a s.machine
  | .error f s => .error f s.machine

omit [MemorySystem M] in
theorem shown_eq_ok {r : EStateM.Result Fault (SingleCore M) α} {a : α} {m : Machine M} (h : shown r = .ok a m) :
    ∃ s, r = .ok a s ∧ m = s.machine := by
  cases r with
  | ok b s =>
    cases h
    exact ⟨s, rfl, rfl⟩
  | error f s => cases h

omit [MemorySystem M] in
theorem shown_eq_error {r : EStateM.Result Fault (SingleCore M) α} {f : Fault} {m : Machine M}
    (h : shown r = .error f m) : ∃ s, r = .error f s := by
  cases r with
  | ok b s => cases h
  | error e s =>
    cases h
    exact ⟨s, rfl⟩

/-! ## Section 3: Calls without a barrier -/

/-- Changes what the model keeps. -/
def modifyState (f : ModelState → ModelState) : Faulting (SingleCore M) Unit :=
  modify fun s => { s with state := f s.state }

/-- Runs an operation on the window. -/
def onWindow (x : Faulting (Window M) α) : Faulting (SingleCore M) α :=
  Faulting.zoom (·.window) (fun window s => { s with window }) x

/-- Lets the window advance if enough micro-ops are buffered. -/
def advance : Faulting (SingleCore M) Unit := do
  let s ← get
  let n ← Faulting.ofExcept (s.window.surplus 0)
  if s.state.enabled && Barrier.simulateThreshold < n then
    set { s with driver := some 0 }
    onWindow (Window.execute #[true])

/-- Hands micro-ops to the window, and adds what it tells. -/
def handOver (ops : List OpInstance) : Faulting (SingleCore M) Unit := do
  let (n, t) ← onWindow (do Window.push 0 ops; Window.returnLatency 0 false)
  modifyState (·.elapse n t)

/-- Times an instruction. -/
def time (u : InstrInstance) : Faulting (SingleCore M) Progress := do
  match ← Faulting.ofExcept ((← get).state.crack u) with
  | .error e => pure (.refused e)
  | .ok (ops, state) =>
    modifyState fun _ => state
    handOver ops
    advance
    pure (.completed true)

end SingleCore

/-- A call in the course of an instruction stream. -/
inductive StreamCall
  /-- An instruction. -/
  | instruction (u : InstrInstance)
  /-- What is known about a memory operand. -/
  | info (info : MemoryInfo)
  /-- Timing starts. -/
  | enable
  /-- Timing stops. -/
  | disable
  /-- The window may advance. -/
  | synchronize
  deriving DecidableEq, Inhabited

/-- The call on a model. -/
def StreamCall.toCall : StreamCall → ModelCall
  | .instruction u => .instruction u
  | .info known => .info known
  | .enable => .enable
  | .disable => .disable
  | .synchronize => .synchronize

namespace SingleCore

variable {M : Type} [MemorySystem M] {s : SingleCore M} {α : Type}

/-- What a call in the course of a stream does. -/
def perform : StreamCall → Faulting (SingleCore M) Progress
  | .instruction u => do if (← get).state.enabled then time u else pure (.completed true)
  | .info known => do modifyState (·.pushInfo known); pure (.completed true)
  | .enable => do modifyState (·.setEnabled true); pure (.completed true)
  | .disable => do modifyState (·.setEnabled false); pure (.completed true)
  | .synchronize => do advance; pure (.completed true)

/-! ## Section 4: The machine does the same -/

/-- An operation on the barrier that only reaches the window. -/
theorem onBarrier_machine {x : Faulting (Barrier (Window M)) α} {y : Faulting (Window M) α}
    (same : x s.barrier = match y s.window with
      | .ok a w => .ok a { s with window := w }.barrier
      | .error f w => .error f { s with window := w }.barrier) :
    Machine.onBarrier s.core x s.machine = shown (onWindow y s) := by
  unfold Machine.onBarrier machine
  rw [onGroup_inside]
  unfold Session.onBarrier onWindow Faulting.zoom
  dsimp only
  rw [same]
  cases y s.window with
  | ok a w => rfl
  | error f w => rfl

/-- A host thread that is through with its call at once. -/
theorem call_of_begin {b b' : Barrier (Window M)} {c : Barrier.HostCall}
    (begun : Barrier.begin 0 c b = .ok .outside b') :
    Session.call 0 c { barrier := b, hosts := #[.outside] } = .ok () { barrier := b', hosts := #[.outside] } := by
  have through : Session.onBarrier (Barrier.begin 0 c) { barrier := b, hosts := #[.outside] } =
      .ok Host.outside { barrier := b', hosts := #[.outside] } := Session.onBarrier_eq_ok.mpr ⟨b', begun, rfl⟩
  unfold Session.call Session.start
  rw [bind_assoc, bind_of_ok through]
  rfl

theorem call_of_begin_error {b b' : Barrier (Window M)} {c : Barrier.HostCall} {f : Fault}
    (begun : Barrier.begin 0 c b = .error f b') :
    Session.call 0 c { barrier := b, hosts := #[.outside] } = .error f { barrier := b', hosts := #[.outside] } := by
  have through : Session.onBarrier (Barrier.begin 0 c) { barrier := b, hosts := #[.outside] } =
      .error f { barrier := b', hosts := #[.outside] } := by
    unfold Session.onBarrier Faulting.zoom
    dsimp only
    rw [begun]
  unfold Session.call Session.start
  rw [bind_assoc, bind_of_error through]

variable {config : Config} {l : Lane M}

omit [MemorySystem M] in
theorem surplus_eq {w : Window M} (one : w.HasOne config l) : w.surplus 0 = .ok l.thread.buffered := by
  unfold Window.surplus
  rw [Window.thread_alone one.alone]
  rfl

omit [MemorySystem M] in
theorem exists_hasEnough {w : Window M} (one : w.HasOne config l) : ∃ enough, w.hasEnough 0 = .ok enough := by
  unfold Window.hasEnough
  rw [Window.thread_alone one.alone]
  exact ⟨_, rfl⟩

/-- Where few micro-ops are buffered, or the barrier is out of force, the window does not advance. -/
theorem advance_of_few (one : s.window.HasOne config l)
    (few : l.thread.buffered ≤ Barrier.simulateThreshold ∨ s.state.enabled = false) : advance s = .ok () s := by
  unfold advance
  rw [get_bind, surplus_eq one]
  have stays : (s.state.enabled && decide (Barrier.simulateThreshold < l.thread.buffered)) = false := by
    rcases few with few | disabled
    · simp [few]
    · simp [disabled]
  show (if (s.state.enabled && decide (Barrier.simulateThreshold < l.thread.buffered)) = true then _ else pure () :
    Faulting (SingleCore M) Unit) s = _
  rw [stays]
  rfl

/-- Otherwise it executes. -/
theorem advance_of_many (one : s.window.HasOne config l) (enabled : s.state.enabled = true)
    (many : Barrier.simulateThreshold < l.thread.buffered) :
    advance s = match Window.execute #[true] s.window with
      | .ok () w => .ok () { s with window := w, driver := some 0 }
      | .error f w => .error f { s with window := w, driver := some 0 } := by
  unfold advance
  rw [get_bind, surplus_eq one]
  have goes : (s.state.enabled && decide (Barrier.simulateThreshold < l.thread.buffered)) = true := by
    simp [enabled, many]
  show (if (s.state.enabled && decide (Barrier.simulateThreshold < l.thread.buffered)) = true then _ else pure () :
    Faulting (SingleCore M) Unit) s = _
  rw [goes]
  show onWindow (Window.execute #[true]) { s with driver := some 0 } = _
  unfold onWindow Faulting.zoom
  dsimp only
  cases Window.execute #[true] s.window with
  | ok a w => rfl
  | error f w => rfl

omit [MemorySystem M] in
/-- One or the other. -/
theorem few_or_many (s : SingleCore M) (l : Lane M) :
    (l.thread.buffered ≤ Barrier.simulateThreshold ∨ s.state.enabled = false) ∨
      s.state.enabled = true ∧ Barrier.simulateThreshold < l.thread.buffered := by
  cases s.state.enabled with
  | false => exact .inl (.inr rfl)
  | true => exact (le_or_gt l.thread.buffered Barrier.simulateThreshold).imp .inl fun many => ⟨rfl, many⟩

theorem runningFlags_outside (core app : Nat) (running : Bool) :
    Slot.runningFlags #[Slot.outside core app running] = #[running] := by
  simp [Slot.runningFlags, Slot.outside]

theorem execute_outside (core app : Nat) (w : Window M) :
    SharedEngine.execute 0 #[Slot.outside core app true] w = Window.execute #[true] w := by
  show Window.execute (Slot.runningFlags #[Slot.outside core app true]) w = _
  rw [runningFlags_outside]

theorem repartition_outside (core app : Nat) (running : Bool) (w : Window M) :
    SharedEngine.repartition #[Slot.outside core app running] w = .ok () (w.repartition #[running]) := by
  show EStateM.Result.ok () (w.repartition (Slot.runningFlags #[Slot.outside core app running])) = _
  rw [runningFlags_outside]

omit [MemorySystem M] in
theorem barrier_eq (running : s.running = true) {enabled : Bool} (same : s.state.enabled = enabled) :
    s.barrier = .single (.outside s.core s.app true) s.window enabled s.driver := by
  unfold SingleCore.barrier
  rw [running, same]

omit [MemorySystem M] in
/-- Likewise, with its window as it is later. -/
theorem barrier_after (running : s.running = true) (enabled : s.state.enabled = true) (w : Window M)
    (driver : Option Nat) :
    Barrier.single (.outside s.core s.app true) w true driver = { s with window := w, driver }.barrier :=
  (barrier_eq (s := { s with window := w, driver }) running enabled).symm

/-- A host thread that need not wait returns at once. -/
theorem simulate_of_begin {w : Windowed} {b : Barrier (Window M)} (master : w.master = s.core) (slot : w.slot = 0)
    (begun : Barrier.begin 0 .simulate s.barrier = .ok .outside b) :
    Machine.simulate 0 w s.machine = .ok (.completed true) (s.inside { barrier := b, hosts := #[.outside] }) := by
  unfold Machine.simulate
  rw [master, slot]
  have called : Machine.onGroup s.core (Session.call 0 .simulate) s.machine =
      .ok () (s.inside { barrier := b, hosts := #[.outside] }) := by
    unfold machine
    rw [onGroup_inside, call_of_begin begun]
  have back : (s.inside { barrier := b, hosts := #[.outside] }).hostOf w = .outside := by
    unfold Machine.hostOf
    rw [master, slot, session?_inside]
    rfl
  rw [bind_of_ok called]
  unfold Machine.progress
  rw [get_bind, if_pos back]
  rfl

theorem simulate_of_begin_error {w : Windowed} {b : Barrier (Window M)} {f : Fault} (master : w.master = s.core)
    (slot : w.slot = 0) (begun : Barrier.begin 0 .simulate s.barrier = .error f b) :
    Machine.simulate 0 w s.machine = .error f (s.inside { barrier := b, hosts := #[.outside] }) := by
  unfold Machine.simulate
  rw [master, slot]
  refine bind_of_error ?_
  unfold machine
  rw [onGroup_inside, call_of_begin_error begun]

/-- The window is let advance. -/
theorem simulate_machine (running : s.running = true) (one : s.window.HasOne config l) {w : Windowed}
    (master : w.master = s.core) (slot : w.slot = 0) :
    Machine.simulate 0 w s.machine = shown ((do advance; pure (Progress.completed true)) s) := by
  have counted : SharedEngine.surplus s.window 0 = .ok l.thread.buffered := surplus_eq one
  rcases few_or_many s l with few | ⟨enabled, many⟩
  · rw [bind_of_ok (advance_of_few one few)]
    have begun := Barrier.begin_single_of_few s.core s.app s.driver counted few
    rw [← barrier_eq running rfl] at begun
    exact simulate_of_begin master slot begun
  · obtain ⟨enough, answered⟩ : ∃ enough, SharedEngine.hasEnough s.window 0 = .ok enough := exists_hasEnough one
    have begun := Barrier.begin_single_of_many s.core s.app s.driver answered counted one.buffered many
    rw [← barrier_eq running enabled, execute_outside] at begun
    have advances := advance_of_many one enabled many
    cases ran : Window.execute #[true] s.window with
    | ok a v =>
      simp only [ran] at begun advances
      rw [bind_of_ok advances, simulate_of_begin master slot begun, barrier_after running enabled]
      rfl
    | error f v =>
      simp only [ran] at begun advances
      rw [bind_of_error advances, simulate_of_begin_error master slot begun, barrier_after running enabled]
      rfl

omit [MemorySystem M] in
/-- To change what the model keeps. -/
theorem modifyState_machine {f : ModelState → ModelState} (same : (f s.state).enabled = s.state.enabled) :
    Machine.modifyState 0 f s.machine = shown (modifyState f s) := by
  unfold machine
  rw [Machine.modifyState_of_found (s.found_inside _)]
  have barrier : { s with state := f s.state }.barrier = s.barrier := by
    unfold SingleCore.barrier
    rw [same]
  show EStateM.Result.ok () ({ s with state := f s.state }.inside { barrier := s.barrier, hosts := #[.outside] }) = _
  rw [← barrier]
  rfl

/-- What a new share of a core is told and adds. -/
theorem push_machine (running : s.running = true) (enabled : s.state.enabled = true) (ops : List OpInstance) :
    Machine.onBarrier s.core (Barrier.push 0 ops) s.machine =
      shown (onWindow (do Window.push 0 ops; Window.returnLatency 0 false) s) := by
  refine onBarrier_machine ?_
  have after := fun w => barrier_after (s := s) running enabled w s.driver
  rw [barrier_eq running enabled]
  unfold Barrier.push
  show (Barrier.onEngine (Window.push 0 ops) >>= fun _ => Barrier.returnLatency 0 :
    Faulting (Barrier (Window M)) (Nat × Time)) _ = _
  -- on the barrier an operation on the window changes the window only, also where it stops
  have engine : ∀ {β : Type} (x : Faulting (Window M) β) (w : Window M),
      Barrier.onEngine x (Barrier.single (Slot.outside s.core s.app true) w true s.driver) = match x w with
        | .ok a v => .ok a { s with window := v }.barrier
        | .error f v => .error f { s with window := v }.barrier := by
    intro β x w
    unfold Barrier.onEngine Faulting.zoom
    dsimp only [Barrier.single]
    cases x w with
    | ok a v => exact congrArg _ (after v)
    | error f v => exact congrArg _ (after v)
  have pushed := engine (Window.push 0 ops) s.window
  cases ran : Window.push 0 ops s.window with
  | error f v =>
    rw [ran] at pushed
    rw [bind_of_error pushed, bind_of_error ran]
  | ok a v =>
    rw [ran] at pushed
    rw [bind_of_ok pushed, bind_of_ok ran, ← after]
    exact engine (Window.returnLatency 0 false) v

omit [MemorySystem M] in
/-- What holds of two operations holds of both in turn. -/
theorem shown_bind {β : Type} {x : Faulting (Machine M) α} {y : Faulting (SingleCore M) α}
    {next : α → Faulting (Machine M) β} {next' : α → Faulting (SingleCore M) β} (first : x s.machine = shown (y s))
    (rest : ∀ a s', y s = .ok a s' → next a s'.machine = shown (next' a s')) :
    (x >>= next) s.machine = shown ((y >>= next') s) := by
  cases ran : y s with
  | error f s' =>
    rw [ran] at first
    rw [bind_of_error ran, bind_of_error first]
    rfl
  | ok a s' =>
    rw [ran] at first
    rw [bind_of_ok ran, bind_of_ok first]
    exact rest a s' ran

omit [MemorySystem M] in
theorem onWindow_eq_ok {x : Faulting (Window M) α} {a : α} {s' : SingleCore M} :
    onWindow x s = .ok a s' ↔ ∃ w, x s.window = .ok a w ∧ s' = { s with window := w } := by
  unfold onWindow
  rw [zoom_eq_ok]
  constructor
  · rintro ⟨w, ran, rfl⟩
    exact ⟨w, ran, rfl⟩
  · rintro ⟨w, ran, rfl⟩
    exact ⟨w, ran, rfl⟩

/-- What handing over micro-ops makes of the window. -/
theorem exists_of_told {ops : List OpInstance} {answer : Nat × Time} {v : Window M} (sized : config.Sized)
    (one : s.window.HasOne config l)
    (h : (do Window.push 0 ops; Window.returnLatency 0 false) s.window = .ok answer v) :
    ∃ (w : Window M) (l' : Lane M) (n : Nat), Window.push 0 ops s.window = .ok () w ∧ w.HasOne config l' ∧
      n ≤ ops.length ∧ l.thread.Fills n l'.thread ∧ w.clock = s.window.clock ∧
      answer = (l'.thread.retired - l'.thread.reported, w.clock.now - l'.thread.now) ∧
      v = { w with lanes := #[Window.toldLane w.clock.now l'] } := by
  obtain ⟨⟨⟩, w, pushed, h⟩ := bind_eq_ok.mp h
  obtain ⟨l', n, one', le, fills, clock⟩ := one.push sized pushed
  rw [Window.returnLatency_alone one'.alone] at h
  cases h
  exact ⟨w, l', n, pushed, one', le, fills, clock, rfl, rfl⟩

/-- An instruction is timed. -/
theorem timeWindowed_machine (running : s.running = true) (enabled : s.state.enabled = true) (sized : config.Sized)
    (one : s.window.HasOne config l) (u : InstrInstance) :
    Machine.timeWindowed 0 s.share u s.machine = shown (time u s) := by
  unfold Machine.timeWindowed time
  rw [get_bind]
  show (Faulting.ofExcept (s.state.crack u) >>= _ : Faulting (Machine M) Progress) s.machine =
    shown ((Faulting.ofExcept (s.state.crack u) >>= _ : Faulting (SingleCore M) Progress) s)
  cases cracked : s.state.crack u with
  | error f => rfl
  | ok answer =>
    cases answer with
    | error e => rfl
    | ok made =>
      obtain ⟨ops, state⟩ := made
      have kept : state.enabled = s.state.enabled := by rw [ModelState.crack_eq_ok cracked]
      -- the two do the same one step after the other, each from the core that the step before leaves
      rw [ofExcept_ok_bind, ofExcept_ok_bind]
      refine shown_bind (y := modifyState fun _ => state) (modifyState_machine kept) fun _ s₁ ran => ?_
      obtain rfl := modify_eq_ok.mp ran
      unfold handOver
      rw [bind_assoc]
      refine shown_bind (push_machine (s := { s with state }) running (kept.trans enabled) ops) fun answer s₂ ran => ?_
      obtain ⟨v, told, rfl⟩ := onWindow_eq_ok.mp ran
      obtain ⟨w, l', n, -, one', -, -, -, -, rfl⟩ := exists_of_told (s := { s with state }) sized one told
      refine shown_bind (y := modifyState (·.elapse answer.1 answer.2)) (modifyState_machine rfl) fun _ s₃ ran => ?_
      obtain rfl := modify_eq_ok.mp ran
      exact simulate_machine (w := s.share) (s := { s with
        state := state.elapse answer.1 answer.2
        window := { w with lanes := #[Window.toldLane w.clock.now l'] } }) running (one'.told w.clock.now) rfl rfl

/-- Timing starts or stops. -/
theorem setEnabled_machine (enabled : Bool) :
    Machine.setEnabled 0 (some s.share) enabled s.machine = shown (modifyState (·.setEnabled enabled) s) := by
  have set := Machine.modifyState_of_found (m := s.machine) (s.found_inside _) (·.setEnabled enabled)
  unfold Machine.setEnabled
  rw [bind_of_ok set]
  show Machine.onGroup s.core (Session.onBarrier (Barrier.handle (if enabled then .enable else .disable)))
    ({ s with state := s.state.setEnabled enabled }.inside { barrier := s.barrier, hosts := #[.outside] }) = _
  rw [onGroup_inside (s := { s with state := s.state.setEnabled enabled })]
  cases enabled with
  | true => rfl
  | false =>
    -- nobody waits in the barrier, so that nobody is let out
    have slots : s.barrier.slots.map (fun slot : Slot => { slot with inBarrier := false }) = s.barrier.slots := by
      simp [SingleCore.barrier, Barrier.single, Slot.outside]
    have off : Session.onBarrier (Barrier.handle .disable) { barrier := s.barrier, hosts := #[.outside] } =
        .ok () { barrier := { s.barrier with
                   enabled := false
                   slots := s.barrier.slots.map (fun slot : Slot => { slot with inBarrier := false }) }
                 hosts := #[.outside] } := rfl
    simp only [Bool.false_eq_true, if_false, off, slots]
    rfl

/-- The machine does in a call what the core does without its barrier. -/
theorem call_machine (running : s.running = true) (sized : config.Sized) (one : s.window.HasOne config l)
    (c : StreamCall) : Machine.call 0 c.toCall s.machine = shown (perform c s) := by
  have found : s.machine.models[0]? = some (.windowed s.share) := rfl
  cases c with
  | instruction u =>
    refine (Machine.call_instruction found u).trans ?_
    show _ = shown ((if s.state.enabled then time u else pure (.completed true)) s)
    have same : s.share.state.enabled = s.state.enabled := rfl
    rw [same]
    cases enabled : s.state.enabled with
    | false => rfl
    | true => exact timeWindowed_machine running enabled sized one u
  | info known =>
    have kept : (s.state.pushInfo known).enabled = s.state.enabled := by rw [ModelState.pushInfo_eq]
    have pushed := modifyState_machine (s := s) (f := (·.pushInfo known)) kept
    rw [Machine.modifyState_of_found found] at pushed
    obtain ⟨-, same⟩ := EStateM.Result.ok.inj pushed
    exact (Machine.call_info found known).trans (congrArg _ same)
  | enable => exact (Machine.call_enable found).trans (shown_bind (setEnabled_machine true) fun _ _ _ => rfl)
  | disable => exact (Machine.call_disable found).trans (shown_bind (setEnabled_machine false) fun _ _ _ => rfl)
  | synchronize => exact (Machine.call_synchronize found).trans (simulate_machine running one rfl rfl)

/-! ## Section 5: A new machine -/

omit [MemorySystem M] in
/-- The first core makes its group. -/
theorem ensureGroup_eq_ok {master : Nat} {m : Machine M} (h : Machine.ensureGroup config master {} = .ok () m) :
    ∃ w : Window M, Window.new config = .ok w ∧ m = .around master #[] { barrier := { engine := w } } := by
  unfold Machine.ensureGroup at h
  have none : ({} : Machine M).findGroup? master = none := by simp [Machine.findGroup?]
  rw [get_bind, none] at h
  obtain ⟨w, _, made, h⟩ := bind_eq_ok.mp h
  obtain ⟨new, rfl⟩ := ofExcept_eq_ok.mp made
  refine ⟨w, new, ?_⟩
  rw [← modify_eq_ok.mp h]
  simp [Machine.around]

/-- Its hardware thread gets the first slot. -/
theorem register_eq_ok {core slot : Nat} {setUp : Nat → Faulting (Window M) Unit} {w : Window M}
    {t : Session (Window M)} (h : Session.register core false setUp { barrier := { engine := w } } = .ok slot t) :
    slot = 0 ∧ ∃ w₁, setUp 0 w = .ok () w₁ ∧
      t = { barrier := .single { core } (w₁.repartition #[false]) true none, hosts := #[.outside] } := by
  unfold Session.register at h
  obtain ⟨_, t₁, added, h⟩ := bind_eq_ok.mp h
  rw [modify_bind] at h
  obtain ⟨rfl, rfl⟩ := pure_eq_ok.mp h
  obtain ⟨b, registered, rfl⟩ := Session.onBarrier_eq_ok.mp added
  unfold Barrier.register at registered
  rw [get_bind, modify_bind] at registered
  obtain ⟨⟨⟩, b₁, prepared, registered⟩ := bind_eq_ok.mp registered
  obtain ⟨w₁, made, rfl⟩ := Barrier.onEngine_eq_ok.mp prepared
  -- the window is told that the slot is there, on which no application thread runs yet
  obtain ⟨⟨⟩, b₂, notified, registered⟩ := bind_eq_ok.mp registered
  obtain ⟨rfl, rfl⟩ := pure_eq_ok.mp registered
  unfold Barrier.notifyActive at notified
  rw [get_bind] at notified
  obtain ⟨w₂, told, rfl⟩ := Barrier.onEngine_eq_ok.mp notified
  refine ⟨rfl, w₁, made, ?_⟩
  have flags : Slot.runningFlags #[({ core } : Slot)] = #[false] := by simp [Slot.runningFlags]
  have split : w₁.repartition (Slot.runningFlags #[({ core } : Slot)]) = w₂ := modify_eq_ok.mp told
  rw [← split, flags]
  rfl

/-- The application thread is bound to the slot, and starts. -/
theorem bindAndStart_eq_ok {core app : Nat} {w : Window M} {b : Barrier (Window M)}
    (h : (do let _ ← Barrier.bind core app; Barrier.handle (.start app) : Faulting (Barrier (Window M)) Unit)
      (.single { core } w true none) = .ok () b) :
    b = .single (.outside core app true) (w.repartition #[true]) true none := by
  have served : (Barrier.single ({ core } : Slot) w true none).findCore? core = some 0 := by
    simp [Barrier.findCore?, Barrier.single]
  have bound : (Barrier.single (Slot.outside core app false) w true none).findApp? app = some 0 := by
    simp [Barrier.findApp?, Barrier.single, Slot.outside]
  unfold Barrier.bind at h
  rw [bind_assoc, get_bind, served] at h
  have started : Barrier.changeApp app (fun s => { s with running := true })
      (Barrier.single (Slot.outside core app false) w true none) = .ok () b := h
  unfold Barrier.changeApp at started
  rw [get_bind, bound] at started
  have notified : Barrier.notifyActive (Barrier.single (Slot.outside core app true) w true none) = .ok () b := started
  unfold Barrier.notifyActive at notified
  rw [get_bind] at notified
  obtain ⟨v, told, rfl⟩ := Barrier.onEngine_eq_ok.mp notified
  have split : w.repartition (Slot.runningFlags #[Slot.outside core app true]) = v := modify_eq_ok.mp told
  rw [← split, runningFlags_outside]
  rfl

/-- The first core gets the first slot, and its application thread starts. -/
theorem joinGroup_eq_ok {core app master slot : Nat} {memory : M} {m : Machine M}
    (single : config.core.smtThreads = 1)
    (h : Machine.joinGroup config core (some app) memory {} = .ok (master, slot) m) :
    ∃ (predictor : Option Predictor) (w w₁ : Window M), master = core ∧ slot = 0 ∧ Window.new config = .ok w ∧
      Window.initializeThread 0 memory predictor w = .ok () w₁ ∧
      m = .around core #[] {
        barrier := .single (.outside core app true) ((w₁.repartition #[false]).repartition #[true]) true none
        hosts := #[.outside] } := by
  have lowest : masterCore core 1 = core := by simp [masterCore, Nat.mod_one]
  unfold Machine.joinGroup at h
  rw [single, lowest] at h
  -- the group is made
  obtain ⟨predictor, _, made, h⟩ := bind_eq_ok.mp h
  obtain ⟨-, rfl⟩ := ofExcept_eq_ok.mp made
  obtain ⟨⟨⟩, m₂, ensured, h⟩ := bind_eq_ok.mp h
  obtain ⟨w, new, rfl⟩ := ensureGroup_eq_ok ensured
  -- the core joins it, and then the application thread is bound
  obtain ⟨slot', m₃, registered, h⟩ := bind_eq_ok.mp h
  obtain ⟨t, added, rfl⟩ := Machine.onGroup_around_eq_ok registered
  obtain ⟨rfl, w₁, initialized, rfl⟩ := register_eq_ok added
  obtain ⟨⟨⟩, m₄, bound, h⟩ := bind_eq_ok.mp h
  obtain ⟨same, rfl⟩ := pure_eq_ok.mp h
  obtain ⟨t', started, rfl⟩ := Machine.onGroup_around_eq_ok bound
  obtain ⟨b, ran, rfl⟩ := Session.onBarrier_eq_ok.mp started
  obtain rfl := bindAndStart_eq_ok ran
  cases same
  exact ⟨predictor, w, w₁, rfl, rfl, new, initialized, rfl⟩

/-- A machine that gets its first core is that core. -/
theorem exists_of_attach {core app : Nat} {memory : M} {m : Machine M} (single : config.core.smtThreads = 1)
    (kind : config.core.model = .robSmt) (h : Machine.attach config core (some app) memory {} = .ok () m) :
    ∃ (s : SingleCore M) (period : Period) (predictor : Option Predictor) (w w₁ : Window M), m = s.machine ∧
      s.core = core ∧ s.running = true ∧ config.period = .ok period ∧
      s.state = .new period config.core.instructionCosts ∧
      Window.new config = .ok w ∧ Window.initializeThread 0 memory predictor w = .ok () w₁ ∧
      s.window = (w₁.repartition #[false]).repartition #[true] := by
  rw [Machine.attach_eq] at h
  obtain ⟨period, _, clocked, h⟩ := bind_eq_ok.mp h
  obtain ⟨ticks, rfl⟩ := ofExcept_eq_ok.mp clocked
  obtain ⟨model, m₁, built, h⟩ := bind_eq_ok.mp h
  unfold Machine.build at built
  rw [kind] at built
  obtain ⟨⟨master, slot⟩, _, joined, built⟩ := bind_eq_ok.mp built
  obtain ⟨rfl, rfl⟩ := pure_eq_ok.mp built
  obtain ⟨predictor, w, w₁, rfl, rfl, new, initialized, rfl⟩ := joinGroup_eq_ok single joined
  let s : SingleCore M :=
    { core := master, app
      state := .new period config.core.instructionCosts
      window := (w₁.repartition #[false]).repartition #[true] }
  refine ⟨s, period, predictor, w, w₁, ?_, rfl, rfl, ticks, rfl, new, initialized, rfl⟩
  rw [← modify_eq_ok.mp h]
  rfl

end SingleCore

end CoreTiming
