import CoreTiming.Proofs.Cracking
import CoreTiming.Proofs.SingleCore

/-!
# Instruction streams

A stream is a series of calls on one model: instructions, what is known about their memory operands, timing switched on
and off.  `Machine.stream` makes the calls and counts the instructions that are timed.

On a machine with one core a call is one of three things (`SingleCore.perform_cases`), after each of which the core is
at rest: few micro-ops are buffered, since the window advances as soon as there are more (`SingleCore.AtRest`).
-/

namespace CoreTiming

open Faulting

/-- Whether the call brings an instruction. -/
def StreamCall.isInstruction : StreamCall → Bool
  | .instruction _ => true
  | _ => false

/-- The memory operands of the instruction that the call brings. -/
def StreamCall.operands : StreamCall → Nat
  | .instruction u => u.instruction.memoryOperands.length
  | _ => 0

namespace Machine

variable {M : Type} [MemorySystem M]

/-- Makes a call on model `i`, and adds one to `n` if it times an instruction. -/
def serve (i n : Nat) (c : StreamCall) : Faulting (Machine M) Nat := do
  let model ← Faulting.ofExcept ((← get).model i)
  let answer ← call i c.toCall
  pure (if c.isInstruction && model.state.enabled && answer == .completed true then n + 1 else n)

/-- Makes calls on model `i`, one after the other, and counts the instructions that are timed. -/
def stream (i : Nat) (calls : List StreamCall) : Faulting (Machine M) Nat := calls.foldlM (serve i) 0

/-- Memory next to the core. -/
def nearMemory : FixedMemory := { data := ⟨0, .l1⟩ }

/-- An addition that accesses no memory. -/
def addition : InstrInstance := { instruction := { kind := .add } }

/-- An addition of a value in memory. -/
def loadingAddition : InstrInstance := { instruction := { kind := .add, operands := [.memory .read none] } }

end Machine

namespace SingleCore

variable {M : Type} [MemorySystem M] {config : Config} {s s' s₁ : SingleCore M} {l : Lane M} {c : StreamCall}
  {u : InstrInstance} {ops : List OpInstance} {n n' : Nat} {a : Progress} {f : Fault}

/-- Makes a call, and adds one to `n` if it times an instruction. -/
def serve (n : Nat) (c : StreamCall) : Faulting (SingleCore M) Nat := do
  let s ← get
  let answer ← perform c
  pure (if c.isInstruction && s.state.enabled && answer == .completed true then n + 1 else n)

/-! ## Section 1: What a call does -/

/-- The window advances, or nothing happens. -/
theorem advance_eq_ok (one : s.window.HasOne config l) (h : advance s = .ok () s') :
    (s' = s ∧ (l.thread.buffered ≤ Barrier.simulateThreshold ∨ s.state.enabled = false)) ∨
      ∃ w, Window.execute #[true] s.window = .ok () w ∧ s' = { s with window := w, driver := some 0 } := by
  rcases few_or_many s l with few | ⟨enabled, many⟩
  · rw [advance_of_few one few] at h
    cases h
    exact .inl ⟨rfl, few⟩
  · rw [advance_of_many one enabled many] at h
    cases ran : Window.execute #[true] s.window with
    | ok _ w =>
      simp only [ran] at h
      cases h
      exact .inr ⟨w, rfl, rfl⟩
    | error f w =>
      simp only [ran] at h
      cases h

theorem advance_eq_error (one : s.window.HasOne config l) (h : advance s = .error f s') :
    ∃ w, Window.execute #[true] s.window = .error f w := by
  rcases few_or_many s l with few | ⟨enabled, many⟩
  · rw [advance_of_few one few] at h
    cases h
  · rw [advance_of_many one enabled many] at h
    cases ran : Window.execute #[true] s.window with
    | ok _ w =>
      simp only [ran] at h
      cases h
    | error f w =>
      simp only [ran] at h
      cases h
      exact ⟨w, rfl⟩

/-- The core after its window has come to `w`, whose thread has told all. -/
def told (s : SingleCore M) (w : Window M) (l : Lane M) : SingleCore M :=
  { s with
    state := s.state.elapse (l.thread.retired - l.thread.reported) (w.clock.now - l.thread.now)
    window := { w with lanes := #[Window.toldLane w.clock.now l] } }

omit [MemorySystem M] in
theorem hasOne_told {w : Window M} (one : w.HasOne config l) (s : SingleCore M) :
    (s.told w l).window.HasOne config (Window.toldLane w.clock.now l) := one.told _

/-- Micro-ops are pushed, and what the window tells is added. -/
theorem handOver_eq_ok (sized : config.Sized) (one : s.window.HasOne config l) (h : handOver ops s = .ok () s') :
    ∃ (w : Window M) (l' : Lane M) (k : Nat), Window.push 0 ops s.window = .ok () w ∧ w.HasOne config l' ∧
      k ≤ ops.length ∧ l.thread.Fills k l'.thread ∧ w.clock = s.window.clock ∧ s' = s.told w l' := by
  unfold handOver at h
  obtain ⟨answer, s₁, answered, h⟩ := bind_eq_ok.mp h
  obtain ⟨v, told, rfl⟩ := onWindow_eq_ok.mp answered
  obtain ⟨w, l', k, pushed, one', le, fills, clock, rfl, rfl⟩ := exists_of_told sized one told
  obtain rfl := modify_eq_ok.mp h
  exact ⟨w, l', k, pushed, one', le, fills, clock, rfl⟩

theorem handOver_eq_error (sized : config.Sized) (one : s.window.HasOne config l)
    (h : handOver ops s = .error f s') : ∃ l', ops.forM (Window.pushOne s.window.clock.period 0) l = .error f l' := by
  unfold handOver at h
  rcases bind_eq_error.mp h with stopped | ⟨_, _, -, h⟩
  · obtain ⟨w, stopped⟩ := zoom_eq_error stopped
    rcases bind_eq_error.mp stopped with stopped | ⟨⟨⟩, v, pushed, stopped⟩
    · unfold Window.push at stopped
      rw [get_bind] at stopped
      exact Window.onLane_eq_error one.found stopped
    · obtain ⟨l', k, one', -⟩ := one.push sized pushed
      rw [Window.returnLatency_alone one'.alone] at stopped
      cases stopped
  · exact absurd h modify_ne_error

/-- An instruction that is cracked is handed over, and then the window may advance. -/
theorem time_of_cracked {state : ModelState} (cracked : s.state.crack u = .ok (.ok (ops, state))) :
    time u s = (do handOver ops; advance; pure (.completed true) : Faulting (SingleCore M) Progress)
      { s with state } := by
  unfold time
  rw [get_bind]
  show (Faulting.ofExcept (s.state.crack u) >>= _ : Faulting (SingleCore M) Progress) s = _
  rw [cracked]
  rfl

theorem perform_instruction (enabled : s.state.enabled = true) : perform (.instruction u) s = time u s := by
  show (if s.state.enabled then time u else pure (.completed true)) s = _
  rw [if_pos enabled]

/-- An instruction that is to be timed is refused, or handed over, after which the window may advance. -/
theorem time_eq_ok (h : time u s = .ok a s') :
    (∃ e, a = .refused e ∧ s' = s) ∨
      ∃ ops state s₁, a = .completed true ∧ s.state.crack u = .ok (.ok (ops, state)) ∧
        handOver ops { s with state } = .ok () s₁ ∧ advance s₁ = .ok () s' := by
  unfold time at h
  rw [get_bind] at h
  obtain ⟨answer, _, decoded, h⟩ := bind_eq_ok.mp h
  obtain ⟨cracked, rfl⟩ := ofExcept_eq_ok.mp decoded
  cases answer with
  | error e =>
    obtain ⟨rfl, rfl⟩ := pure_eq_ok.mp h
    exact .inl ⟨e, rfl, rfl⟩
  | ok made =>
    obtain ⟨ops, state⟩ := made
    have rest : (do handOver ops; advance; pure (.completed true) : Faulting (SingleCore M) Progress)
        { s with state } = .ok a s' := h
    obtain ⟨⟨⟩, s₁, handed, rest⟩ := bind_eq_ok.mp rest
    obtain ⟨⟨⟩, s₂, advanced, rest⟩ := bind_eq_ok.mp rest
    obtain ⟨rfl, rfl⟩ := pure_eq_ok.mp rest
    exact .inr ⟨ops, state, s₁, rfl, cracked, handed, advanced⟩

theorem time_eq_error (h : time u s = .error f s') :
    s.state.crack u = .error f ∨
      ∃ ops state, s.state.crack u = .ok (.ok (ops, state)) ∧
        (handOver ops { s with state } = .error f s' ∨
          ∃ s₁, handOver ops { s with state } = .ok () s₁ ∧ advance s₁ = .error f s') := by
  unfold time at h
  rw [get_bind] at h
  rcases bind_eq_error.mp h with failed | ⟨answer, _, decoded, h⟩
  · exact .inl (ofExcept_eq_error failed)
  obtain ⟨cracked, rfl⟩ := ofExcept_eq_ok.mp decoded
  cases answer with
  | error e => exact absurd h pure_ne_error
  | ok made =>
    obtain ⟨ops, state⟩ := made
    have rest : (do handOver ops; advance; pure (.completed true) : Faulting (SingleCore M) Progress)
        { s with state } = .error f s' := h
    refine .inr ⟨ops, state, cracked, ?_⟩
    rcases bind_eq_error.mp rest with failed | ⟨⟨⟩, s₁, handed, rest⟩
    · exact .inl failed
    rcases bind_eq_error.mp rest with failed | ⟨⟨⟩, s₂, -, rest⟩
    · exact .inr ⟨s₁, handed, failed⟩
    · exact absurd rest pure_ne_error

/-- A call that goes through is one of three: the model notes something, the window may advance, or an instruction is
handed over and then the window may advance. -/
theorem perform_cases (h : perform c s = .ok a s') :
    (∃ state, s' = { s with state } ∧ state.clock = s.state.clock ∧ state.instructions = s.state.instructions ∧
      (c.isInstruction && s.state.enabled && a == .completed true) = false) ∨
    (c.isInstruction = false ∧ advance s = .ok () s') ∨
    ∃ u ops state s₁, c = .instruction u ∧ a = .completed true ∧ s.state.enabled = true ∧
      s.state.crack u = .ok (.ok (ops, state)) ∧ handOver ops { s with state } = .ok () s₁ ∧
      advance s₁ = .ok () s' := by
  cases c with
  | instruction u =>
    have look : (if s.state.enabled then time u else pure (.completed true)) s = .ok a s' := h
    split at look
    · rename_i enabled
      rcases time_eq_ok look with ⟨e, rfl, rfl⟩ | ⟨ops, state, s₁, rfl, cracked, handed, advanced⟩
      · exact .inl ⟨_, rfl, rfl, rfl, by simp⟩
      · exact .inr (.inr ⟨u, ops, state, s₁, rfl, rfl, enabled, cracked, handed, advanced⟩)
    · rename_i disabled
      obtain ⟨rfl, rfl⟩ := pure_eq_ok.mp look
      exact .inl ⟨_, rfl, rfl, rfl, by simp [disabled]⟩
  | info known =>
    cases h
    have frame := s.state.pushInfo_eq known
    exact .inl ⟨_, rfl, congrArg (·.clock) frame, congrArg (·.instructions) frame, rfl⟩
  | enable =>
    cases h
    exact .inl ⟨_, rfl, rfl, rfl, rfl⟩
  | disable =>
    cases h
    exact .inl ⟨_, rfl, rfl, rfl, rfl⟩
  | synchronize =>
    obtain ⟨⟨⟩, s₁, advanced, h⟩ := bind_eq_ok.mp h
    obtain ⟨rfl, rfl⟩ := pure_eq_ok.mp h
    exact .inr (.inl ⟨rfl, advanced⟩)

/-- A call that stops does so while an instruction is timed, or while the window advances. -/
theorem perform_eq_error (h : perform c s = .error f s') :
    (∃ u, c = .instruction u ∧ time u s = .error f s') ∨ advance s = .error f s' := by
  cases c with
  | instruction u =>
    have look : (if s.state.enabled then time u else pure (.completed true)) s = .error f s' := h
    split at look
    · exact .inl ⟨u, rfl, look⟩
    · exact absurd look pure_ne_error
  | info | enable | disable => cases h
  | synchronize =>
    rcases bind_eq_error.mp h with failed | ⟨_, _, -, h⟩
    · exact .inr failed
    · exact absurd h pure_ne_error

/-! ## Section 2: Between two calls -/

/-- Nothing is left to do for now: few micro-ops are buffered. -/
structure AtRest (config : Config) (s : SingleCore M) : Prop where
  /-- The application thread runs. -/
  running : s.running = true
  /-- The window has advanced, unless there was little for it to do. -/
  lane : ∃ l, s.window.HasOne config l ∧
    l.thread.buffered ≤ max Barrier.simulateThreshold (2 * config.core.dispatchWidth - 1)

omit [MemorySystem M] in
/-- To note something concerns no window. -/
theorem AtRest.note (h : AtRest config s) (state : ModelState) : AtRest config { s with state } :=
  ⟨h.running, h.lane⟩

/-- Once the window has been let advance, few micro-ops are buffered. -/
theorem AtRest.of_advance (sized : config.Sized) (running : s.running = true) (one : s.window.HasOne config l)
    (enabled : s.state.enabled = true) (h : advance s = .ok () s') : AtRest config s' := by
  rcases advance_eq_ok one h with ⟨rfl, few | disabled⟩ | ⟨w, ran, rfl⟩
  · exact ⟨running, l, one, le_trans few (le_max_left _ _)⟩
  · rw [enabled] at disabled
    cases disabled
  · obtain ⟨l', one', few, -⟩ := one.run sized ran
    exact ⟨running, l', one', by omega⟩

theorem AtRest.advance (h : AtRest config s) (sized : config.Sized) (ran : SingleCore.advance s = .ok () s') :
    AtRest config s' := by
  obtain ⟨l, one, few⟩ := h.lane
  cases enabled : s.state.enabled with
  | true => exact .of_advance sized h.running one enabled ran
  | false =>
    rw [advance_of_few one (.inr enabled)] at ran
    cases ran
    exact h

/-- After every call the core is at rest again. -/
theorem AtRest.perform (h : AtRest config s) (sized : config.Sized) (ran : SingleCore.perform c s = .ok a s') :
    AtRest config s' := by
  rcases perform_cases ran with ⟨state, rfl, -⟩ | ⟨-, advanced⟩ |
    ⟨u, ops, state, s₁, -, -, enabled, cracked, handed, advanced⟩
  · exact h.note state
  · exact h.advance sized advanced
  · -- however many micro-ops are handed over, the window advances afterwards
    obtain ⟨l, one, few⟩ := h.lane
    obtain ⟨w, l', k, -, one', -, -, -, rfl⟩ := handOver_eq_ok (s := { s with state }) sized one handed
    have kept : state.enabled = s.state.enabled := by rw [ModelState.crack_eq_ok cracked]
    exact .of_advance (s := told { s with state } w l') sized h.running (hasOne_told one' _) (kept.trans enabled)
      advanced

theorem serve_eq_ok (h : serve n c s = .ok n' s') : ∃ a, perform c s = .ok a s' ∧
    n' = if c.isInstruction && s.state.enabled && a == .completed true then n + 1 else n := by
  unfold serve at h
  rw [get_bind] at h
  obtain ⟨a, s₁, ran, h⟩ := bind_eq_ok.mp h
  obtain ⟨rfl, rfl⟩ := pure_eq_ok.mp h
  exact ⟨a, ran, rfl⟩

theorem serve_eq_error (h : serve n c s = .error f s') : perform c s = .error f s' := by
  unfold serve at h
  rw [get_bind] at h
  rcases bind_eq_error.mp h with stopped | ⟨a, s₁, -, stopped⟩
  · exact stopped
  · exact absurd stopped pure_ne_error

/-! ## Section 3: Streams through a machine -/

/-- The machine serves a call as the core does. -/
theorem serve_machine (h : AtRest config s) (sized : config.Sized) (n : Nat) (c : StreamCall) :
    Machine.serve 0 n c s.machine = shown (serve n c s) := by
  obtain ⟨l, one, -⟩ := h.lane
  exact shown_bind (y := perform c) (call_machine h.running sized one c) fun _ _ _ => rfl

/-- Likewise for a whole stream. -/
theorem stream_machine (h : AtRest config s) (sized : config.Sized) (n : Nat) (calls : List StreamCall) :
    calls.foldlM (Machine.serve 0) n s.machine = shown (calls.foldlM serve n s) := by
  -- the core is at rest between any two calls, so that its next call is the machine's
  induction calls generalizing n s with
  | nil => rfl
  | cons c calls ih =>
    rw [List.foldlM_cons, List.foldlM_cons]
    refine shown_bind (serve_machine h sized n c) fun n' s' served => ih ?_ n'
    obtain ⟨a, ran, -⟩ := serve_eq_ok served
    exact h.perform sized ran

/-- What holds of a core at rest with a count, and is kept by every call, holds after every stream. -/
theorem stream_induction {P : Nat → SingleCore M → Prop} (sized : config.Sized)
    (step : ∀ {n s c n' s'}, AtRest config s → P n s → serve n c s = .ok n' s' → P n' s') {calls : List StreamCall}
    (h : AtRest config s) (start : P n s) (ran : calls.foldlM serve n s = .ok n' s') :
    AtRest config s' ∧ P n' s' := by
  induction calls generalizing n s with
  | nil =>
    obtain ⟨rfl, rfl⟩ := pure_eq_ok.mp ran
    exact ⟨h, start⟩
  | cons c calls ih =>
    rw [List.foldlM_cons] at ran
    obtain ⟨n₁, s₁, served, ran⟩ := bind_eq_ok.mp ran
    obtain ⟨a, performed, -⟩ := serve_eq_ok served
    exact ih (h.perform sized performed) (step h start served) ran

/-- No call gives the core another number. -/
theorem core_serve (h : AtRest config s) (sized : config.Sized) (served : serve n c s = .ok n' s') :
    s'.core = s.core := by
  have advance : ∀ {s s' : SingleCore M} {l : Lane M}, s.window.HasOne config l → advance s = .ok () s' →
      s'.core = s.core := by
    intro s s' l one advanced
    rcases advance_eq_ok one advanced with ⟨rfl, -⟩ | ⟨w, -, rfl⟩
    · rfl
    · rfl
  obtain ⟨a, ran, -⟩ := serve_eq_ok served
  obtain ⟨l, one, -⟩ := h.lane
  rcases perform_cases ran with ⟨state, rfl, -⟩ | ⟨-, advanced⟩ | ⟨u, ops, state, s₁, -, -, -, -, handed, advanced⟩
  · rfl
  · exact advance one advanced
  · obtain ⟨w, l', k, -, one', -, -, -, rfl⟩ := handOver_eq_ok (s := { s with state }) sized one handed
    exact advance (s := told { s with state } w l') (hasOne_told one' _) advanced

omit [MemorySystem M] in
/-- A new core is at rest. -/
theorem atRest_new {w w₁ : Window M} {memory : M} {predictor : Option Predictor} (valid : config.validate = .ok ())
    (single : config.core.smtThreads = 1) (running : s.running = true) (new : Window.new config = .ok w)
    (made : Window.initializeThread 0 memory predictor w = .ok () w₁)
    (window : s.window = (w₁.repartition #[false]).repartition #[true]) : config.Sized ∧ AtRest config s := by
  obtain ⟨sized, th, built, one⟩ := Window.hasOne_new valid single new made
  rw [← window] at one
  refine ⟨sized, running, _, one, ?_⟩
  obtain ⟨_, rfl⟩ := Thread.new_eq_ok built
  exact Nat.zero_le _

end SingleCore

end CoreTiming
