import CoreTiming.Proofs.Skipping
import CoreTiming.Proofs.Streams

/-!
# When the buffer in front of a window overflows

The ring of a thread has room for a window and `Thread.bufferSlack` micro-ops more.  Between two calls less than a
window is in the window, and less than two dispatch groups are buffered or no more than the threshold up to which the
window does not bother to advance.  So an instruction with one memory operand at most finds room, provided that two
dispatch groups fit into the slack.

The checks on a configuration do not ask for this.  Where two dispatch groups exceed the whole ring, the window never
advances, and the ring overflows under any stream that is long enough.
-/

namespace CoreTiming

open Faulting

/-- Memory, asked for data or for an instruction, stops with the fault. -/
def MemorySystem.Faults (M : Type) [MemorySystem M] (f : Fault) : Prop :=
  MemorySystem.Raises M f ∨ MemorySystem.RaisesOnFetch M f

namespace SingleCore

variable {M : Type} [MemorySystem M] {config : Config} {s s' : SingleCore M} {l : Lane M} {c : StreamCall}
  {ops : List OpInstance} {n : Nat} {f : Fault}

/-! ## Section 1: Narrow cores -/

/-- The window does not stop over a full buffer. -/
theorem stops_of_advance (one : s.window.HasOne config l) (h : advance s = .error f s') :
    f.isBufferFull = false ∨ MemorySystem.Faults M f := by
  obtain ⟨w, stopped⟩ := advance_eq_error one h
  exact ((Window.keepsOn_run _ _ _).stopped stopped).2.imp_right .inl

omit [MemorySystem M] in
/-- Where two dispatch groups fit into the slack and few micro-ops are buffered, there is room for two more. -/
theorem room_of_narrow (one : s.window.HasOne config l) (narrow : 2 * config.core.dispatchWidth ≤ Thread.bufferSlack)
    (few : l.thread.buffered ≤ max Barrier.simulateThreshold (2 * config.core.dispatchWidth - 1))
    (short : ops.length ≤ 2) : l.thread.ring.length + ops.length ≤ l.thread.ring.capacity := by
  have inWindow := one.inWindow
  rw [one.capacity]
  unfold Thread.buffered Barrier.simulateThreshold at few
  unfold Thread.bufferSlack at narrow ⊢
  omega

/-- Two micro-ops at most are handed over without the buffer's being full. -/
theorem stops_of_handOver (sized : config.Sized) (narrow : 2 * config.core.dispatchWidth ≤ Thread.bufferSlack)
    (one : s.window.HasOne config l)
    (few : l.thread.buffered ≤ max Barrier.simulateThreshold (2 * config.core.dispatchWidth - 1))
    (short : ops.length ≤ 2) (stopped : handOver ops s = .error f s') :
    f.isBufferFull = false ∨ MemorySystem.Faults M f := by
  obtain ⟨l', failed⟩ := handOver_eq_error sized one stopped
  exact (Window.stops_of_forM_pushOne (room_of_narrow one narrow few short) failed).imp_right .inr

/-- No call stops over a full buffer. -/
theorem stops_of_perform (h : AtRest config s) (sized : config.Sized)
    (narrow : 2 * config.core.dispatchWidth ≤ Thread.bufferSlack) (single : c.operands ≤ 1)
    (stopped : perform c s = .error f s') : f.isBufferFull = false ∨ MemorySystem.Faults M f := by
  obtain ⟨l, one, few⟩ := h.lane
  rcases perform_eq_error stopped with ⟨u, rfl, failed⟩ | failed
  · rcases time_eq_error failed with failed | ⟨ops, state, cracked, failed | ⟨s₁, handed, failed⟩⟩
    · exact .inl (ModelState.buffers_crack _ _ _ failed)
    · -- the micro-ops find room, for there are two at most
      have short := (ModelState.oneInstruction_crack cracked).length
      have operands : u.instruction.memoryOperands.length ≤ 1 := single
      exact stops_of_handOver (s := { s with state }) sized narrow one few (by omega) failed
    · obtain ⟨w, l', k, -, one', -, -, -, rfl⟩ := handOver_eq_ok (s := { s with state }) sized one handed
      exact stops_of_advance (hasOne_told one' _) failed
  · exact stops_of_advance one failed

/-- No stream of instructions with one memory operand at most stops over a full buffer. -/
theorem stops_of_stream {calls : List StreamCall} (h : AtRest config s) (sized : config.Sized)
    (narrow : 2 * config.core.dispatchWidth ≤ Thread.bufferSlack) (single : ∀ c ∈ calls, c.operands ≤ 1)
    (stopped : calls.foldlM serve n s = .error f s') : f.isBufferFull = false ∨ MemorySystem.Faults M f := by
  induction calls generalizing n s with
  | nil => exact absurd stopped pure_ne_error
  | cons c calls ih =>
    rw [List.foldlM_cons] at stopped
    rcases bind_eq_error.mp stopped with failed | ⟨n₁, s₁, served, stopped⟩
    · exact stops_of_perform h sized narrow (single c List.mem_cons_self) (serve_eq_error failed)
    · obtain ⟨a, performed, -⟩ := serve_eq_ok served
      exact ih (h.perform sized performed) (fun c' mem => single c' (List.mem_cons_of_mem c mem)) stopped

end SingleCore

namespace Machine

variable {M : Type} [MemorySystem M] {config : Config} {core app : Nat} {memory : M} {m m' : Machine M}
  {calls : List StreamCall} {f : Fault}

/-- On a machine with one core whose dispatch groups are so narrow that two of them fit into the slack of the buffer,
the buffer never overflows, whatever stream of instructions with one memory operand at most the core is given, and
whenever it switches timing on and off.  Only memory could say that a buffer is full. -/
theorem never_overflows_if_narrow (valid : config.validate = .ok ()) (single : config.core.smtThreads = 1)
    (kind : config.core.model = .robSmt) (attached : attach config core (some app) memory {} = .ok () m)
    (narrow : 2 * config.core.dispatchWidth ≤ Thread.bufferSlack) (operands : ∀ c ∈ calls, c.operands ≤ 1) :
    (∃ n m', stream 0 calls m = .ok n m') ∨
      ∃ f m', stream 0 calls m = .error f m' ∧ (f.isBufferFull = false ∨ MemorySystem.Faults M f) := by
  obtain ⟨s, period, predictor, w, w₁, rfl, -, running, -, -, new, made, window⟩ :=
    SingleCore.exists_of_attach single kind attached
  obtain ⟨sized, rest⟩ := SingleCore.atRest_new valid single running new made window
  cases ran : stream 0 calls s.machine with
  | ok n m' => exact .inl ⟨n, m', rfl⟩
  | error f m' =>
    refine .inr ⟨f, m', rfl, ?_⟩
    unfold stream at ran
    rw [SingleCore.stream_machine rest sized] at ran
    obtain ⟨s', stopped⟩ := SingleCore.shown_eq_error ran
    exact SingleCore.stops_of_stream rest sized narrow operands stopped

/-- A core whose dispatch groups are as wide as its window. -/
def wideConfig (width : Nat) : Config := { core := { dispatchWidth := width, windowSize := width } }

/-- A stream of additions, which is interrupted by switching timing off. -/
def interrupted : List StreamCall :=
  [.instruction loadingAddition, .disable, .instruction loadingAddition, .enable, .instruction addition, .synchronize]

/-- Whether an operation goes through. -/
def goesThrough {α : Type} : EStateM.Result Fault (Machine FixedMemory) α → Bool
  | .ok _ _ => true
  | .error _ _ => false

theorem eq_ok_of_goesThrough {α : Type} {r : EStateM.Result Fault (Machine FixedMemory) α}
    (h : goesThrough r = true) : ∃ a m, r = .ok a m := by
  cases r with
  | ok a m => exact ⟨a, m, rfl⟩
  | error f m => cases h

/-- The dispatch groups are as wide as this allows. -/
theorem never_overflows_if_narrow_interrupted :
    ∃ m n m', (wideConfig 127).validate = .ok () ∧ (wideConfig 127).core.smtThreads = 1 ∧
      (wideConfig 127).core.model = .robSmt ∧ attach (wideConfig 127) 0 (some 0) nearMemory {} = .ok () m ∧
      2 * (wideConfig 127).core.dispatchWidth ≤ Thread.bufferSlack ∧ (∀ c ∈ interrupted, c.operands ≤ 1) ∧
      stream 0 interrupted m = .ok n m' := by
  have valid : (wideConfig 127).validate = .ok () := by decide +kernel
  have computed : goesThrough ((do attach (wideConfig 127) 0 (some 0) nearMemory; stream 0 interrupted :
      Faulting (Machine FixedMemory) Nat) {}) = true := by decide +kernel
  have operands : ∀ c ∈ interrupted, c.operands ≤ 1 := by decide
  obtain ⟨n, m', both⟩ := eq_ok_of_goesThrough computed
  obtain ⟨⟨⟩, m, attached, ran⟩ := bind_eq_ok.mp both
  rcases never_overflows_if_narrow valid rfl rfl attached (by decide) operands with
    ⟨n', m'', ok⟩ | ⟨f, m'', stopped, -⟩
  · exact ⟨m, n', m'', valid, rfl, rfl, attached, by decide, operands, ok⟩
  · rw [ran] at stopped
    cases stopped

end Machine

/-! ## Section 2: Wide cores -/

/-- `k` micro-ops have been pushed to a thread that could dispatch, and none has entered its window. -/
structure Thread.Piled (k : Nat) (now : Time) (th : Thread) : Prop where
  /-- They are in the ring. -/
  length : th.ring.length = k
  /-- As many numbers have been given out. -/
  nextSeq : th.nextSeq = k
  /-- None is in the window. -/
  inWindow : th.inWindow = 0
  /-- More are to come. -/
  more : th.endOfStream = false
  /-- The front end has come up. -/
  awake : th.stalledUntil ≤ now
  /-- The thread is not ahead of the core. -/
  here : th.now ≤ now

namespace Window

variable {l l' : Lane FixedMemory} {w : Window FixedMemory} {config : Config} {u : OpInstance} {k : Nat}
  {now : Time}

/-- Instructions that are found in the first-level cache come without delay. -/
theorem fetch_of_near (near : l.memory.instruction.hit = .l1i) (period : Period) (u : OpInstance) :
    fetch period u l = .ok u l := by
  unfold fetch
  split
  · show (if l.memory.instruction.hit = .l1i then pure u else _ : Faulting (Lane FixedMemory) OpInstance) l = _
    rw [if_pos near]
    rfl
  · rfl

/-- While there is room, a micro-op is taken in. -/
theorem exists_pushOne (period : Period) (near : l.memory.instruction.hit = .l1i) (kept : u.squashed = false)
    (room : l.thread.ring.length < l.thread.ring.capacity) (counted : l.thread.nextSeq < Word.max) :
    ∃ th, pushOne period 0 u l = .ok () { l with thread := th } ∧
      enqueue 0 (checkPrediction l.thread.predictor u) l.thread = .ok () th := by
  have added : Word.add l.thread.nextSeq 1 = .ok (l.thread.nextSeq + 1) := Word.add_eq_ok_iff.mpr ⟨counted, rfl⟩
  have free : l.thread.ring.isFull = false := by simpa [Ring.isFull] using room
  obtain ⟨th, queued⟩ : ∃ th, enqueue 0 (checkPrediction l.thread.predictor u) l.thread = .ok () th := by
    unfold enqueue
    rw [modify_bind, get_bind, if_neg (by simpa using free)]
    dsimp only
    rw [added]
    exact ⟨_, rfl⟩
  refine ⟨th, ?_, queued⟩
  unfold pushOne
  rw [if_neg (by simp [kept]), bind_of_ok (fetch_of_near near period u), get_bind]
  exact zoom_eq_ok.mpr ⟨th, queued, rfl⟩

/-- Where there is none, it is refused. -/
theorem refuses_pushOne (period : Period) (near : l.memory.instruction.hit = .l1i) (kept : u.squashed = false)
    (full : l.thread.ring.capacity ≤ l.thread.ring.length) :
    ∃ l', pushOne period 0 u l = .error (.bufferFull 0 l.thread.ring.length) l' := by
  have none : l.thread.ring.isFull = true := by simpa [Ring.isFull] using full
  unfold pushOne
  rw [if_neg (by simp [kept]), bind_of_ok (fetch_of_near near period u), get_bind]
  unfold Faulting.zoom enqueue
  dsimp only
  rw [modify_bind, get_bind, if_pos (by simpa using none)]
  exact ⟨_, rfl⟩

/-- Another micro-op is put on the pile. -/
theorem exists_push (one : w.HasOne config l) (sized : config.Sized) (near : l.memory.instruction.hit = .l1i)
    (piled : l.thread.Piled k w.clock.now) (kept : u.squashed = false)
    (room : k < config.core.windowSize + Thread.bufferSlack) :
    ∃ (v : Window FixedMemory) (l' : Lane FixedMemory), Window.push 0 [u] w = .ok () v ∧ v.HasOne config l' ∧
      l'.memory.instruction.hit = .l1i ∧ l'.thread.Piled (k + 1) v.clock.now := by
  have large := sized.room
  obtain ⟨th, taken, queued⟩ := exists_pushOne w.clock.period near kept
    (by rw [piled.length, one.capacity]; exact room) (by rw [piled.nextSeq]; omega)
  have pushed : Window.push 0 [u] w = .ok () { w with lanes := #[{ l with thread := th }] } := by
    unfold Window.push
    rw [get_bind]
    refine (onLane_alone_eq_ok one.alone).mpr ⟨_, ?_, rfl⟩
    show (pushOne w.clock.period 0 u >>= fun _ => pure ()) l = _
    rw [bind_of_ok taken]
    rfl
  obtain ⟨l', -, one', -⟩ := one.push sized pushed
  obtain rfl : { l with thread := th } = l' := by simpa using one'.alone
  refine ⟨_, _, pushed, one', near, ?_⟩
  have length : th.ring.length = k + 1 := (fills_enqueue queued).length.trans (congrArg (· + 1) piled.length)
  rw [(enqueue_eq_ok queued).1]
  exact ⟨length, congrArg (· + 1) piled.nextSeq, piled.inWindow, piled.more, piled.awake, piled.here⟩

/-- A thread that could dispatch but lacks two dispatch groups keeps its window from advancing. -/
theorem cannot_of_piled (one : w.HasOne config l) (piled : l.thread.Piled k w.clock.now)
    (few : k < 2 * config.core.dispatchWidth) : w.canExecute #[true] = false := by
  have inWindow := one.inWindow
  have could : l.thread.canDispatch true w.share w.clock.now = true := by
    unfold Thread.canDispatch
    rw [one.share]
    simp [piled.awake, piled.here, inWindow]
  have starved : l.thread.isStarved w.config.core.dispatchWidth = true := by
    unfold Thread.isStarved Thread.buffered
    rw [one.parameters, piled.more, piled.length, piled.inWindow]
    simp [few]
  rw [canExecute_alone one.alone]
  unfold isSupplied
  rw [show (#[true] : Running).getD 0 false = true from rfl, could, starved]
  rfl

theorem piled_toldLane (piled : l.thread.Piled k now) : (toldLane now l).thread.Piled k now :=
  ⟨piled.length, piled.nextSeq, piled.inWindow, piled.more, piled.awake, max_le piled.here le_rfl⟩

end Window

namespace SingleCore

variable {config : Config} {period : Period} {s s₁ : SingleCore FixedMemory} {l : Lane FixedMemory} {k n : Nat}
  {u : InstrInstance} {ops : List OpInstance}

/-- `k` micro-ops have been handed to a core that times instructions, and its window has never advanced. -/
structure Piled (config : Config) (period : Period) (k : Nat) (s : SingleCore FixedMemory) : Prop where
  /-- Timing is on. -/
  enabled : s.state.enabled = true
  /-- What instructions cost. -/
  costs : s.state.costs = config.core.instructionCosts
  /-- How long a cycle is. -/
  period : s.state.clock.period = period
  /-- The window has one thread, where they are piled up. -/
  lane : ∃ l, s.window.HasOne config l ∧ l.memory.instruction.hit = .l1i ∧ l.thread.Piled k s.window.clock.now

/-- A window that cannot go on stays as it is, whoever drives it. -/
theorem advance_of_cannot (one : s.window.HasOne config l) (cannot : s.window.canExecute #[true] = false) :
    ∃ driver, advance s = .ok () { s with driver } := by
  rcases few_or_many s l with few | ⟨enabled, many⟩
  · exact ⟨s.driver, advance_of_few one few⟩
  · have ran : Window.execute #[true] s.window = .ok () s.window := by
      show Window.run Window.toEvent #[true] Window.lastCycles s.window = _
      exact Window.run_of_stop (by simp [cannot])
    refine ⟨some 0, ?_⟩
    rw [advance_of_many one enabled many, ran]

/-- Another instruction is put on the pile. -/
theorem Piled.serve (h : Piled config period k s) (sized : config.Sized) (plain : u.instruction.memoryOperands = [])
    (decoded : u.decode config.core.instructionCosts period = .ok ops)
    (room : k < config.core.windowSize + Thread.bufferSlack) (wide : k + 1 < 2 * config.core.dispatchWidth) (n : Nat) :
    ∃ s', SingleCore.serve n (.instruction u) s = .ok (n + 1) s' ∧ Piled config period (k + 1) s' := by
  obtain ⟨l, one, near, piled⟩ := h.lane
  rw [← h.costs, ← h.period] at decoded
  obtain ⟨v, kept, cracked⟩ := ModelState.exists_crack plain decoded
  obtain ⟨w, l', pushed, one', near', piled'⟩ := Window.exists_push one sized near piled kept room
  have told := hasOne_told one' s
  have handed : handOver [v] s = .ok () (s.told w l') := by
    unfold handOver
    have answered : (do Window.push 0 [v]; Window.returnLatency 0 false) s.window = _ :=
      (bind_of_ok pushed).trans (Window.returnLatency_alone one'.alone)
    rw [bind_of_ok (onWindow_eq_ok.mpr ⟨_, answered, rfl⟩)]
    rfl
  have piled' := Window.piled_toldLane piled'
  obtain ⟨driver, advanced⟩ := advance_of_cannot told (Window.cannot_of_piled told piled' wide)
  have timed : perform (.instruction u) s = .ok (.completed true) { s.told w l' with driver } := by
    rw [perform_instruction h.enabled, time_of_cracked cracked, bind_of_ok handed, bind_of_ok advanced]
    rfl
  refine ⟨{ s.told w l' with driver }, ?_, h.enabled, h.costs, h.period, _, told, near', piled'⟩
  unfold SingleCore.serve
  rw [get_bind, bind_of_ok timed, h.enabled]
  rfl

/-- The buffer is full, and the next instruction overflows it. -/
theorem Piled.overflow (h : Piled config period (config.core.windowSize + Thread.bufferSlack) s)
    (plain : u.instruction.memoryOperands = []) (decoded : u.decode config.core.instructionCosts period = .ok ops)
    (n : Nat) :
    ∃ s', SingleCore.serve n (.instruction u) s =
      .error (.bufferFull 0 (config.core.windowSize + Thread.bufferSlack)) s' := by
  obtain ⟨l, one, near, piled⟩ := h.lane
  rw [← h.costs, ← h.period] at decoded
  obtain ⟨v, kept, cracked⟩ := ModelState.exists_crack plain decoded
  obtain ⟨l', refused⟩ := Window.refuses_pushOne s.window.clock.period near kept
    (by rw [piled.length, one.capacity])
  rw [piled.length] at refused
  have pushed : Window.push 0 [v] s.window = .error (.bufferFull 0 (config.core.windowSize + Thread.bufferSlack))
      { s.window with lanes := #[l'] } := by
    have first : [v].forM (Window.pushOne s.window.clock.period 0) l =
        .error (.bufferFull 0 (config.core.windowSize + Thread.bufferSlack)) l' := bind_of_error refused
    unfold Window.push
    rw [get_bind, Window.onLane_zero one.alone, first]
  have handed : handOver [v] s = .error (.bufferFull 0 (config.core.windowSize + Thread.bufferSlack))
      { s with window := { s.window with lanes := #[l'] } } := by
    unfold handOver
    refine bind_of_error ?_
    unfold onWindow Faulting.zoom
    dsimp only
    rw [bind_of_error pushed]
  have stopped : ∃ s', perform (.instruction u) s =
      .error (.bufferFull 0 (config.core.windowSize + Thread.bufferSlack)) s' := by
    rw [perform_instruction h.enabled, time_of_cracked cracked]
    exact ⟨_, bind_of_error handed⟩
  obtain ⟨s', stopped⟩ := stopped
  unfold SingleCore.serve
  rw [get_bind]
  exact ⟨s', bind_of_error stopped⟩

/-- While two dispatch groups exceed what the ring can hold, instructions pile up until it overflows. -/
theorem Piled.overflows (h : Piled config period k s) (sized : config.Sized)
    (plain : u.instruction.memoryOperands = []) (decoded : u.decode config.core.instructionCosts period = .ok ops)
    (wide : config.core.windowSize + Thread.bufferSlack < 2 * config.core.dispatchWidth) {more : Nat}
    (all : k + more = config.core.windowSize + Thread.bufferSlack) (n : Nat) :
    ∃ s', (List.replicate (more + 1) (.instruction u)).foldlM SingleCore.serve n s =
      .error (.bufferFull 0 (config.core.windowSize + Thread.bufferSlack)) s' := by
  -- the induction is on the room that is left in the ring
  induction more generalizing k n s with
  | zero =>
    obtain rfl : k = config.core.windowSize + Thread.bufferSlack := all
    obtain ⟨s', full⟩ := h.overflow plain decoded n
    exact ⟨s', bind_of_error full⟩
  | succ more ih =>
    obtain ⟨s₁, served, piled⟩ := h.serve sized plain decoded (by omega) (by omega) n
    obtain ⟨s', full⟩ := ih piled (by omega) (n + 1)
    refine ⟨s', ?_⟩
    rw [List.replicate_succ, List.foldlM_cons, bind_of_ok served]
    exact full

end SingleCore

namespace Machine

variable {config : Config} {core app : Nat} {memory : FixedMemory} {m : Machine FixedMemory}
  {u : InstrInstance}

/-- Where two dispatch groups exceed what the ring can hold, a long stream of instructions overflows it, even if the
instructions access no memory. -/
theorem overflows_if_wide (valid : config.validate = .ok ()) (single : config.core.smtThreads = 1)
    (kind : config.core.model = .robSmt) (attached : attach config core (some app) memory {} = .ok () m)
    (near : memory.instruction.hit = .l1i) (plain : u.instruction.memoryOperands = [])
    (decoded : ∀ period, config.period = .ok period →
      ∃ ops, u.decode config.core.instructionCosts period = .ok ops)
    (wide : config.core.windowSize + Thread.bufferSlack < 2 * config.core.dispatchWidth) :
    ∃ m', stream 0 (List.replicate (config.core.windowSize + Thread.bufferSlack + 1) (.instruction u)) m =
      .error (.bufferFull 0 (config.core.windowSize + Thread.bufferSlack)) m' := by
  obtain ⟨s, period, predictor, w, w₁, rfl, -, running, ticks, state, new, made, window⟩ :=
    SingleCore.exists_of_attach single kind attached
  obtain ⟨ops, decoded⟩ := decoded period ticks
  obtain ⟨sized, th, built, one⟩ := Window.hasOne_new valid single new made
  rw [← window] at one
  obtain ⟨_, rfl⟩ := Thread.new_eq_ok built
  have rest : SingleCore.AtRest config s := ⟨running, _, one, Nat.zero_le _⟩
  have piled : SingleCore.Piled config period 0 s := by
    refine ⟨?_, ?_, ?_, _, one, near, ⟨rfl, rfl, rfl, rfl, Time.zero_le _, Time.zero_le _⟩⟩
    · rw [state]
      rfl
    · rw [state]
      rfl
    · rw [state]
      rfl
  obtain ⟨s', full⟩ := piled.overflows sized plain decoded wide (Nat.zero_add _) 0
  refine ⟨s'.machine, ?_⟩
  unfold stream
  rw [SingleCore.stream_machine rest sized, full]
  rfl

/-- The buffer overflows under additions that take no operands from memory. -/
theorem overflows_under_additions :
    ∃ m m' : Machine FixedMemory, (wideConfig 256).validate = .ok () ∧ (wideConfig 256).core.smtThreads = 1 ∧
      (wideConfig 256).core.model = .robSmt ∧ attach (wideConfig 256) 0 (some 0) nearMemory {} = .ok () m ∧
      (∀ c ∈ List.replicate 512 (StreamCall.instruction addition), c.operands ≤ 1) ∧
      stream 0 (List.replicate 512 (.instruction addition)) m = .error (.bufferFull 0 511) m' := by
  have valid : (wideConfig 256).validate = .ok () := by decide +kernel
  have computed : goesThrough (attach (wideConfig 256) 0 (some 0) nearMemory {}) = true := by decide +kernel
  obtain ⟨_, m, attached⟩ := eq_ok_of_goesThrough computed
  obtain ⟨m', full⟩ :=
    overflows_if_wide valid rfl rfl attached rfl (u := addition) rfl (fun _ _ => ⟨_, rfl⟩) (by decide)
  refine ⟨m, m', valid, rfl, rfl, attached, fun c mem => ?_, full⟩
  rw [List.eq_of_mem_replicate mem]
  exact Nat.zero_le _

end Machine

end CoreTiming
