import CoreTiming.Proofs.Completion
import CoreTiming.Proofs.Streams

/-!
# What a stream comes to

After a stream has been given to a machine with one core and drained, the core has counted the instructions that were
timed, and shows the time of its window.

The window of the core keeps a record in which every instruction is one micro-op that retires (`Window.Holds`), and
the core counts what the thread has reported and shows the time that it has been told (`SingleCore.InStep`).  When all
micro-ops have left the window and the thread has reported them, the count is that of the record.
-/

namespace CoreTiming

open Faulting

/-! ## Section 1: The record of a window -/

namespace Chronicle

variable {M : Type} [MemorySystem M] {stride : Window.Stride M} {config : Config} {c : Chronicle M}
  {calls : List (Window.Call M)} {call : Window.Call M} {v : Window M}

/-- A series of calls goes on with a call that goes through. -/
theorem exists_of_concat (made : of stride config calls = .ok c) (ran : call.perform stride c.window = .ok () v) :
    ∃ c', of stride config (calls ++ [call]) = .ok c' ∧ c'.window = v ∧
      ∀ i, c'.pushed i = c.pushed i ++ call.takesIn i := by
  refine ⟨_, of_concat_eq_ok.mpr ⟨c, made, after_eq_ok.mpr ⟨v, ran, rfl⟩⟩, rfl, fun _ => rfl⟩

end Chronicle

namespace Window

variable {M : Type} [MemorySystem M] {config : Config} {w v : Window M} {n : Nat} {l : Lane M}

/-- The window is what calls have made of a new one, in the course of which thread 0 was given `n` micro-ops that end
an instruction. -/
def Holds (config : Config) (n : Nat) (w : Window M) : Prop :=
  ∃ calls c, Chronicle.of toEvent config calls = .ok c ∧ c.window = w ∧ (∀ i, Unlinked (c.pushed i)) ∧
    (c.pushed 0).countP (·.op.last) = n

theorem holds_new (new : Window.new config = .ok w) : w.Holds config 0 :=
  ⟨[], { window := w }, Except.bind_eq_ok.mpr ⟨w, new, rfl⟩, rfl, fun _ => unlinked_nil, rfl⟩

/-- A call adds what it hands to the thread. -/
theorem Holds.perform (h : w.Holds config n) (call : Call M) (unlinked : ∀ i, Unlinked (call.takesIn i))
    (ran : call.perform toEvent w = .ok () v) : v.Holds config (n + (call.takesIn 0).countP (·.op.last)) := by
  obtain ⟨calls, c, made, rfl, before, rfl⟩ := h
  obtain ⟨c', made', window, pushed⟩ := Chronicle.exists_of_concat made ran
  refine ⟨_, c', made', window, fun i u mem => ?_, ?_⟩
  · rw [pushed i] at mem
    rcases List.mem_append.mp mem with old | new
    · exact before i u old
    · exact unlinked i u new
  · rw [pushed 0, List.countP_append]

/-- A call that hands over nothing adds nothing. -/
theorem Holds.perform_of_nothing (h : w.Holds config n) (call : Call M) (nothing : ∀ i, call.takesIn i = [])
    (ran : call.perform toEvent w = .ok () v) : v.Holds config n := by
  have next := h.perform call (fun i => nothing i ▸ unlinked_nil) ran
  rwa [nothing 0] at next

/-- The micro-ops of an instruction add one. -/
theorem Holds.push {operands : Nat} {ops : List OpInstance} (h : w.Holds config n)
    (instruction : OneInstruction operands ops) (ran : Window.push 0 ops w = .ok () v) : v.Holds config (n + 1) := by
  have all : ops.filter (!·.squashed) = ops := by
    rw [List.filter_eq_self]
    intro u mem
    simp [instruction.kept u mem]
  have taken : ∀ i, (Call.push 0 ops : Call M).takesIn i = if 0 = i then ops else [] := by
    intro i
    show (if 0 = i then ops.filter (!·.squashed) else []) = _
    rw [all]
  have next := h.perform (.push 0 ops) (fun i => ?_) ran
  · rwa [taken 0, if_pos rfl, instruction.last] at next
  · rw [taken i]
    split
    · exact instruction.unlinked
    · exact unlinked_nil

theorem Holds.steady (h : w.Holds config n) : w.Steady := by
  obtain ⟨calls, c, made, rfl, unlinked, -⟩ := h
  exact Chronicle.steady_of made unlinked

theorem Holds.config_eq (h : w.Holds config n) : w.config = config := by
  obtain ⟨calls, c, made, rfl, -⟩ := h
  exact (Chronicle.truthful_of made).config_eq

/-- Once everything has left, as many instructions have been retired. -/
theorem Holds.retired_eq (h : w.Holds config n) (drained : w.Drained) (found : w.lanes[0]? = some l) :
    l.thread.retired = n := by
  obtain ⟨calls, c, made, rfl, -, rfl⟩ := h
  have truthful := Chronicle.truthful_of made
  have counted := (truthful.reachable 0 l found).inOrder.counted
  have left := congrArg (List.countP fun u : OpInstance => u.op.last) (truthful.retired_of_drained drained 0)
  rw [List.countP_map, List.countP_map] at left
  exact counted.trans left

/-- What is in the window is in the ring. -/
theorem Holds.inWindow_le (h : w.Holds config n) (found : w.lanes[0]? = some l) :
    l.thread.inWindow ≤ l.thread.ring.length :=
  (h.steady.accounted 0 l found).inWindow_le

end Window

namespace SingleCore

variable {M : Type} [MemorySystem M] {config : Config} {s s' : SingleCore M} {l l' : Lane M} {c : StreamCall}
  {ops : List OpInstance} {n n' operands : Nat}

/-! ## Section 2: The model and its window -/

/-- The model shows what the thread on the lane has been told. -/
structure Shows (s : SingleCore M) (l : Lane M) : Prop where
  /-- The time it has been told. -/
  clock : s.state.clock.now = l.thread.now
  /-- The instructions it has reported. -/
  count : s.state.instructions = l.thread.reported
  /-- It has reported none that has not been retired. -/
  reported : l.thread.reported ≤ l.thread.retired
  /-- It is not ahead of its core. -/
  behind : l.thread.now ≤ s.window.clock.now

omit [MemorySystem M] in
/-- What the thread has not told yet is added. -/
theorem Shows.told {w : Window M} (h : { s with window := w }.Shows l) :
    (s.told w l).Shows (Window.toldLane w.clock.now l) := by
  refine ⟨?_, ?_, le_refl _, max_le h.behind le_rfl⟩
  · show (s.state.clock.addLatency (w.clock.now - l.thread.now)).now = max l.thread.now w.clock.now
    rw [← h.clock]
    exact Clock.now_addLatency_sub _ _
  · show s.state.instructions + (l.thread.retired - l.thread.reported) = l.thread.retired
    rw [← Nat.add_sub_cancel' h.reported, ← h.count, Nat.add_sub_cancel_left]

omit [MemorySystem M] in
/-- What is pushed tells the thread nothing. -/
theorem Shows.push (h : s.Shows l) {k : Nat} (fills : l.thread.Fills k l'.thread) {w : Window M}
    (clock : w.clock = s.window.clock) : { s with window := w }.Shows l' := by
  refine ⟨?_, ?_, ?_, ?_⟩
  · rw [fills.frame]
    exact h.clock
  · rw [fills.frame]
    exact h.count
  · rw [fills.frame]
    exact h.reported
  · show l'.thread.now ≤ w.clock.now
    rw [fills.frame, clock]
    exact h.behind

/-- However far the window runs, the model shows what its thread was told before. -/
theorem Shows.execute (h : s.Shows l) {v : Window M} (before : s.window.lanes[0]? = some l)
    (ran : Window.execute #[true] s.window = .ok () v) (after : v.lanes[0]? = some l') :
    { s with window := v }.Shows l' := by
  obtain ⟨l'', found, kept⟩ := (Window.keepsOn_run _ _ _).done ran 0 l before
  obtain rfl : l'' = l' := Option.some.inj (found.symm.trans after)
  refine ⟨h.clock.trans kept.now.symm, h.count.trans kept.reported.symm, ?_, ?_⟩
  · rw [kept.reported]
    exact h.reported.trans kept.retired
  · rw [kept.now]
    exact h.behind.trans (Window.le_run ran)

/-- The window holds what has been timed, and the model shows what its thread has been told. -/
structure InStep (config : Config) (n : Nat) (s : SingleCore M) : Prop where
  /-- `n` instructions have gone into the window. -/
  holds : s.window.Holds config n
  /-- The model shows what its thread has been told. -/
  thread : ∀ l, s.window.lanes[0]? = some l → s.Shows l

/-- To note something that concerns neither clock nor count. -/
theorem InStep.note (h : InStep config n s) {state : ModelState} (clock : state.clock = s.state.clock)
    (count : state.instructions = s.state.instructions) : InStep config n { s with state } := by
  refine ⟨h.holds, fun l found => ?_⟩
  have before := h.thread l found
  exact ⟨(congrArg (·.now) clock).trans before.clock, count.trans before.count, before.reported, before.behind⟩

/-- The micro-ops of an instruction are handed over. -/
theorem InStep.handOver (h : InStep config n s) (sized : config.Sized) (one : s.window.HasOne config l)
    (instruction : OneInstruction operands ops) (ran : SingleCore.handOver ops s = .ok () s') :
    InStep config (n + 1) s' := by
  obtain ⟨w, l', k, pushed, one', -, fills, clock, rfl⟩ := handOver_eq_ok sized one ran
  have reported : (do let _ ← Window.returnLatency 0 false; pure () : Faulting (Window M) Unit) w =
      .ok () { w with lanes := #[Window.toldLane w.clock.now l'] } := by
    rw [bind_of_ok (Window.returnLatency_alone one'.alone)]
    rfl
  have holds := h.holds.push instruction pushed
  refine ⟨holds.perform_of_nothing (.returnLatency 0 false) (fun _ => rfl) reported, ?_⟩
  intro l'' found
  obtain rfl : Window.toldLane w.clock.now l' = l'' := Option.some.inj found
  exact ((h.thread l one.found).push fills clock).told

/-- The window may advance. -/
theorem InStep.advance (h : InStep config n s) (one : s.window.HasOne config l)
    (ran : SingleCore.advance s = .ok () s') : InStep config n s' := by
  rcases advance_eq_ok one ran with ⟨rfl, -⟩ | ⟨w, executed, rfl⟩
  · exact h
  · refine ⟨h.holds.perform_of_nothing (.execute #[true]) (fun _ => rfl) executed, fun l' found => ?_⟩
    have shown := (h.thread l one.found).execute one.found executed found
    exact ⟨shown.clock, shown.count, shown.reported, shown.behind⟩

/-- Every call that is served keeps in step. -/
theorem InStep.serve (rest : AtRest config s) (sized : config.Sized) (h : InStep config n s)
    (served : SingleCore.serve n c s = .ok n' s') : InStep config n' s' := by
  obtain ⟨a, ran, rfl⟩ := serve_eq_ok served
  obtain ⟨l, one, -⟩ := rest.lane
  rcases perform_cases ran with ⟨state, rfl, clock, count, uncounted⟩ | ⟨other, advanced⟩ |
    ⟨u, ops, state, s₁, rfl, rfl, enabled, cracked, handed, advanced⟩
  · rw [uncounted]
    exact h.note clock count
  · rw [other]
    exact h.advance one advanced
  · rw [enabled]
    have frame := ModelState.crack_eq_ok cracked
    have noted : InStep config n { s with state } :=
      h.note (congrArg (·.clock) frame) (congrArg (·.instructions) frame)
    have next := noted.handOver sized one (ModelState.oneInstruction_crack cracked) handed
    obtain ⟨w, l', k, -, one', -, -, -, rfl⟩ := handOver_eq_ok (s := { s with state }) sized one handed
    exact next.advance (hasOne_told one' _) advanced

/-- A new core is in step. -/
theorem inStep_new {w w₁ : Window M} {memory : M} {predictor : Option Predictor} {period : Period}
    (state : s.state = .new period config.core.instructionCosts) (new : Window.new config = .ok w)
    (made : Window.initializeThread 0 memory predictor w = .ok () w₁)
    (window : s.window = (w₁.repartition #[false]).repartition #[true]) : InStep config 0 s := by
  have first := (Window.holds_new new).perform_of_nothing (.initializeThread 0 memory predictor)
    (fun _ => rfl) made
  have second : (w₁.repartition #[false]).Holds config 0 :=
    first.perform_of_nothing (.repartition #[false]) (fun _ => rfl) rfl
  have third : ((w₁.repartition #[false]).repartition #[true]).Holds config 0 :=
    second.perform_of_nothing (.repartition #[true]) (fun _ => rfl) rfl
  rw [← window] at third
  refine ⟨third, fun l found => ?_⟩
  obtain ⟨period', rfl⟩ := Window.new_eq_ok new
  obtain ⟨-, th, built, rfl⟩ := Window.initializeThread_eq_ok made
  rw [window] at found
  obtain rfl : { thread := th, memory } = l := by simpa [Window.repartition] using found
  obtain ⟨_, rfl⟩ := Thread.new_eq_ok built
  rw [← window] at *
  refine ⟨?_, ?_, le_refl _, Time.zero_le _⟩
  · rw [state]
    rfl
  · rw [state]
    rfl

/-! ## Section 3: The end of a stream -/

/-- The lane of a thread that gets no more micro-ops. -/
def endedLane (l : Lane M) : Lane M := { l with thread := { l.thread with endOfStream := true } }

/-- The window of a core whose stream has ended. -/
def endedWindow (s : SingleCore M) (l : Lane M) : Window M := { s.window with lanes := #[endedLane l] }

/-- The core after its window has come to `v`, and the thread has told all. -/
def finished (s : SingleCore M) (v : Window M) (l : Lane M) (driver : Option Nat) : SingleCore M :=
  { s.told (v.repartition #[false]) l with running := false, driver }

omit [MemorySystem M] in
theorem hasOne_endedWindow (one : s.window.HasOne config l) : (s.endedWindow l).HasOne config (endedLane l) :=
  ⟨one.parameters, one.share, rfl, one.capacity, one.inWindow, one.buffered⟩

theorem markEndOfStream_eq (one : s.window.HasOne config l) :
    Window.markEndOfStream 0 s.window = .ok () (s.endedWindow l) := Window.modifyThread_alone one.alone _

omit [MemorySystem M] in
theorem isDrained_eq {w : Window M} (alone : w.lanes = #[l]) :
    w.isDrained 0 = .ok (decide (l.thread.ring.length = 0)) := by
  have empty : l.thread.ring.isEmpty = decide (l.thread.ring.length = 0) := by
    unfold Ring.isEmpty Ring.length
    rw [decide_eq_decide]
    omega
  unfold Window.isDrained
  rw [Window.thread_alone alone, ← empty]
  rfl

omit [MemorySystem M] in
theorem isDrained_endedWindow (s : SingleCore M) (l : Lane M) :
    (s.endedWindow l).isDrained 0 = .ok (decide (l.thread.ring.length = 0)) := isDrained_eq (l := endedLane l) rfl

/-- A window that has nothing left does nothing. -/
theorem execute_of_empty {w : Window M} (alone : w.lanes = #[l]) (inside : l.thread.inWindow ≤ l.thread.ring.length)
    (empty : l.thread.ring.length = 0) : Window.execute #[true] w = .ok () w := by
  have none : l.thread.inWindow = 0 := by omega
  have idle : l.thread.hasWork true = false := by
    unfold Thread.hasWork Thread.buffered
    rw [empty, none]
    rfl
  have cannot : ¬w.canExecute #[true] = true := by
    rw [Window.canExecute_alone alone, show (#[true] : Running).getD 0 false = true from rfl, idle, Bool.and_false]
    exact Bool.false_ne_true
  show Window.run Window.toEvent #[true] Window.lastCycles w = _
  exact Window.run_of_stop cannot

/-- The host thread of the core drains its slot. -/
theorem session_finish (running : s.running = true) (enabled : s.state.enabled = true)
    (one : s.window.HasOne config l) (inside : l.thread.inWindow ≤ l.thread.ring.length) {v : Window M}
    (ran : Window.execute #[true] (s.endedWindow l) = .ok () v) (alone : v.lanes = #[l'])
    (drained : l'.thread.ring.length = 0) :
    ∃ driver, Session.call 0 .finish { barrier := s.barrier, hosts := #[.outside] } =
      .ok () { barrier := .single (.outside s.core s.app false) (v.repartition #[false]) true driver
               hosts := #[.outside] } := by
  have ended := hasOne_endedWindow one
  have left := isDrained_endedWindow s l
  rw [barrier_eq running enabled]
  -- the loop of the host thread looks whether anything is left before it lets the window run
  by_cases empty : l.thread.ring.length = 0
  · obtain rfl : s.endedWindow l = v := by simpa [execute_of_empty ended.alone inside empty] using ran
    rw [decide_eq_true empty] at left
    exact ⟨_, Session.call_finish_of_drained _ _ _ (markEndOfStream_eq one) left (repartition_outside _ _ _ _)⟩
  · rw [decide_eq_false empty] at left
    have isOver : v.isDrained 0 = .ok true := by rw [isDrained_eq alone, drained, decide_eq_true rfl]
    obtain ⟨enough, answered⟩ := exists_hasEnough ended
    exact ⟨_, Session.call_finish_of_left _ _ _ (markEndOfStream_eq one) answered (surplus_eq ended) ended.buffered left
      ((execute_outside _ _ _).trans ran) isOver (repartition_outside _ _ _ _)⟩

/-- Or its window stops. -/
theorem session_finish_of_error (running : s.running = true) (enabled : s.state.enabled = true)
    (one : s.window.HasOne config l) (inside : l.thread.inWindow ≤ l.thread.ring.length) {v : Window M} {f : Fault}
    (stopped : Window.execute #[true] (s.endedWindow l) = .error f v) :
    ∃ t, Session.call 0 .finish { barrier := s.barrier, hosts := #[.outside] } = .error f t := by
  have ended := hasOne_endedWindow one
  have left := isDrained_endedWindow s l
  rw [barrier_eq running enabled]
  by_cases empty : l.thread.ring.length = 0
  · rw [execute_of_empty ended.alone inside empty] at stopped
    cases stopped
  · rw [decide_eq_false empty] at left
    obtain ⟨enough, answered⟩ := exists_hasEnough ended
    exact Session.call_finish_of_error _ _ _ (markEndOfStream_eq one) answered (surplus_eq ended) ended.buffered left
      ((execute_outside _ _ _).trans stopped)

/-- The machine finishes the stream of its core: the window runs, and what its thread has not told yet is added. -/
theorem call_finish_machine (running : s.running = true) (enabled : s.state.enabled = true)
    (one : s.window.HasOne config l) (inside : l.thread.inWindow ≤ l.thread.ring.length) {v : Window M}
    (ran : Window.execute #[true] (s.endedWindow l) = .ok () v) (alone : v.lanes = #[l'])
    (drained : l'.thread.ring.length = 0) :
    ∃ driver, Machine.call 0 .finish s.machine = .ok (.completed true) (s.finished v l' driver).machine := by
  obtain ⟨driver, called⟩ := session_finish running enabled one inside ran alone drained
  -- the core after the session, before what is left is collected
  let s₂ : SingleCore M := { s with window := v.repartition #[false], running := false, driver }
  have through : Machine.onGroup s.core (Session.call 0 .finish) s.machine = .ok () s₂.machine := by
    have barrier : s₂.barrier = .single (.outside s.core s.app false) (v.repartition #[false]) true driver := by
      unfold SingleCore.barrier
      rw [show s₂.state.enabled = true from enabled]
    unfold machine
    rw [onGroup_inside, called, barrier]
    rfl
  have asked : Machine.onBarrier s.core (Barrier.returnLatency 0) s₂.machine =
      shown (onWindow (Window.returnLatency 0 false) s₂) := by
    refine onBarrier_machine (s := s₂) ?_
    show Barrier.onEngine (Window.returnLatency 0 false) s₂.barrier = _
    unfold Barrier.onEngine Faulting.zoom
    dsimp only
    rw [show s₂.barrier.engine = s₂.window from rfl]
    cases Window.returnLatency 0 false s₂.window with
    | ok a w => rfl
    | error f w => rfl
  have told : onWindow (Window.returnLatency 0 false) s₂ =
      .ok (l'.thread.retired - l'.thread.reported, v.clock.now - l'.thread.now)
        { s₂ with window := { v.repartition #[false] with lanes := #[Window.toldLane v.clock.now l'] } } :=
    onWindow_eq_ok.mpr ⟨_, Window.returnLatency_alone (w := v.repartition #[false]) alone, rfl⟩
  have collected : Machine.collect 0 s.share s₂.machine = .ok () (s.finished v l' driver).machine := by
    rw [told] at asked
    show (Machine.onBarrier s.core (Barrier.returnLatency 0) >>= _ : Faulting (Machine M) Unit) _ = _
    rw [bind_of_ok asked]
    exact modifyState_machine (f := (·.elapse _ _)) rfl
  have back : s₂.machine.hostOf s.share = .outside := by
    unfold Machine.hostOf
    rw [show s₂.machine.session? s.share.master = _ from session?_inside s₂ _]
    rfl
  refine ⟨driver, (Machine.call_finish (s.found_inside _)).trans ?_⟩
  show (Machine.onGroup s.core (Session.call 0 .finish) >>= fun _ => Machine.progress 0 s.share true :
    Faulting (Machine M) Progress) s.machine = _
  rw [bind_of_ok through]
  unfold Machine.progress
  rw [get_bind, if_pos back, if_pos rfl, bind_of_ok collected]
  rfl

/-- Or its window stops. -/
theorem call_finish_machine_of_error (running : s.running = true) (enabled : s.state.enabled = true)
    (one : s.window.HasOne config l) (inside : l.thread.inWindow ≤ l.thread.ring.length) {v : Window M} {f : Fault}
    (stopped : Window.execute #[true] (s.endedWindow l) = .error f v) :
    ∃ m, Machine.call 0 .finish s.machine = .error f m := by
  obtain ⟨t, called⟩ := session_finish_of_error running enabled one inside stopped
  have through : Machine.onGroup s.core (Session.call 0 .finish) s.machine = .error f (s.inside t) := by
    unfold machine
    rw [onGroup_inside, called]
  refine ⟨s.inside t, (Machine.call_finish (s.found_inside _)).trans ?_⟩
  show (Machine.onGroup s.core (Session.call 0 .finish) >>= fun _ => Machine.progress 0 s.share true :
    Faulting (Machine M) Progress) s.machine = _
  exact bind_of_error through

/-- Once its stream has ended, and unless its simulated time ends, the window of a core drains or stops. -/
theorem execute_ended (valid : config.validate = .ok ()) (h : InStep config n s) (one : s.window.HasOne config l)
    (intime : ∀ v, (s.endedWindow l).Visits #[true] v → v.InTime) :
    (∃ f v, Window.execute #[true] (s.endedWindow l) = .error f v ∧ (f.isCapacity = true ∨ MemorySystem.Raises M f)) ∨
      ∃ v l', Window.execute #[true] (s.endedWindow l) = .ok () v ∧ v.lanes = #[l'] ∧ l'.thread.ring.length = 0 := by
  have holds : (s.endedWindow l).Holds config n :=
    h.holds.perform_of_nothing (.markEndOfStream 0) (fun _ => rfl) (markEndOfStream_eq one)
  have working : (s.endedWindow l).config.Working := by
    rw [holds.config_eq]
    exact Config.working_of_valid valid
  have alone : ∀ {v}, (s.endedWindow l).Visits #[true] v → v.lanes.size = 1 := fun visits => visits.size_eq
  obtain ⟨v, visits, ⟨cannot, ran⟩ | ⟨f, u, stopped, ran⟩⟩ := Window.run_of_inTime holds.steady working intime
  · -- the run comes to its end, where a thread that gets no more micro-ops cannot be waiting for any
    right
    have size := alone visits
    have ended : ∀ i < v.lanes.size, v.Ended i := by
      intro i inside
      obtain rfl : i = 0 := by omega
      exact (Window.ended_markEndOfStream (markEndOfStream_eq one)).of_told visits.told
    have drained : v.Drained := by
      refine Window.drained_of_ended cannot (fun i inside => ?_) ended
      obtain rfl : i = 0 := by omega
      rfl
    obtain ⟨l', lanes⟩ : ∃ l', v.lanes = #[l'] := Array.size_eq_one_iff.mp size
    refine ⟨v, l', ran Window.lastCycles, lanes, drained 0 l' ?_⟩
    rw [lanes]
    rfl
  · left
    exact ⟨f, u, ran Window.lastCycles, Window.stops_of_cycle (visits.steady holds.steady).accounted stopped⟩

/-- So the machine finishes the stream of its core, or its window stops. -/
theorem finish_ended (valid : config.validate = .ok ()) (h : InStep config n s) (running : s.running = true)
    (enabled : s.state.enabled = true) (one : s.window.HasOne config l)
    (intime : ∀ v, (s.endedWindow l).Visits #[true] v → v.InTime) :
    (∃ f v m, Window.execute #[true] (s.endedWindow l) = .error f v ∧
      (f.isCapacity = true ∨ MemorySystem.Raises M f) ∧ Machine.call 0 .finish s.machine = .error f m) ∨
    ∃ v l' driver, Window.execute #[true] (s.endedWindow l) = .ok () v ∧ v.lanes = #[l'] ∧
      l'.thread.ring.length = 0 ∧
      Machine.call 0 .finish s.machine = .ok (.completed true) (s.finished v l' driver).machine := by
  have inside := h.holds.inWindow_le one.found
  rcases execute_ended valid h one intime with ⟨f, v, stopped, why⟩ | ⟨v, l', executed, alone, drained⟩
  · obtain ⟨m, finished⟩ := call_finish_machine_of_error running enabled one inside stopped
    exact .inl ⟨f, v, m, stopped, why, finished⟩
  · obtain ⟨driver, finished⟩ := call_finish_machine running enabled one inside executed alone drained
    exact .inr ⟨v, l', driver, executed, alone, drained, finished⟩

/-- A core that has finished has counted what was timed, and shows the time of its window. -/
theorem InStep.finished (h : InStep config n s) (one : s.window.HasOne config l) {v : Window M} (driver : Option Nat)
    (ran : Window.execute #[true] (s.endedWindow l) = .ok () v) (alone : v.lanes = #[l'])
    (drained : l'.thread.ring.length = 0) :
    (s.finished v l' driver).state.instructions = n ∧ (s.finished v l' driver).state.clock.now = v.clock.now := by
  have ended := h.holds.perform_of_nothing (.markEndOfStream 0) (fun _ => rfl) (markEndOfStream_eq one)
  have holds := ended.perform_of_nothing (.execute #[true]) (fun _ => rfl) ran
  have at_v : v.lanes[0]? = some l' := by
    rw [alone]
    rfl
  have retired : l'.thread.retired = n := by
    refine holds.retired_eq (fun i l'' found => ?_) at_v
    rw [alone] at found
    obtain ⟨inside, rfl⟩ := Array.getElem?_eq_some_iff.mp found
    obtain rfl : i = 0 := by simpa using inside
    exact drained
  -- what the thread has not reported yet is told at the end
  have before := h.thread l one.found
  have marked : { s with window := s.endedWindow l }.Shows (endedLane l) :=
    ⟨before.clock, before.count, before.reported, before.behind⟩
  have shown := marked.execute rfl ran at_v
  have after := shown.told
  exact ⟨after.count.trans retired, after.clock.trans (max_eq_right shown.behind)⟩

/-- What a stream leaves of a new machine with one core. -/
theorem exists_of_stream {core app : Nat} {memory : M} {m₀ m : Machine M} {calls : List StreamCall}
    (valid : config.validate = .ok ()) (single : config.core.smtThreads = 1) (kind : config.core.model = .robSmt)
    (attached : Machine.attach config core (some app) memory {} = .ok () m₀)
    (streamed : Machine.stream 0 calls m₀ = .ok n m) :
    ∃ s : SingleCore M, m = s.machine ∧ s.core = core ∧ AtRest config s ∧ InStep config n s := by
  obtain ⟨s₀, period, predictor, w, w₁, rfl, rfl, running, -, state, new, made, window⟩ :=
    exists_of_attach single kind attached
  obtain ⟨sized, start⟩ := atRest_new valid single running new made window
  unfold Machine.stream at streamed
  rw [stream_machine start sized] at streamed
  obtain ⟨s, ran, rfl⟩ := shown_eq_ok streamed
  -- every call keeps the core and keeps it in step
  obtain ⟨rest, core, step⟩ := stream_induction (P := fun n s => s.core = s₀.core ∧ InStep config n s) sized
    (fun rest before served => ⟨(core_serve rest sized served).trans before.1, before.2.serve rest sized served⟩)
    start ⟨rfl, inStep_new state new made window⟩ ran
  exact ⟨s, rfl, core, rest, step⟩

end SingleCore

namespace Machine

variable {M : Type} [MemorySystem M] {config : Config} {core app : Nat} {memory : M} {m₀ m : Machine M}
  {calls : List StreamCall} {n : Nat}

/-- What a stream comes to on a machine with one core, whenever it switches timing on and off and whatever is known
about memory operands: when it is finished while timing is on, the core has counted the instructions that were timed,
its clock shows the time of its window, and the window has nothing left.  The exceptions are that a capacity is
exceeded and that memory stops; it is assumed that simulated time does not end while the window drains. -/
theorem finish_counts_stream (valid : config.validate = .ok ()) (single : config.core.smtThreads = 1)
    (kind : config.core.model = .robSmt) (attached : attach config core (some app) memory {} = .ok () m₀)
    (streamed : stream 0 calls m₀ = .ok n m)
    (enabled : ∃ model, m.models[0]? = some model ∧ model.state.enabled = true)
    (intime : ∀ t w v, m.session? core = some t → Window.markEndOfStream 0 t.barrier.engine = .ok () w →
      w.Visits #[true] v → v.InTime) :
    (∃ f m', call 0 .finish m = .error f m' ∧ (f.isCapacity = true ∨ MemorySystem.Raises M f)) ∨
      ∃ m' model t, call 0 .finish m = .ok (.completed true) m' ∧ m'.models[0]? = some model ∧
        m'.session? core = some t ∧ model.state.instructions = n ∧
        model.state.clock.now = t.barrier.engine.clock.now ∧
        ∃ l, t.barrier.engine.lanes = #[l] ∧ l.thread.ring.length = 0 := by
  obtain ⟨s, rfl, rfl, rest, step⟩ := SingleCore.exists_of_stream valid single kind attached streamed
  obtain ⟨l, one, -⟩ := rest.lane
  have on : s.state.enabled = true := by
    obtain ⟨model, found, on⟩ := enabled
    obtain rfl : .windowed s.share = model := Option.some.inj found
    exact on
  rcases SingleCore.finish_ended valid step rest.running on one fun v visits =>
      intime _ _ v (SingleCore.session?_inside s _) (SingleCore.markEndOfStream_eq one) visits with
    ⟨f, v, m', -, why, finished⟩ | ⟨v, l', driver, executed, alone, drained, finished⟩
  · exact .inl ⟨f, m', finished, why⟩
  · obtain ⟨count, clock⟩ := step.finished one driver executed alone drained
    exact .inr ⟨_, _, _, finished, rfl, SingleCore.session?_inside (s.finished v l' driver) _, count, clock, _, rfl,
      drained⟩

/-- Additions of values in memory, of which one is known in advance and one comes while timing is off. -/
def mixed : List StreamCall :=
  [.instruction loadingAddition, .info { direction := .read, address := 64, latency := ⟨5000000⟩, hit := .l2 },
    .instruction loadingAddition, .disable, .instruction loadingAddition, .enable, .instruction addition, .synchronize]

/-- What has come of the stream `mixed`: how many instructions were timed, whether timing is on, and whether the window
drains in time. -/
def mixedOutcome : Option (Nat × Bool × Bool) :=
  match (do attach {} 0 (some 0) nearMemory; stream 0 mixed : Faulting (Machine FixedMemory) Nat) {} with
  | .error _ _ => none
  | .ok n m => do
    let model ← m.models[0]?
    let t ← m.session? 0
    match Window.markEndOfStream 0 t.barrier.engine with
    | .error _ _ => none
    | .ok _ w =>
      let (ws, x) ← Window.runWithin Window.toEvent #[true] 200 w
      pure (n, model.state.enabled, (ws ++ [x]).all fun v => decide v.InTime)

theorem finish_counts_stream_of_mixed :
    ∃ (m₀ m m' : Machine FixedMemory) (model : Model FixedMemory) (t : Session (Window FixedMemory)),
      ({} : Config).validate = .ok () ∧ ({} : Config).core.smtThreads = 1 ∧ ({} : Config).core.model = .robSmt ∧
      attach {} 0 (some 0) nearMemory {} = .ok () m₀ ∧ stream 0 mixed m₀ = .ok 3 m ∧
      call 0 .finish m = .ok (.completed true) m' ∧ m'.models[0]? = some model ∧ m'.session? 0 = some t ∧
      model.state.instructions = 3 ∧ model.state.clock.now = t.barrier.engine.clock.now := by
  have valid : ({} : Config).validate = .ok () := by decide +kernel
  have computed : mixedOutcome = some (3, true, true) := by decide +kernel
  unfold mixedOutcome at computed
  split at computed
  · cases computed
  rename_i n m both
  obtain ⟨⟨⟩, m₀, attached, streamed⟩ := bind_eq_ok.mp both
  obtain ⟨model, found, computed⟩ := Option.bind_eq_some_iff.mp computed
  obtain ⟨t, session, computed⟩ := Option.bind_eq_some_iff.mp computed
  split at computed
  · cases computed
  rename_i w marked
  obtain ⟨⟨ws, x⟩, ran, computed⟩ := Option.bind_eq_some_iff.mp computed
  simp only [Option.pure_def, Option.some.injEq, Prod.mk.injEq] at computed
  obtain ⟨rfl, on, all⟩ := computed
  -- the window is followed to its end
  have intime : ∀ t' w' v, m.session? 0 = some t' → Window.markEndOfStream 0 t'.barrier.engine = .ok () w' →
      w'.Visits #[true] v → v.InTime := by
    intro t' w' v session' marked' visits
    obtain rfl : t' = t := Option.some.inj (session'.symm.trans session)
    rw [marked] at marked'
    cases marked'
    simpa using List.all_eq_true.mp all v (Window.mem_of_runWithin ran visits)
  rcases finish_counts_stream valid rfl rfl attached streamed ⟨model, found, on⟩ intime with
    ⟨f, m', stopped, -⟩ | ⟨m', model', t', finished, found', session', count, clock, -⟩
  · -- the window does not stop
    obtain ⟨s, rfl, core, rest, step⟩ := SingleCore.exists_of_stream valid rfl rfl attached streamed
    obtain ⟨l, one, -⟩ := rest.lane
    rw [← core] at session
    obtain rfl := Option.some.inj ((SingleCore.session?_inside s _).symm.trans session)
    obtain rfl : Model.windowed s.share = model := Option.some.inj found
    obtain rfl : s.endedWindow l = w :=
      (EStateM.Result.ok.inj ((SingleCore.markEndOfStream_eq one).symm.trans marked)).2
    have ends : Window.execute #[true] (s.endedWindow l) = .ok () x := (Window.run_of_runWithin ran).1
    rw [core] at session
    rcases SingleCore.finish_ended valid step rest.running on one fun v visits =>
        intime _ _ v session marked visits with
      ⟨f', v, m'', failed, -⟩ | ⟨v, l', driver, -, -, -, finished⟩
    · rw [ends] at failed
      cases failed
    · rw [finished] at stopped
      cases stopped
  · exact ⟨m₀, m, m', model', t', valid, rfl, rfl, attached, streamed, finished, found', session', count, clock⟩

end Machine

end CoreTiming
