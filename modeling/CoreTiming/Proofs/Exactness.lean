import CoreTiming.Proofs.Skipping

/-!
# Jumping to events is exact

With a single hardware thread, a window jumps over cycles in which nothing can happen.  Whatever is
asked of it, it comes to the same as a window that never jumps: the same leaves at the same times, the
same is asked of memory in the same order, and as much time is charged.
-/

namespace CoreTiming

open Faulting

/-! ## Section 1: Calls that take no time -/

namespace Window

variable {M : Type} {w u v : Window M} {l l' : Lane M} {i : Nat}

theorem Regular.withLane (h : Regular w l) (thread : l'.thread.Regular w.clock.period)
    (told : l'.thread.now ≤ w.clock.now) (alert : l'.thread.Alert w.clock.now) :
    Regular { w with lanes := #[l'] } l' :=
  ⟨rfl, thread, h.grid, told, alert, h.dispatchTurn, h.issueTurn⟩

/-- Windows that are alike and stand at the same time match if the second one is regular. -/
theorem lockstep_matched {α : Type} {r r' : EStateM.Result Fault (Window M) α}
    (h : Lockstep (Alike (SameLive w.clock.now) 0) r r')
    (regular : ∀ a v, r' = .ok a v → v.clock = w.clock ∧ ∃ l, Regular v l) :
    Lockstep Matched r r' := by
  cases h with
  | error => exact .error
  | ok alike =>
    obtain ⟨clock, regular⟩ := regular _ _ rfl
    refine .ok ⟨?_, regular⟩
    rw [← alike.clock_eq, clock]
    exact alike

variable [MemorySystem M]

theorem exists_of_onLane {α : Type} {f : Faulting (Lane M) α} {a : α} (alone : w.lanes = #[l])
    (h : onLane i f w = .ok a v) : ∃ l', f l = .ok a l' ∧ v = { w with lanes := #[l'] } := by
  by_cases hi : i = 0
  · rw [hi] at h
    exact (onLane_alone_eq_ok alone).mp h
  -- there is no other lane, so nothing could be done
  · rw [onLane_of_ne alone hi] at h
    cases h

theorem exists_of_onThread {α : Type} {f : Faulting Thread α} {a : α} (alone : w.lanes = #[l])
    (h : onThread i f w = .ok a v) :
    ∃ th, f l.thread = .ok a th ∧ v = { w with lanes := #[{ l with thread := th }] } := by
  obtain ⟨_, zoomed, rfl⟩ := exists_of_onLane alone h
  obtain ⟨th, ran, rfl⟩ := zoom_eq_ok.mp zoomed
  exact ⟨th, ran, rfl⟩

theorem regular_pushOne {p : Period} {now : Time} {u : OpInstance} (regular : l.thread.Regular p)
    (alert : l.thread.Alert now) (h : pushOne p i u l = .ok () l') :
    l'.thread.Regular p ∧ l'.thread.Alert now ∧ l'.thread.now = l.thread.now := by
  rcases pushOne_eq_ok h with ⟨-, rfl⟩ | ⟨-, u', l₁, th, fetched, queued, rfl⟩
  · exact ⟨regular, alert, rfl⟩
  · rw [← (fetch_eq_ok fetched).2] at regular alert ⊢
    exact regular.enqueue alert queued

theorem regular_forM_pushOne {p : Period} {now : Time} {us : List OpInstance}
    (regular : l.thread.Regular p) (alert : l.thread.Alert now)
    (h : us.forM (pushOne p i) l = .ok () l') :
    l'.thread.Regular p ∧ l'.thread.Alert now ∧ l'.thread.now = l.thread.now := by
  induction us generalizing l with
  | nil =>
    obtain ⟨-, rfl⟩ := pure_eq_ok.mp h
    exact ⟨regular, alert, rfl⟩
  | cons u rest ih =>
    obtain ⟨⟨⟩, l₁, first, h⟩ := bind_eq_ok.mp h
    obtain ⟨regular₁, alert₁, now₁⟩ := regular_pushOne regular alert first
    obtain ⟨regular', alert', now'⟩ := ih regular₁ alert₁ h
    exact ⟨regular', alert', now'.trans now₁⟩

theorem regular_push {us : List OpInstance} (h : Regular w l) (ran : push i us w = .ok () v) :
    v.clock = w.clock ∧ ∃ l', Regular v l' := by
  unfold push at ran
  rw [get_bind] at ran
  obtain ⟨l', pushed, rfl⟩ := exists_of_onLane h.alone ran
  obtain ⟨regular, alert, now⟩ := regular_forM_pushOne h.thread h.alert pushed
  exact ⟨rfl, l', h.withLane regular (now ▸ h.told) alert⟩

theorem regular_returnLatency {inWakeup : Bool} {result : Nat × Time} (h : Regular w l)
    (ran : returnLatency i inWakeup w = .ok result v) : v.clock = w.clock ∧ ∃ l', Regular v l' := by
  obtain ⟨th, told, rfl⟩ := exists_of_onThread h.alone (returnLatency_eq_ok ran)
  obtain rfl := modify_eq_ok.mp told
  refine ⟨rfl, _, h.withLane (h.thread.of_same rfl rfl rfl rfl fun _ mem => mem) ?_ h.alert⟩
  -- the thread has been told of the present at most
  show (if inWakeup = true then l.thread.now else max l.thread.now w.clock.now) ≤ w.clock.now
  split
  · exact h.told
  · exact max_le h.told (le_refl _)

theorem regular_markEndOfStream (h : Regular w l) (ran : markEndOfStream i w = .ok () v) :
    v.clock = w.clock ∧ ∃ l', Regular v l' := by
  unfold markEndOfStream modifyThread at ran
  obtain ⟨th, marked, rfl⟩ := exists_of_onThread h.alone ran
  obtain rfl := modify_eq_ok.mp marked
  exact ⟨rfl, _, h.withLane (h.thread.of_same rfl rfl rfl rfl fun _ mem => mem) h.told h.alert⟩

omit [MemorySystem M] in
theorem regular_repartition {running : Running} (h : Regular w l) : Regular (repartition running w) l :=
  ⟨h.alone, h.thread, h.grid, h.told, h.alert, h.dispatchTurn, h.issueTurn⟩

/-! ## Section 2: All calls but two -/

/-- Whether the call neither sets up a thread nor moves the time of one. -/
def Call.keepsTime : Call M → Bool
  | .initializeThread _ _ _ => false
  | .synchronize _ _ => false
  | _ => true

theorem Matched.perform {call : Call M} (h : Matched w u) (keeps : call.keepsTime = true) :
    Lockstep Matched (call.perform toEvent w) (call.perform onePeriod u) ∧
      ∀ i, call.letsOut toEvent w i = call.letsOut onePeriod u i := by
  obtain ⟨l, regular⟩ := h.regular
  have clock := h.alike.clock_eq
  cases call with
  | initializeThread i memory predictor => cases keeps
  | synchronize i time => cases keeps
  | push i us =>
    refine ⟨lockstep_matched (lockstep_push h.alike) fun _ v ran => ?_, fun _ => rfl⟩
    rw [← clock]
    exact regular_push regular ran
  | execute running =>
    have runs : SameRun Matched toEvent onePeriod running lastCycles w u := h.sameRun
    exact ⟨runs.ends, runs.leaves⟩
  | returnLatency i inWakeup =>
    refine ⟨lockstep_matched (w := w) ?_ fun _ v ran => ?_, fun _ => rfl⟩
    · exact lockstep_bind (lockstep_returnLatency h.alike) fun _ _ _ _ _ alike => lockstep_pure alike
    · obtain ⟨result, _, returned, ran⟩ := bind_eq_ok.mp ran
      obtain ⟨-, rfl⟩ := pure_eq_ok.mp ran
      rw [← clock]
      exact regular_returnLatency regular returned
  | markEndOfStream i =>
    refine ⟨lockstep_matched (w := w) ?_ fun _ v ran => ?_, fun _ => rfl⟩
    · exact lockstep_modifyThread h.alike fun _ _ alike =>
        alike.map (f := ({ · with endOfStream := true })) (fun _ => rfl) rfl rfl
    · rw [← clock]
      exact regular_markEndOfStream regular ran
  | repartition running =>
    refine ⟨lockstep_matched (w := w) ?_ fun _ v ran => ?_, fun _ => rfl⟩
    · exact lockstep_modify h.alike (fun _ _ => rfl) rfl
    · obtain rfl := modify_eq_ok.mp ran
      exact ⟨clock, l, regular_repartition regular⟩

/-! ## Section 3: The only thread is set up -/

omit [MemorySystem M] in
theorem Alike.refl (alone : w.lanes = #[l]) : Alike (SameLive w.clock.now) 0 w w := by
  have same : w = { w with lanes := #[l], timeSkipped := w.timeSkipped } := by rw [← alone]
  exact .of_eq same alone (.intro (.of_eq (c := l.thread.charges) rfl rfl (add_zero _)))

omit [MemorySystem M] in
theorem regular_initializeThread {config : Config} {memory : M} {predictor : Option Predictor}
    (new : Window.new config = .ok w) (h : initializeThread 0 memory predictor w = .ok () v) :
    ∃ l, Regular v l := by
  obtain ⟨period, rfl⟩ := new_eq_ok new
  obtain ⟨-, th, made, rfl⟩ := initializeThread_eq_ok h
  obtain ⟨regular, told, nextEvent⟩ := Thread.regular_new (p := period) made
  exact ⟨{ thread := th, memory },
    { alone := rfl
      thread := regular
      grid := Time.onGrid_zero
      told := by
        rw [told]
        exact Time.zero_le _
      alert := by
        refine .inr ?_
        rw [nextEvent]
        exact Time.zero_le _
      dispatchTurn := rfl
      issueTurn := rfl }⟩

end Window

/-! ## Section 4: Chronicles -/

/-- Both stopped at the same fault, or both went through and the results are related. -/
inductive Agree {α : Type} (S : α → α → Prop) : Except Fault α → Except Fault α → Prop
  /-- Both went through. -/
  | ok {a b : α} (related : S a b) : Agree S (.ok a) (.ok b)
  /-- Both stopped. -/
  | error {f : Fault} : Agree S (.error f) (.error f)

theorem Agree.mono {α : Type} {S T : α → α → Prop} {x y : Except Fault α} (h : Agree S x y)
    (hst : ∀ a b, S a b → T a b) : Agree T x y := by
  cases h with
  | ok related => exact .ok (hst _ _ related)
  | error => exact .error

namespace Chronicle

section

variable {M : Type} [MemorySystem M] {c c' : Chronicle M} {calls : List (Window.Call M)}

/-- The windows match, and the same has left them. -/
structure Matched (c c' : Chronicle M) : Prop where
  /-- The windows. -/
  window : c.window.Matched c'.window
  /-- What has left. -/
  retired : c'.retired = c.retired

theorem agree_after {call : Window.Call M} (h : Matched c c') (keeps : call.keepsTime = true) :
    Agree Matched (c.after Window.toEvent call) (c'.after Window.onePeriod call) := by
  obtain ⟨ends, leaves⟩ := h.window.perform keeps
  unfold Chronicle.after
  generalize call.perform Window.toEvent c.window = r at ends
  generalize call.perform Window.onePeriod c'.window = r' at ends
  cases ends with
  | error => exact .error
  | ok window =>
    refine .ok ⟨window, ?_⟩
    funext i
    dsimp only
    rw [h.retired, leaves]

theorem agree_foldlM (h : Matched c c') (keeps : ∀ call ∈ calls, call.keepsTime = true) :
    Agree Matched (calls.foldlM (after Window.toEvent) c)
      (calls.foldlM (after Window.onePeriod) c') := by
  induction calls generalizing c c' with
  | nil => exact .ok h
  | cons call rest ih =>
    have first := agree_after h (keeps call List.mem_cons_self)
    rw [List.foldlM_cons, List.foldlM_cons]
    generalize c.after Window.toEvent call = r at first
    generalize c'.after Window.onePeriod call = r' at first
    cases first with
    | error => exact .error
    | ok matched => exact ih matched fun call mem => keeps call (List.mem_cons_of_mem _ mem)

/-- After the only thread has been set up, no call tells the windows apart. -/
theorem agree_of {config : Config} {memory : M} {predictor : Option Predictor}
    (keeps : ∀ call ∈ calls, call.keepsTime = true) :
    Agree Matched (of Window.toEvent config (.initializeThread 0 memory predictor :: calls))
      (of Window.onePeriod config (.initializeThread 0 memory predictor :: calls)) := by
  unfold of
  cases new : Window.new (M := M) config with
  | error f => exact .error
  | ok w =>
    show Agree Matched (List.foldlM (after Window.toEvent) { window := w } (_ :: calls))
      (List.foldlM (after Window.onePeriod) { window := w } (_ :: calls))
    rw [List.foldlM_cons, List.foldlM_cons]
    unfold Chronicle.after
    cases made : Window.initializeThread 0 memory predictor w with
    | error f v =>
      simp only [Window.Call.perform, made]
      exact .error
    | ok u v =>
      simp only [Window.Call.perform, made]
      -- both runs start with the same window, and differ from here on
      obtain ⟨l, regular⟩ := Window.regular_initializeThread new made
      have window : v.Matched v := ⟨.refl regular.alone, l, regular⟩
      exact agree_foldlM ⟨window, rfl⟩ keeps

end

end Chronicle

/-! ## Section 5: What cannot be told apart -/

/-- A memory with a record of what it has been asked. -/
structure Recorded (M : Type) where
  /-- The memory. -/
  memory : M
  /-- All requests so far, the first one first. -/
  asked : List MemoryRequest := []

/-- Passes a request on, and notes it down. -/
def Recorded.ask {M α : Type} (request : MemoryRequest) (x : Faulting M α) : Faulting (Recorded M) α :=
  fun m =>
    match x m.memory with
    | .ok a memory => .ok a { memory, asked := m.asked ++ [request] }
    | .error f memory => .error f { memory, asked := m.asked ++ [request] }

instance {M : Type} [MemorySystem M] : MemorySystem (Recorded M) where
  default := { memory := default }
  access a := Recorded.ask (.data a) (MemorySystem.access a)
  fetch address size := Recorded.ask (.fetch address size) (MemorySystem.fetch address size)

/-- What has happened on both lanes is the same, and took the same time. -/
structure Lane.SameTiming {M : Type} (l l' : Lane (Recorded M)) : Prop where
  /-- The log of what has left. -/
  commitLog : l'.thread.stats.commitLog = l.thread.stats.commitLog
  /-- The instructions committed. -/
  instructions : l'.thread.retired = l.thread.retired
  /-- What memory has been asked, in order. -/
  asked : l'.memory.asked = l.memory.asked
  /-- What has become of memory. -/
  memory : l'.memory.memory = l.memory.memory
  /-- The time that has been charged, to whatever cause. -/
  charged : l'.thread.stats.cpi.total = l.thread.stats.cpi.total

namespace Chronicle

variable {M : Type} {c c' : Chronicle (Recorded M)}

/-- Each of the windows has one thread.  The cores have got to the same time, and what has happened in
them until then is the same. -/
structure SameTiming (c c' : Chronicle (Recorded M)) : Prop where
  /-- The time on the clock. -/
  now : c'.window.clock.now = c.window.clock.now
  /-- What has left the window and when, whether a log is kept or not. -/
  retired : c'.retired = c.retired
  /-- The only threads. -/
  lanes : ∃ l l', c.window.lanes = #[l] ∧ c'.window.lanes = #[l'] ∧ l.SameTiming l'

theorem Matched.sameTiming (h : Matched c c') : SameTiming c c' := by
  obtain ⟨⟨alike, -⟩, retired⟩ := h
  refine ⟨congrArg Clock.now alike.clock_eq, retired, ?_⟩
  generalize c'.window = v at alike
  cases alike with
  | @intro l _ skipped alone alike =>
    cases alike with
    | intro alike =>
      cases alike with
      | recharge charges same paid =>
        rw [add_zero] at paid
        exact ⟨l, _, alone, rfl, rfl, rfl, rfl, rfl, paid⟩

variable [MemorySystem M]

/-- A window of one thread that jumps to the next event and one that goes on cycle by cycle cannot be
told apart: any series of calls stops them both with the same fault, or takes both to the same time,
with the same micro-ops committed at the same times. -/
theorem jumping_is_exact {config : Config} {memory : M} {predictor : Option Predictor}
    {calls : List (Window.Call (Recorded M))} (keeps : ∀ call ∈ calls, call.keepsTime = true) :
    Agree SameTiming
      (of Window.toEvent config (.initializeThread 0 { memory } predictor :: calls))
      (of Window.onePeriod config (.initializeThread 0 { memory } predictor :: calls)) :=
  (agree_of keeps).mono fun _ _ => Matched.sameTiming

/-- A memory that takes its time. -/
def slowMemory : FixedMemory := { data := ⟨⟨18797000⟩, .dramLocal⟩ }

/-- A run over a load that misses and a branch that waits for it and was predicted wrongly. -/
def missingCalls : List (Window.Call (Recorded FixedMemory)) :=
  let op : OpInstance := { op := {} }
  let load : OpInstance := { op := { kind := .load, destinations := [1] }, address := 64 }
  [.push 0 [load, { op := { kind := .branch, sources := [1] }, mispredicted := true }, op, op],
    .markEndOfStream 0, .execute #[true], .returnLatency 0 false]

/-- The run jumps, and takes the same time as one that does not. -/
theorem jumping_is_exact_over_miss :
    ∃ c c' : Chronicle (Recorded FixedMemory),
      (∀ call ∈ missingCalls, call.keepsTime = true) ∧
      of Window.toEvent default
        (.initializeThread 0 { memory := slowMemory } none :: missingCalls) = .ok c ∧
      of Window.onePeriod default
        (.initializeThread 0 { memory := slowMemory } none :: missingCalls) = .ok c' ∧
      c.window.timeSkipped = ⟨2255640⟩ ∧ c'.window.timeSkipped = 0 ∧
      (c.retired 0).map (·.entry.seq) = [0, 1, 4, 5] ∧ SameTiming c c' := by
  have keeps : ∀ call ∈ missingCalls, call.keepsTime = true := by decide
  have jumps : ((ofWithin Window.toEvent 100 default
      (.initializeThread 0 { memory := slowMemory } none :: missingCalls)).map fun c =>
        (c.window.timeSkipped, (c.retired 0).map (·.entry.seq))) =
      some (⟨2255640⟩, [0, 1, 4, 5]) := by
    decide +kernel
  have plods : ((ofWithin Window.onePeriod 100 default
      (.initializeThread 0 { memory := slowMemory } none :: missingCalls)).map fun c =>
        c.window.timeSkipped) = some 0 := by
    decide +kernel
  obtain ⟨c, made, seen⟩ := exists_of_computed jumps
  obtain ⟨c', made', skipped'⟩ := exists_of_computed plods
  obtain ⟨skipped, seqs⟩ := Prod.mk.inj seen
  have agree : Agree SameTiming
      (of Window.toEvent default (.initializeThread 0 { memory := slowMemory } none :: missingCalls))
      (of Window.onePeriod default
        (.initializeThread 0 { memory := slowMemory } none :: missingCalls)) :=
    jumping_is_exact keeps
  rw [made, made'] at agree
  cases agree with
  | ok same => exact ⟨c, c', keeps, made, made', skipped, skipped', seqs, same⟩

end Chronicle

end CoreTiming
