import CoreTiming.Proofs.Moves

/-!
# What the stages of a cycle do to a thread

Dispatch and issue are work inside the threads: every lane gets from its thread before the stage to
its thread after it by elementary steps, on dispatch by those of `Thread.Intake` and on issue by those of
`Thread.Work`.
-/

namespace CoreTiming

open Faulting

/-! ## Section 1: Dispatch, seen from the thread -/

namespace Thread

variable {config : Config} {clock : Clock} {th th' : Thread}

/-- Any number of steps on which micro-ops may enter the window. -/
abbrev Intakes (config : Config) (clock : Clock) : Thread → Thread → Prop :=
  Relation.ReflTransGen (Intake config clock)

theorem fetchNext_intakes {e : Entry} (next : th.ring.get? th.inWindow = some e) :
    Intakes config clock th (fetchNext clock e th).2 := by
  rcases fetchNext_cases clock e th with ⟨-, eq⟩ | ⟨-, -, eq⟩ | ⟨-, -, eq⟩
  · rw [eq]
  · rw [eq]
    exact .tail (.single (.fetch next)) (.keep ⟨rfl, rfl, rfl, rfl, rfl, rfl, rfl⟩)
  · rw [eq]
    exact .single (.keep ⟨rfl, rfl, rfl, rfl, rfl, rfl, rfl⟩)

/-- Once its instruction has been fetched, the oldest buffered entry is as `Entry.fetched` says. -/
theorem get?_fetchNext {e : Entry} (next : th.ring.get? th.inWindow = some e)
    (fetched : (fetchNext clock e th).1 = true) :
    (fetchNext clock e th).2.ring.get? (fetchNext clock e th).2.inWindow = some e.fetched := by
  rcases fetchNext_cases clock e th with ⟨hit, eq⟩ | ⟨-, -, eq⟩ | ⟨-, -, eq⟩
  · have same : e.fetched = e := by simp [Entry.fetched, ← hit]
    rw [eq, same]
    exact next
  · rw [eq]
    show (th.ring.modify th.inWindow fun _ => e.fetched).get? th.inWindow = _
    rw [← Ring.getElem?_toList] at next ⊢
    simp [next]
  · rw [eq] at fetched
    cases fetched

theorem dispatchOne_intakes {free : Bool} {d : Dispatched}
    (h : dispatchOne config.window.forwarding clock free th = .ok d th') :
    Intakes config clock th th' := by
  cases attempt_of_ok h with
  | empty => exact .refl
  | fetch next => exact fetchNext_intakes next
  | full next => exact (fetchNext_intakes next).tail (.keep ⟨rfl, rfl, rfl, rfl, rfl, rfl, rfl⟩)
  | loads next => exact (fetchNext_intakes next).tail (.keep ⟨rfl, rfl, rfl, rfl, rfl, rfl, rfl⟩)
  | enter next fetched _ linked =>
    exact (fetchNext_intakes next).tail (.dispatch (get?_fetchNext next fetched) linked)

end Thread

/-! ## Section 2: Threads at work in a window -/

namespace Window

variable {M : Type} {W : Config → Clock → Thread → Thread → Prop} {w v x : Window M}

/-- From `w` to `v` every thread has made steps of the kind `W`, and the clock has stood still. -/
structure Worked (W : Config → Clock → Thread → Thread → Prop) (w v : Window M) : Prop where
  /-- The parameters stay. -/
  config : v.config = w.config
  /-- No time has passed. -/
  clock : v.clock = w.clock
  /-- The window is split as before. -/
  share : v.share = w.share
  /-- Stores drain no earlier. -/
  drains : w.lastStoreDone ≤ v.lastStoreDone
  /-- Each thread has made some steps, or none. -/
  lanes : Pointwise (fun l l' => Relation.ReflTransGen (W w.config w.clock) l.thread l'.thread)
    w.lanes.toList v.lanes.toList

theorem Worked.refl (w : Window M) : Worked W w w :=
  ⟨rfl, rfl, rfl, le_refl _, .refl (fun _ => .refl) _⟩

theorem Worked.trans (h : Worked W w v) (h' : Worked W v x) : Worked W w x where
  config := h'.config.trans h.config
  clock := h'.clock.trans h.clock
  share := h'.share.trans h.share
  drains := le_trans h.drains h'.drains
  lanes := by
    have second := h'.lanes
    rw [h.config, h.clock] at second
    exact h.lanes.trans (fun _ _ _ => .trans) second

/-- Whoever is on a lane afterwards was on it before, and has made such steps. -/
theorem Worked.exists_lane {i : Nat} {l' : Lane M} (h : Worked W w v) (found' : v.lanes[i]? = some l') :
    ∃ l, w.lanes[i]? = some l ∧ Relation.ReflTransGen (W w.config w.clock) l.thread l'.thread := by
  have related := h.lanes i
  rw [Array.getElem?_toList, Array.getElem?_toList] at related
  obtain ⟨l, found, steps⟩ := rel_right related found'
  exact ⟨l, found, steps⟩

theorem Worked.mono {W' : Config → Clock → Thread → Thread → Prop}
    (hw : ∀ {config clock th th'}, W config clock th th' → W' config clock th th') (h : Worked W w v) :
    Worked W' w v :=
  ⟨h.config, h.clock, h.share, h.drains, h.lanes.mono fun _ _ steps => steps.lift id fun _ _ => hw⟩

/-- What one step of the kind `W` does, some steps of the kind `W'` do. -/
theorem Worked.lift {W' : Config → Clock → Thread → Thread → Prop}
    (hw : ∀ {config clock th th'}, W config clock th th' →
      Relation.ReflTransGen (W' config clock) th th')
    (h : Worked W w v) : Worked W' w v :=
  ⟨h.config, h.clock, h.share, h.drains, h.lanes.mono fun _ _ steps =>
    steps.trans_induction_on (fun _ => .refl) hw fun _ _ => .trans⟩

/-- What moves of one kind do, a series of them does. -/
theorem Worked.of_moves {R : Window M → Window M → Prop} (hr : ∀ {w v}, R w v → Worked W w v)
    (h : Relation.ReflTransGen R w v) : Worked W w v := by
  induction h with
  | refl => exact .refl _
  | tail _ move ih => exact ih.trans (hr move)

variable [MemorySystem M]

theorem Worked.onThread {α : Type} {i : Nat} {f : Faulting Thread α} {a : α}
    (h : onThread i f w = .ok a v)
    (steps : ∀ lane th, w.lanes[i]? = some lane → f lane.thread = .ok a th →
      Relation.ReflTransGen (W w.config w.clock) lane.thread th) : Worked W w v := by
  obtain ⟨lane, th, found, ran, rfl⟩ := onThread_eq_ok.mp h
  refine ⟨rfl, rfl, rfl, le_refl _, ?_⟩
  rw [Array.toList_setIfInBounds]
  exact .set (fun _ => .refl) (by simpa using found) (steps lane th found ran)

theorem Worked.modifyThread {i : Nat} {f : Thread → Thread} {a : Unit}
    (h : modifyThread i f w = .ok a v) (same : ∀ th : Thread, th.SameFlow (f th)) :
    Worked (fun _ _ => Thread.SameFlow) w v := by
  refine .onThread h fun lane th _ ran => ?_
  rw [← modify_eq_ok.mp ran]
  exact .single (same _)

end Window

/-! ## Section 3: The dispatch stage -/

/-- What the dispatch stage does to a thread. -/
inductive Thread.Admission (config : Config) (clock : Clock) : Thread → Thread → Prop
  /-- The thread begins to dispatch. -/
  | begin {th : Thread} : Admission config clock th (th.beginDispatch clock.now)
  /-- The front end is up, and the thread attempts to dispatch. -/
  | attempt {th th' : Thread} {free : Bool} {d : Thread.Dispatched}
      (awake : th.stalledUntil ≤ clock.now)
      (tried : Thread.dispatchOne config.window.forwarding clock free th = .ok d th') :
      Admission config clock th th'
  /-- It is settled what the thread is charged for. -/
  | blame {th : Thread} (cause : Cause) : Admission config clock th { th with cause }

theorem Thread.Admission.intakes {config : Config} {clock : Clock} {th th' : Thread}
    (h : Admission config clock th th') : Intakes config clock th th' := by
  cases h with
  | begin => exact .single (.keep ⟨rfl, rfl, rfl, rfl, rfl, rfl, rfl⟩)
  | attempt awake tried => exact dispatchOne_intakes tried
  | blame cause => exact .single (.keep ⟨rfl, rfl, rfl, rfl, rfl, rfl, rfl⟩)

namespace Window

variable {M : Type} [MemorySystem M] {w v : Window M}

theorem Admit.admissions (h : Admit w v) : Worked Thread.Admission w v := by
  cases h with
  | begin begun =>
    refine .onThread begun fun lane th _ ran => ?_
    rw [← modify_eq_ok.mp ran]
    exact .single .begin
  | block awake tried =>
    exact .onThread tried fun lane _ found ran => .single (.attempt (awake lane found) ran)
  | enter awake tried =>
    have entered : Worked Thread.Admission w _ :=
      .onThread tried fun lane _ found ran => .single (.attempt (awake lane found) ran)
    exact ⟨entered.config, entered.clock, entered.share, entered.drains, entered.lanes⟩
  | blame blamed =>
    refine .onThread blamed fun lane th _ ran => ?_
    rw [← modify_eq_ok.mp ran]
    exact .single (.blame _)
  | turn n => exact ⟨rfl, rfl, rfl, le_refl _, .refl (fun _ => .refl) _⟩

theorem admissions_dispatch {running : Running} {event : Time}
    (h : dispatch running w = .ok event v) : Worked Thread.Admission w v :=
  .of_moves Admit.admissions (admits_dispatch h)

theorem worked_dispatchTurnOf {running : Running} {round round' : DispatchRound} {i : Nat}
    (h : dispatchTurnOf running round i w = .ok round' v) : Worked Thread.Intake w v :=
  Worked.lift Thread.Admission.intakes (.of_moves Admit.admissions (admits_dispatchTurnOf h))

theorem worked_dispatch {running : Running} {event : Time}
    (h : dispatch running w = .ok event v) : Worked Thread.Intake w v :=
  (admissions_dispatch h).lift Thread.Admission.intakes

end Window

/-! ## Section 4: The issue stage -/

/-- What the issue stage does to a thread. -/
inductive Thread.Firing (config : Config) (clock : Clock) : Thread → Thread → Prop
  /-- An entry in the window issues, and memory may be asked about it first. -/
  | issue {th th₁ th' : Thread} {n : Nat} {e e₁ : Entry} (inside : n < th.inWindow)
      (entry : th.ring.get? n = some e) (waiting : e.isDone = false) (ready : e.ready ≤ clock.now)
      (asked : th.Asked n e th₁ e₁)
      (started : Thread.start n e₁ clock.now (e₁.doneFrom clock) (clock.period.cycles e₁.u.latency)
        th₁ = .ok () th') :
      Firing config clock th th'
  /-- An entry that has issued is counted if it is a long load. -/
  | account {th : Thread} (cutoff n : Nat) :
      Firing config clock th (th.accountLongLoad cutoff clock.now n)
  /-- It is noted up to when nothing can issue. -/
  | look {th : Thread} (event : Time) : Firing config clock th { th with nextEvent := event }

theorem Thread.Firing.works {config : Config} {clock : Clock} {th th' : Thread}
    (h : Firing config clock th th') : Works config clock th th' := by
  cases h with
  | issue inside entry waiting ready asked started =>
    obtain ⟨waiting', ready', span⟩ := asked.same
    exact (asked.works inside entry waiting).tail
      (.issue (span ▸ inside) (asked.entry entry) (waiting' ▸ waiting) (ready' ▸ ready) started)
  | account cutoff n => exact .single (.keep (sameFlow_accountLongLoad _ _ _ _))
  | look event => exact .single (.keep ⟨rfl, rfl, rfl, rfl, rfl, rfl, rfl⟩)

namespace Window

variable {M : Type} [MemorySystem M] {w v : Window M}

theorem Note.firings (h : Note w v) : Worked Thread.Firing w v := by
  cases h with
  | account counted =>
    refine .onThread counted fun lane th _ ran => ?_
    rw [← modify_eq_ok.mp ran]
    exact .single (.account _ _)
  | look noted =>
    refine .onThread noted fun lane th _ ran => ?_
    rw [← modify_eq_ok.mp ran]
    exact .single (.look _)
  | turn n => exact ⟨rfl, rfl, rfl, le_refl _, .refl (fun _ => .refl) _⟩

theorem Fire.firings (h : Fire w v) : Worked Thread.Firing w v := by
  cases h with
  | issue found inside entry waiting verdict issued =>
    have ready := ready_of_judge verdict
    obtain ⟨th, e', lane', asked, started, -, rfl⟩ := issueEntry_eq_ok found entry issued
    refine ⟨rfl, rfl, rfl, ?_, ?_⟩
    · show w.lastStoreDone ≤ if _ then max w.lastStoreDone _ else w.lastStoreDone
      split
      · exact le_max_left _ _
      · exact le_refl _
    · show Pointwise _ _ (w.lanes.setIfInBounds _ lane').toList
      rw [Array.toList_setIfInBounds]
      exact .set (fun _ => .refl) (by simpa using found)
        (.single (.issue inside entry waiting ready asked started))
  | note noted => exact noted.firings

theorem firings_issue {event : Time} (h : issue w = .ok event v) : Worked Thread.Firing w v :=
  .of_moves Fire.firings (fires_issue h)

theorem worked_issue {event : Time} (h : issue w = .ok event v) : Worked Thread.Work w v :=
  (firings_issue h).lift Thread.Firing.works

/-- At the end of a cycle the clock moves. -/
theorem exists_advance_of_cycle {stride : Stride M} {running : Running}
    (h : Window.cycle stride running w = .ok () v) :
    ∃ (u : Window M) (event : Time), u.clock = w.clock ∧ v = u.advance (stride u event) := by
  obtain ⟨_, _, _, w₁, w₂, w₃, dispatched, issued, committed, rfl⟩ := stages_of_cycle h
  have clock : w₃.clock = w₂.clock := by rw [commit_frame committed]
  rw [(worked_issue issued).clock, (worked_dispatch dispatched).clock] at clock
  exact ⟨w₃, _, clock, rfl⟩

end Window

/-! ## Section 5: The moves of an account -/

namespace Account

/-- The oldest entry of a thread leaves. -/
inductive Leave (config : Config) : Account → Account → Prop
  /-- The entries behind it stay. -/
  | retire {a : Account} {e : Entry} (oldest : a.thread.oldest? = some e)
      (done : e.done ≤ a.clock.now) (stays : e.flushes = false) :
      Leave config a (a.release config e)
  /-- The window starts over. -/
  | flush {a : Account} {e : Entry} {th : Thread} (oldest : a.thread.oldest? = some e)
      (done : e.done ≤ a.clock.now) (flushes : e.flushes = true)
      (flushed : (a.release config e).thread.flush a.clock config.predictor.penalty = .ok th) :
      Leave config a ((a.release config e).withThread th)

/-- The owner of the window turns to a thread. -/
inductive Contact (config : Config) : Account → Account → Prop
  /-- A micro-op is taken in. -/
  | push {a : Account} {th : Thread} {lane : Nat} {u v : OpInstance} (same : u.SameAtFront v)
      (pushed : Window.enqueue lane v a.thread = .ok () th) :
      Contact config a { a with thread := th, pushed := a.pushed ++ [u] }
  /-- The thread is told its time or the end of its stream, or is asked what it has done. -/
  | tell {a : Account} (now : Time) (reported : Nat) (endOfStream : Bool) :
      Contact config a (a.withThread { a.thread with now, reported, endOfStream })

/-- What a cycle does to a thread, move by move.  Unlike in a `Step`, nothing that a thread keeps is
left open. -/
inductive Beat (config : Config) : Account → Account → Prop
  /-- A move of the dispatch stage. -/
  | dispatch {a : Account} {th : Thread} (admitted : Thread.Admission config a.clock a.thread th) :
      Beat config a (a.withThread th)
  /-- A move of the issue stage. -/
  | issue {a : Account} {th : Thread} (fired : Thread.Firing config a.clock a.thread th) :
      Beat config a (a.withThread th)
  /-- The oldest entry leaves. -/
  | leave {a b : Account} (left : Leave config a b) : Beat config a b
  /-- The clock goes on, and the thread is charged for it. -/
  | advance {a : Account} (histogram : Bool) (span : Time) :
      Beat config a
        { a with
          clock := a.clock.addLatency span
          thread := a.thread.charge histogram a.clock.now span }

/-- What happens to a thread while nobody moves the time of its core. -/
inductive Move (config : Config) : Account → Account → Prop
  /-- A cycle does something to the thread. -/
  | beat {a b : Account} (beat : Beat config a b) : Move config a b
  /-- The owner of the window turns to the thread. -/
  | contact {a b : Account} (contacted : Contact config a b) : Move config a b

variable {config : Config} {a b : Account}

theorem Leave.drift (h : Leave config a b) : Drift config a b := by
  cases h with
  | retire oldest done stays => exact .retire oldest done stays
  | flush oldest done flushes flushed => exact .flush oldest done flushes flushed

theorem Contact.drift (h : Contact config a b) : Drift config a b := by
  cases h with
  | push same pushed => exact .push same pushed
  | tell now reported endOfStream => exact .keep ⟨rfl, rfl, rfl, rfl, rfl, rfl, rfl⟩

theorem Beat.steps (h : Beat config a b) : Steps config a b := by
  cases h with
  | dispatch admitted => exact .of_works (admitted.intakes.lift id fun _ _ => Thread.Intake.work)
  | issue fired => exact .of_works fired.works
  | leave left => exact .single left.drift.step
  | advance histogram span =>
    have charged : Step config a (a.withThread (a.thread.charge histogram a.clock.now span)) :=
      .work (.keep ⟨rfl, rfl, rfl, rfl, rfl, rfl, rfl⟩)
    exact .tail (.single charged) (.tick rfl (Time.le_add_right _ _))

/-- A move is a series of steps. -/
theorem Move.steps (h : Move config a b) : Steps config a b := by
  cases h with
  | beat beat => exact beat.steps
  | contact contacted => exact .single contacted.drift.step

end Account

end CoreTiming
