import CoreTiming.Proofs.AbreastWindows

/-!
# Cycles abreast

What windows abreast do in the issue stage and in the commit stage, they do alike, and so in a whole cycle:
the same micro-ops leave at the same times, and both clocks move by the same span.
-/

namespace CoreTiming

open Faulting

namespace Window

variable {M : Type} {w v w₁ v₁ : Window M} {i : Nat}

/-! ## Section 1: The issue stage -/

section Issue

variable [MemorySystem M] {answers : Nat → Answers} {rests rests' : Nat → List OpInstance} {time : Time}
  {n k : Nat} {pass result result' : IssuePass}

omit [MemorySystem M] in
theorem getElem?_setLane {l l₁ : Lane M} (found : w.lanes[i]? = some l) :
    (w.lanes.setIfInBounds i l₁)[i]? = some l₁ :=
  Array.getElem?_setIfInBounds_self_of_lt (Array.getElem?_eq_some_iff.mp found).1

theorem Abreast.issueEntry {done done' : Time} {l : Lane M}
    (h : Abreast (LanesAbreast answers rests rests' time) w v) (found : w.lanes[i]? = some l)
    (inside : k < l.thread.inWindow) (ran : issueEntry i k w = .ok done w₁)
    (ran' : issueEntry i k v = .ok done' v₁) :
    done' = done ∧ Abreast (LanesAbreast answers rests rests' time) w₁ v₁ ∧
      ∃ l₁, w₁.lanes[i]? = some l₁ ∧ l₁.thread.inWindow = l.thread.inWindow := by
  unfold Window.issueEntry at ran ran'
  rw [get_bind] at ran ran'
  rw [h.clock_eq] at ran'
  -- memory is asked first
  obtain ⟨⟨⟩, w₂, ⟨⟩, v₂, asked, asked', ran, ran'⟩ := bind_both ran ran'
  obtain ⟨m, m', l₂, l₂', at_i, at_i', lanes, resolved, resolved', rfl, rfl⟩ := h.onLane asked asked'
  obtain rfl : l = m := Option.some.inj (found.symm.trans at_i)
  have lanes₂ := Lane.Abreast.resolve lanes inside resolved resolved'
  have inWindow := Lane.inWindow_resolve resolved
  have h₂ := h.set ⟨l, found⟩ lanes₂
  rw [get_bind, thread_bind_of_found (getElem?_setLane found)] at ran
  rw [get_bind, thread_bind_of_found (getElem?_setLane at_i')] at ran'
  obtain ⟨s, threads⟩ := lanes₂.threads
  rcases rel_cases (threads.rel_get? (inWindow ▸ inside)) with ⟨entry, entry'⟩ | ⟨e, f, entry, entry', same⟩
  · simp only [entry, entry'] at ran ran'
    obtain ⟨⟨rfl, rfl⟩, rfl, rfl⟩ := pure_both ran ran'
    exact ⟨rfl, h₂, l₂, getElem?_setLane found, inWindow⟩
  -- then the entry starts
  · simp only [entry, entry', same.u.op_eq, same.u.latency_eq, modify_bind] at ran ran'
    obtain ⟨⟨⟩, w₃, ⟨⟩, v₃, started, started', ran, ran'⟩ := bind_both ran ran'
    obtain ⟨⟨rfl, rfl⟩, rfl, rfl⟩ := pure_both ran ran'
    have accepted := h₂.map (f := accept e.u.op (w.clock.period.cycles e.u.latency)) fun _ => rfl
    obtain ⟨y, y', th, th', at_y, at_y', -, begun, begun', rfl, rfl⟩ := accepted.onThread started started'
    obtain rfl : l₂ = y := Option.some.inj ((getElem?_setLane found).symm.trans at_y)
    obtain rfl : l₂' = y' := Option.some.inj ((getElem?_setLane at_i').symm.trans at_y')
    have threads₃ := threads.start entry entry' begun begun'
    have kept : th.inWindow = l₂.thread.inWindow := by
      rw [(Thread.start_eq_ok begun).1]
    refine ⟨rfl, accepted.set ⟨l₂, at_y⟩ (lanes₂.setThread threads₃), _, getElem?_setLane at_y, ?_⟩
    exact kept.trans inWindow

theorem Abreast.accountLongLoad {l : Lane M} {cutoff : Nat} {now : Time}
    (h : Abreast (LanesAbreast answers rests rests' time) w v) (found : w.lanes[i]? = some l)
    (inside : k < l.thread.inWindow)
    (left : Window.modifyThread i (Thread.accountLongLoad cutoff now k) w = .ok () w₁)
    (right : Window.modifyThread i (Thread.accountLongLoad cutoff now k) v = .ok () v₁) :
    Abreast (LanesAbreast answers rests rests' time) w₁ v₁ ∧
      ∃ l₁, w₁.lanes[i]? = some l₁ ∧ l₁.thread.inWindow = l.thread.inWindow := by
  refine ⟨h.modifyThread left right fun m m' at_i _ lanes => ?_, ?_⟩
  · obtain rfl : l = m := Option.some.inj (found.symm.trans at_i)
    obtain ⟨s, threads⟩ := lanes.threads
    exact lanes.setThread (threads.accountLongLoad inside _ _)
  · obtain ⟨m, at_i, rfl⟩ := modifyThread_eq_ok.mp left
    obtain rfl : l = m := Option.some.inj (found.symm.trans at_i)
    exact ⟨_, getElem?_setLane found, (Thread.sameFlow_accountLongLoad cutoff now k l.thread).inWindow⟩

omit [MemorySystem M] in
/-- Both windows judge an entry alike, whatever its number is. -/
theorem Abreast.judge_eq {R : Nat → Lane M → Lane M → Prop} {s : Shift} {e f : Entry} (h : Abreast R w v)
    (same : e.Renumbered s f) (pass : IssuePass) : v.judge pass f = w.judge pass e := by
  have verdict : v.judge pass f = w.judge pass f := h.congr (f := (·.judge pass f)) fun _ => rfl
  rw [verdict]
  unfold judge
  rw [same.ready_eq, same.u.op_eq]

theorem hold_eq {s : Shift} {e f : Entry} (same : e.Renumbered s f) (pass : IssuePass) (now : Time)
    (fence : Bool) : pass.hold now f fence = pass.hold now e fence := by
  unfold IssuePass.hold
  rw [same.u.op_eq, same.addressReady_eq]

theorem Abreast.issueFrom {l : Lane M} (h : Abreast (LanesAbreast answers rests rests' time) w v)
    (found : w.lanes[i]? = some l) (inside : k + n ≤ l.thread.inWindow)
    (ran : issueFrom i n k pass w = .ok result w₁) (ran' : issueFrom i n k pass v = .ok result' v₁) :
    result' = result ∧ Abreast (LanesAbreast answers rests rests' time) w₁ v₁ := by
  induction n generalizing k pass w v l with
  | zero =>
    obtain ⟨⟨rfl, rfl⟩, rfl, rfl⟩ := pure_both ran ran'
    exact ⟨rfl, h⟩
  | succ n ih =>
    unfold Window.issueFrom at ran ran'
    rw [get_bind] at ran ran'
    obtain ⟨x, l', at_x, found', lanes, ran, ran'⟩ := h.thread_bind ran ran'
    obtain rfl : l = x := Option.some.inj (found.symm.trans at_x)
    obtain ⟨s, threads⟩ := lanes.threads
    rcases rel_cases (threads.rel_get? (i := k) (by omega)) with ⟨entry, entry'⟩ | ⟨e, f, entry, entry', same⟩
    · simp only [entry, entry'] at ran ran'
      obtain ⟨⟨rfl, rfl⟩, rfl, rfl⟩ := pure_both ran ran'
      exact ⟨rfl, h⟩
    · -- the verdict is the same, since the entry is, and so are the queues
      simp only [entry, entry', same.isDone_eq, same.done_eq, same.ready_eq, h.judge_eq same, hold_eq same,
        h.clock_eq, h.config_eq] at ran ran'
      rcases ite_both ran ran' with ⟨-, ran, ran'⟩ | ⟨-, ran, ran'⟩
      · exact ih h found (by omega) ran ran'
      · generalize w.judge _ e = verdict at ran ran'
        cases verdict with
        | stop =>
          obtain ⟨⟨rfl, rfl⟩, rfl, rfl⟩ := pure_both ran ran'
          exact ⟨rfl, h⟩
        | issue =>
          obtain ⟨done, w₂, done', v₂, left, right, ran, ran'⟩ := bind_both ran ran'
          obtain ⟨rfl, h₂, l₂, found₂, span₂⟩ := h.issueEntry found (by omega) left right
          obtain ⟨⟨⟩, w₃, ⟨⟩, v₃, counted, counted', ran, ran'⟩ := bind_both ran ran'
          obtain ⟨h₃, l₃, found₃, span₃⟩ := h₂.accountLongLoad found₂ (by omega) counted counted'
          rcases ite_both ran ran' with ⟨-, ran, ran'⟩ | ⟨-, ran, ran'⟩
          · obtain ⟨⟨rfl, rfl⟩, rfl, rfl⟩ := pure_both ran ran'
            exact ⟨rfl, h₃⟩
          · exact ih h₃ found₃ (by omega) ran ran'
        | wait | fence =>
          dsimp only at ran ran'
          rcases ite_both ran ran' with ⟨-, ran, ran'⟩ | ⟨-, ran, ran'⟩
          · obtain ⟨⟨rfl, rfl⟩, rfl, rfl⟩ := pure_both ran ran'
            exact ⟨rfl, h⟩
          · exact ih h found (by omega) ran ran'

theorem Abreast.issueLane {event : Time} {done done' : Bool × Time}
    (h : Abreast (LanesAbreast answers rests rests' time) w v) (ran : issueLane i event w = .ok done w₁)
    (ran' : issueLane i event v = .ok done' v₁) :
    done' = done ∧ Abreast (LanesAbreast answers rests rests' time) w₁ v₁ := by
  unfold Window.issueLane at ran ran'
  rw [get_bind] at ran ran'
  obtain ⟨l, l', found, found', lanes, ran, ran'⟩ := h.thread_bind ran ran'
  obtain ⟨s, threads⟩ := lanes.threads
  simp only [h.clock_eq, threads.nextEvent, threads.inWindow] at ran'
  rcases ite_both ran ran' with ⟨-, ran, ran'⟩ | ⟨-, ran, ran'⟩
  -- nothing is due on this lane yet
  · obtain ⟨⟨rfl, rfl⟩, rfl, rfl⟩ := pure_both ran ran'
    exact ⟨rfl, h⟩
  · rcases ite_both ran ran' with ⟨-, ran, ran'⟩ | ⟨-, ran, ran'⟩
    -- its window is empty
    · obtain ⟨⟨rfl, rfl⟩, rfl, rfl⟩ := pure_both ran ran'
      exact ⟨rfl, h⟩
    · obtain ⟨pass, w₂, pass', v₂, looked, looked', ran, ran'⟩ := bind_both ran ran'
      obtain ⟨rfl, h₂⟩ := h.issueFrom found (by omega) looked looked'
      obtain ⟨⟨⟩, w₃, ⟨⟩, v₃, noted, noted', ran, ran'⟩ := bind_both ran ran'
      obtain ⟨⟨rfl, rfl⟩, rfl, rfl⟩ := pure_both ran ran'
      refine ⟨rfl, h₂.modifyThread noted noted' fun m m' _ _ lanes => ?_⟩
      obtain ⟨s, threads⟩ := lanes.threads
      exact lanes.setThread (threads.setNextEvent _)

theorem Abreast.issueLanes {todo : List Nat} {event : Time} {done done' : Option Nat × Time}
    (h : Abreast (LanesAbreast answers rests rests' time) w v)
    (ran : issueLanes todo event w = .ok done w₁) (ran' : issueLanes todo event v = .ok done' v₁) :
    done' = done ∧ Abreast (LanesAbreast answers rests rests' time) w₁ v₁ := by
  induction todo generalizing w v event with
  | nil =>
    obtain ⟨⟨rfl, rfl⟩, rfl, rfl⟩ := pure_both ran ran'
    exact ⟨rfl, h⟩
  | cons i todo ih =>
    unfold Window.issueLanes at ran ran'
    obtain ⟨⟨any, event⟩, w₂, ⟨any', event'⟩, v₂, first, first', ran, ran'⟩ := bind_both ran ran'
    obtain ⟨same, h₂⟩ := h.issueLane first first'
    cases same
    simp only [get_bind, h₂.config_eq] at ran ran'
    rcases ite_both ran ran' with ⟨-, ran, ran'⟩ | ⟨-, ran, ran'⟩
    · obtain ⟨⟨rfl, rfl⟩, rfl, rfl⟩ := pure_both ran ran'
      exact ⟨rfl, h₂⟩
    · exact ih h₂ ran ran'

theorem Abreast.issue {event event' : Time} (h : Abreast (LanesAbreast answers rests rests' time) w v)
    (ran : issue w = .ok event w₁) (ran' : issue v = .ok event' v₁) :
    event' = event ∧ Abreast (LanesAbreast answers rests rests' time) w₁ v₁ := by
  have turn : v.issueTurn = w.issueTurn := h.congr (f := Window.issueTurn) fun _ => rfl
  obtain ⟨last, w₂, turns, rfl⟩ := issue_eq_ok ran
  obtain ⟨last', v₂, turns', rfl⟩ := issue_eq_ok ran'
  rw [turn, h.size_eq] at turns' ⊢
  rw [h.rotation_eq] at turns'
  obtain ⟨same, h₂⟩ := h.issueLanes turns turns'
  cases same
  refine ⟨rfl, ?_⟩
  rw [h₂.turnAfter_eq]
  exact h₂.map (f := fun w => { w with issueTurn := w₂.turnAfter _ }) fun _ => rfl

end Issue

/-! ## Section 2: The commit stage -/

section Commit

variable [MemorySystem M] {answers : Nat → Answers} {rests rests' : Nat → List OpInstance} {time : Time}

theorem Abreast.leaving_times (h : Abreast (LanesAbreast answers rests rests' time) w v) (i : Nat) :
    (v.leaving i).map Retirement.times = (w.leaving i).map Retirement.times := by
  have related := h.lanes i
  unfold leaving
  rw [h.clock_eq, h.config_eq]
  generalize w.lanes[i]? = o at related
  generalize v.lanes[i]? = o' at related
  cases related with
  | none => rfl
  | some lanes =>
    obtain ⟨s, threads⟩ := lanes.threads
    exact threads.leaving_times _ _

theorem Abreast.commitLane (h : Abreast (LanesAbreast answers rests rests' time) w v)
    (ran : commitLane i w = .ok () w₁) (ran' : commitLane i v = .ok () v₁) :
    Abreast (LanesAbreast answers rests rests' time) w₁ v₁ := by
  unfold Window.commitLane at ran ran'
  rw [get_bind] at ran ran'
  rw [h.clock_eq, h.config_eq] at ran'
  obtain ⟨freed, w₂, freed', v₂, left, right, ran, ran'⟩ := bind_both ran ran'
  obtain ⟨l, l', th, th', found, -, lanes, committed, committed', rfl, rfl⟩ := h.onThread left right
  obtain ⟨s, threads⟩ := lanes.threads
  obtain ⟨rfl, s', threads⟩ := threads.commit committed committed'
  have h₂ := h.set ⟨l, found⟩ (lanes.setThread threads)
  rw [modify_eq_ok] at ran ran'
  subst ran ran'
  exact h₂.map (f := fun w => { w with stationsUsed := w.stationsUsed - freed' }) fun _ => rfl

theorem Abreast.commitLanes {todo : List Nat} (h : Abreast (LanesAbreast answers rests rests' time) w v)
    (ran : todo.forM Window.commitLane w = .ok () w₁) (ran' : todo.forM Window.commitLane v = .ok () v₁) :
    Abreast (LanesAbreast answers rests rests' time) w₁ v₁ := by
  induction todo generalizing w v with
  | nil =>
    obtain ⟨⟨-, rfl⟩, -, rfl⟩ := pure_both ran ran'
    exact h
  | cons i todo ih =>
    obtain ⟨⟨⟩, w₂, ⟨⟩, v₂, first, first', ran, ran'⟩ := bind_both ran ran'
    exact ih (h.commitLane first first') ran ran'

theorem Abreast.commit {event event' : Time} (h : Abreast (LanesAbreast answers rests rests' time) w v)
    (ran : commit w = .ok event w₁) (ran' : commit v = .ok event' v₁) :
    event' = event ∧ Abreast (LanesAbreast answers rests rests' time) w₁ v₁ := by
  unfold Window.commit at ran ran'
  rw [get_bind] at ran ran'
  rw [h.size_eq] at ran'
  obtain ⟨⟨⟩, w₂, ⟨⟩, v₂, lanes, lanes', ran, ran'⟩ := bind_both ran ran'
  have h₂ := h.commitLanes lanes lanes'
  rw [get_bind] at ran ran'
  have first := h₂.lanes 0
  generalize w₂.lanes[0]? = o at first ran
  generalize v₂.lanes[0]? = o' at first ran'
  cases first with
  | none =>
    obtain ⟨⟨rfl, rfl⟩, rfl, rfl⟩ := pure_both ran ran'
    exact ⟨rfl, h₂⟩
  | some lanes =>
    obtain ⟨⟨rfl, rfl⟩, rfl, rfl⟩ := pure_both ran ran'
    obtain ⟨s, threads⟩ := lanes.threads
    have oldest := threads.rel_oldest?
    refine ⟨?_, h₂⟩
    generalize Thread.oldest? _ = o at oldest
    generalize Thread.oldest? _ = o' at oldest
    cases oldest with
    | none => rfl
    | some same =>
      rw [Option.map_some, Option.map_some, same.done_eq]

end Commit

/-! ## Section 3: A cycle -/

section Cycle

variable [MemorySystem M] {answers : Nat → Answers} {rests rests' : Nat → List OpInstance}
  {running running' : Running}

theorem Abreast.advance (h : Abreast (LanesAbreast answers rests rests' w.clock.now) w v) (span : Time) :
    Abreast (LanesAbreast answers rests rests' (w.advance span).clock.now) (w.advance span)
      (v.advance span) := by
  refine ⟨?_, fun i => ?_⟩
  · have frame := h.frame
    unfold Window.advance
    dsimp only
    rw [frame]
  · have related := h.lanes i
    unfold Window.advance
    dsimp only
    rw [Array.getElem?_map, Array.getElem?_map, h.clock_eq, h.config_eq]
    generalize w.lanes[i]? = o at related
    generalize v.lanes[i]? = o' at related
    cases related with
    | none => exact .none
    | some lanes =>
      obtain ⟨s, threads⟩ := lanes.threads
      exact .some (lanes.setThread (threads.charge (Time.le_add_right _ _) _ _ _))

theorem Abreast.cycle (h : Abreast (LanesAbreast answers rests rests' w.clock.now) w v)
    (can : w.canExecute running = true) (can' : v.canExecute running' = true)
    (runs : ∀ i < w.lanes.size, running.getD i false = true ∧ running'.getD i false = true)
    (wide : 0 < w.config.core.dispatchWidth) (ran : cycle toEvent running w = .ok () w₁)
    (ran' : cycle toEvent running' v = .ok () v₁) :
    Abreast (LanesAbreast answers rests rests' w₁.clock.now) w₁ v₁ ∧
      ∀ i, (leavingInCycle running' i v).map Retirement.times =
        (leavingInCycle running i w).map Retirement.times := by
  obtain ⟨dispatchEvent, issueEvent, commitEvent, w₂, w₃, w₄, dispatched, issued, committed, rfl⟩ :=
    stages_of_cycle ran
  obtain ⟨dispatchEvent', issueEvent', commitEvent', v₂, v₃, v₄, dispatched', issued', committed', rfl⟩ :=
    stages_of_cycle ran'
  obtain ⟨rfl, h₂⟩ := h.dispatch can can' runs wide dispatched dispatched'
  obtain ⟨rfl, h₃⟩ := h₂.issue issued issued'
  obtain ⟨rfl, h₄⟩ := h₃.commit committed committed'
  -- both clocks move by the same span
  have clock : w₄.clock = w.clock := by
    rw [commit_frame committed, ← (worked_dispatch dispatched).clock, ← (worked_issue issued).clock]
  have span : toEvent v₄ (min (min dispatchEvent' issueEvent') commitEvent') =
      toEvent w₄ (min (min dispatchEvent' issueEvent') commitEvent') := by
    unfold toEvent
    rw [h₄.size_eq, h₄.clock_eq]
  rw [← clock] at h₄
  rw [span]
  refine ⟨h₄.advance _, fun i => ?_⟩
  have upToCommit : (do let _ ← Window.dispatch running; Window.issue : Faulting (Window M) Time) w =
      .ok issueEvent' w₃ := bind_eq_ok.mpr ⟨_, _, dispatched, issued⟩
  have upToCommit' : (do let _ ← Window.dispatch running'; Window.issue : Faulting (Window M) Time) v =
      .ok issueEvent' v₃ := bind_eq_ok.mpr ⟨_, _, dispatched', issued'⟩
  unfold leavingInCycle
  rw [upToCommit, upToCommit']
  exact h₃.leaving_times i

end Cycle

end Window

end CoreTiming
