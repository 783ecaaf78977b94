import CoreTiming.Proofs.Outlook

/-!
# Quiet windows

A window of one thread is quiet up to a time if nothing is due in it before that time.  The time that
the stages of a cycle give is such a time, and a cycle that begins before it changes nothing but what
time is charged to.
-/

namespace CoreTiming

open Faulting

/-- The charges of the thread. -/
def Thread.charges (th : Thread) : Charges :=
  { stall := th.stall
    cause := th.cause
    longLoads := th.longLoads
    cpi := th.stats.cpi
    loadHistogram := th.stats.loadHistogram }

/-- Loads that are done by some time are done by any later one. -/
theorem sameLive_filter {now time : Time} (early : now ≤ time) (loads : List LongLoad) :
    SameLive time loads (loads.filter fun load => now < load.done) := by
  unfold SameLive
  rw [List.filter_filter]
  refine List.filter_congr fun load _ => ?_
  by_cases live : time < load.done
  · simp [live, lt_of_le_of_lt early live]
  · simp [live]

/-- Before `time`, dispatch may leave the charges `c` behind although it has done nothing: no time is
charged yet, and at most loads that are done by then have been dropped. -/
structure Thread.Noted (time : Time) (th : Thread) (c : Charges) : Prop where
  /-- No time has been charged. -/
  cpi : c.cpi = th.stats.cpi
  /-- The live loads are the same. -/
  same : SameLive time th.longLoads c.longLoads
  /-- There are no new ones. -/
  loads : ∀ load ∈ c.longLoads, load ∈ th.longLoads

namespace Thread

variable {th : Thread} {clock : Clock} {width : Nat}

/-- Nothing leaves before the oldest entry is done. -/
theorem commit_early (early : clock.now < th.headDone) (penalty width : Nat) (keepLog : Bool) :
    commit clock penalty keepLog width th = .ok 0 th := by
  cases width with
  | zero => rfl
  | succ width =>
    unfold commit
    rw [get_bind]
    unfold headDone at early
    cases oldest : th.oldest? with
    | none => rfl
    | some e =>
      rw [oldest] at early
      have waits : clock.now < e.done := early
      simp only [if_pos waits]
      rfl

/-- If the issue stage has nothing to announce before the next cycle, nothing leaves in this one. -/
theorem Alert.not_done {dispatchEvent issueEvent : Time} (h : th.Alert clock.now)
    (next : 0 < th.inWindow → issueEvent = th.nextEvent) (later : clock.next < dispatchEvent)
    (later' : clock.next < issueEvent) : ¬th.headDone ≤ clock.now := by
  intro done
  by_cases held : 0 < th.inWindow
  · rw [next held] at later'
    exact absurd later' (not_lt_of_ge (le_trans (h.nextEvent_le done) clock.le_next))
  · -- nothing leaves an empty window before the end of time
    have never : th.headDone = .never := by
      unfold headDone oldest?
      rw [if_pos (by omega)]
      rfl
    rw [never] at done
    have last := le_trans (le_trans (Time.le_never dispatchEvent) done) clock.le_next
    exact absurd later (not_lt_of_ge last)

theorem leaving_early (early : clock.now < th.headDone) : th.leaving clock.now width = [] := by
  unfold headDone at early
  cases oldest : th.oldest? with
  | none => exact leaving_of_empty oldest _ _
  | some e =>
    rw [oldest] at early
    exact leaving_of_early oldest early _

end Thread

namespace Window

variable {M : Type} {w v : Window M} {l : Lane M} {running : Running} {time event : Time}

/-! ## Section 1: Regular windows -/

/-- The only lane of the window is `l`, and its thread acts at whole cycles. -/
structure Regular (w : Window M) (l : Lane M) : Prop where
  /-- There is no other lane. -/
  alone : w.lanes = #[l]
  /-- The times of the thread lie on the grid. -/
  thread : l.thread.Regular w.clock.period
  /-- So does the time on the clock. -/
  grid : w.clock.now.OnGrid w.clock.period
  /-- The thread has not been told of times to come. -/
  told : l.thread.now ≤ w.clock.now
  /-- The thread does not miss the time at which its oldest entry is done. -/
  alert : l.thread.Alert w.clock.now
  /-- It is the thread's turn to dispatch. -/
  dispatchTurn : w.dispatchTurn = 0
  /-- It is the thread's turn to issue. -/
  issueTurn : w.issueTurn = 0

/-- Nothing is due in the window before `time`, but some work is left. -/
structure Quiet (running : Running) (time : Time) (w : Window M) (l : Lane M) : Prop where
  /-- There is one thread, which acts at whole cycles. -/
  regular : Regular w l
  /-- Nothing is dispatched. -/
  idle : l.thread.Idle (running.getD 0 false) w.share w.config.core.dispatchWidth time
  /-- The run goes on. -/
  hasWork : l.thread.hasWork (running.getD 0 false) = true
  /-- Nothing issues. -/
  nextEvent : 0 < l.thread.inWindow → time ≤ l.thread.nextEvent
  /-- Nothing leaves. -/
  headDone : time ≤ l.thread.headDone

theorem Regular.advance (h : Regular w l) :
    Regular (w.advance w.clock.period.length)
      { l with
        thread := l.thread.charge w.config.window.loadHistogram w.clock.now w.clock.period.length } := by
  have later : w.clock.now ≤ w.clock.now + w.clock.period.length := Time.le_add_right _ _
  rw [advance_alone h.alone]
  exact
    { alone := rfl
      thread := h.thread.of_same rfl rfl rfl rfl fun _ mem => mem
      grid := h.grid.add w.clock.period.onGrid_length
      told := le_trans h.told later
      alert := h.alert.imp_right fun due => le_trans due later
      dispatchTurn := h.dispatchTurn
      issueTurn := h.issueTurn }

/-- Time passes, but not enough for anything to be due. -/
theorem Quiet.advance (h : Quiet running time w l) :
    Quiet running time (w.advance w.clock.period.length)
      { l with
        thread := l.thread.charge w.config.window.loadHistogram w.clock.now w.clock.period.length } where
  regular := h.regular.advance
  idle := h.idle.of_same rfl rfl rfl rfl
  hasWork := h.hasWork
  nextEvent := h.nextEvent
  headDone := h.headDone

/-- What time has been charged to is not looked at. -/
theorem Quiet.recharge {c : Charges} (h : Quiet running time w l)
    (loads : ∀ load ∈ c.longLoads, load ∈ l.thread.longLoads) :
    Quiet running time { w with lanes := #[{ l with thread := l.thread.recharge c }] }
      { l with thread := l.thread.recharge c } where
  regular :=
    { alone := rfl
      thread := h.regular.thread.of_same rfl rfl rfl rfl loads
      grid := h.regular.grid
      told := h.regular.told
      alert := h.regular.alert
      dispatchTurn := h.regular.dispatchTurn
      issueTurn := h.regular.issueTurn }
  idle := h.idle.of_same rfl rfl rfl rfl
  hasWork := h.hasWork
  nextEvent := h.nextEvent
  headDone := h.headDone

variable [MemorySystem M]

/-! ## Section 2: Up to the time that a cycle gives, a window is quiet -/

theorem Regular.work (h : Regular w l) (can : w.canExecute running = true)
    (ran : work running w = .ok event v) :
    ∃ l', Regular v l' ∧ v.clock = w.clock ∧ event.OnGrid w.clock.period ∧
      (w.clock.next < event → Quiet running event v l') := by
  rw [canExecute_alone h.alone, Bool.and_eq_true] at can
  obtain ⟨supplied, left⟩ := can
  unfold Window.work at ran
  obtain ⟨dispatchEvent, w₁, dispatched, ran⟩ := bind_eq_ok.mp ran
  obtain ⟨issueEvent, w₂, issued, ran⟩ := bind_eq_ok.mp ran
  obtain ⟨commitEvent, w₃, committed, ran⟩ := bind_eq_ok.mp ran
  obtain ⟨rfl, rfl⟩ := pure_eq_ok.mp ran
  -- dispatch
  obtain ⟨l₁, turned₁, fed, due₁, idle⟩ :=
    turned_dispatch h.alone h.thread h.grid supplied h.told dispatched
  have alert₁ : l₁.thread.Alert w.clock.now := by
    unfold Thread.Alert
    rw [fed.headDone_eq h.thread]
    exact h.alert.imp (le_trans fed.nextEvent_le) (le_trans fed.nextEvent_le)
  -- issue
  have issuing := turned_issue (l := l₁) (h := issued)
  rw [turned₁.clock] at issuing
  obtain ⟨l₂, turned₂, fired, alert₂, due₂, next⟩ :=
    issuing turned₁.after fed.regular h.grid alert₁
  have turned := turned₁.trans turned₂
  -- commit
  have committing := turned_commit (l := l₂) (h := committed)
  rw [turned.clock] at committing
  obtain ⟨l₃, turned₃, regular, now, rfl, stayed⟩ :=
    committing turned.after fired.regular h.grid alert₂
  have through := turned.trans turned₃
  have regular₃ : Regular w₃ l₃ :=
    { alone := through.after
      thread := through.clock ▸ regular
      grid := through.clock ▸ h.grid
      told := by
        rw [now, fired.now, fed.now, through.clock]
        exact h.told
      alert := by
        rw [through.clock]
        exact stayed.elim (fun same => same ▸ alert₂) fun ⟨_, due⟩ => .inr due
      dispatchTurn := through.dispatchTurn h.dispatchTurn
      issueTurn := through.issueTurn h.issueTurn }
  refine ⟨l₃, regular₃, through.clock, (due₁.min due₂).min regular.onGrid_headDone, fun later => ?_⟩
  rw [lt_min_iff, lt_min_iff] at later
  obtain ⟨⟨later₁, later₂⟩, -⟩ := later
  -- had anything left, the issue stage would have announced it
  obtain rfl : l₃ = l₂ := stayed.resolve_right fun ⟨done, _⟩ => alert₂.not_done next later₁ later₂ done
  have first : min (min dispatchEvent issueEvent) l₃.thread.headDone ≤ dispatchEvent :=
    le_trans (min_le_left _ _) (min_le_left _ _)
  refine
    { regular := regular₃, idle := ?_, hasWork := ?_, nextEvent := fun held => ?_,
      headDone := min_le_right _ _ }
  · rw [through.share, through.config]
    exact ((idle later₁).mono first).of_same fired.length_eq fired.inWindow fired.stalledUntil
      fired.endOfStream
  · have left := fed.hasWork left
    unfold Thread.hasWork Thread.buffered at left ⊢
    rwa [fired.inWindow, fired.length_eq]
  · rw [← next held]
    exact le_trans (min_le_left _ _) (min_le_right _ _)

/-! ## Section 3: Cycles of quiet windows -/

omit [MemorySystem M] in
theorem Quiet.canExecute (h : Quiet running time w l) (early : w.clock.now < time) :
    w.canExecute running = true := by
  have supplied : w.isSupplied running 0 l = true := by
    unfold isSupplied Thread.canDispatch
    cases h.idle with
    | stalled stalled =>
      have blocked : ¬l.thread.stalledUntil ≤ w.clock.now := not_le_of_gt (lt_of_lt_of_le early stalled)
      simp [blocked]
    | stopped stopped => simp [stopped]
    | full full => simp [not_lt_of_ge full]
    | drained empty supplied => simp [supplied]
  rw [canExecute_alone h.regular.alone, supplied, h.hasWork]
  rfl

/-- Some micro-ops wait behind a window that has no room, or none wait. -/
theorem dispatchUpTo_nothing {width : Nat} (alone : w.lanes = #[l])
    (nothing : ¬(l.thread.inWindow < w.share ∧ 0 < l.thread.buffered)) :
    dispatchUpTo 0 width false event w = .ok (false, event) w := by
  cases width with
  | zero => rfl
  | succ width =>
    unfold dispatchUpTo
    rw [get_bind, thread_bind alone, if_neg nothing]
    rfl

/-- The dispatch slot is of no use to a thread that has nothing to dispatch. -/
theorem dispatchLane_nothing (alone : w.lanes = #[l]) (empty : l.thread.buffered = 0) :
    dispatchLane 0 event w = .ok (false, event)
      { w with lanes := #[{ l with thread := l.thread.beginDispatch w.clock.now }] } := by
  have nothing : ¬(l.thread.inWindow < w.share ∧ 0 < l.thread.buffered) := by
    rw [empty]
    exact fun both => absurd both.2 (Nat.lt_irrefl 0)
  unfold dispatchLane
  rw [get_bind]
  refine bind_eq_ok.mpr ⟨(), _, modifyThread_alone alone _, ?_⟩
  refine bind_eq_ok.mpr ⟨(false, event), _,
    dispatchUpTo_nothing (l := { l with thread := l.thread.beginDispatch w.clock.now }) rfl nothing, ?_⟩
  dsimp only
  rw [get_bind, thread_bind rfl]
  exact congrFun (if_neg nothing) _

/-- An idle thread only learns what the cycle is charged to, and which loads are done. -/
theorem Quiet.dispatchTurnOf (h : Quiet running time w l) (early : w.clock.now < time) :
    ∃ round c, dispatchTurnOf running {} 0 w =
        .ok round { w with lanes := #[{ l with thread := l.thread.recharge c }] } ∧
      l.thread.Noted time c := by
  have alone := h.regular.alone
  have charged : ∀ cause : Thread → Cause, modifyThread 0 (fun th => { th with cause := cause th }) w =
      .ok () { w with lanes := #[{ l with
        thread := l.thread.recharge { l.thread.charges with cause := cause l.thread } }] } :=
    fun cause => modifyThread_alone alone _
  unfold Window.dispatchTurnOf
  rw [get_bind, thread_bind alone]
  -- the conditions are taken in the order in which dispatch looks at them
  by_cases stalled : w.clock.now < l.thread.stalledUntil
  · simp only [if_pos stalled]
    exact ⟨_, _, bind_eq_ok.mpr ⟨(), _, charged _, rfl⟩, ⟨rfl, rfl, fun _ mem => mem⟩⟩
  simp only [if_neg stalled]
  by_cases stopped : running.getD 0 false = false
  · simp only [stopped, Bool.not_false, Bool.true_or, if_true]
    exact ⟨_, _, bind_eq_ok.mpr ⟨(), _, charged _, rfl⟩, ⟨rfl, rfl, fun _ mem => mem⟩⟩
  have not_ahead : ¬w.clock.now < l.thread.now := not_lt_of_ge h.regular.told
  rw [Bool.not_eq_false] at stopped
  simp only [stopped, Bool.not_true, Bool.false_or, decide_eq_true_iff, if_neg not_ahead]
  by_cases full : w.share ≤ l.thread.inWindow
  · simp only [if_pos full]
    exact ⟨_, _, bind_eq_ok.mpr ⟨(), _, charged _, rfl⟩, ⟨rfl, rfl, fun _ mem => mem⟩⟩
  simp only [if_neg full, Option.isSome_none, Bool.false_eq_true, if_false]
  -- of all reasons to be idle, only one is left
  have empty : l.thread.buffered = 0 := by
    cases h.idle with
    | stalled later => exact absurd (lt_of_lt_of_le early later) stalled
    | stopped off => cases stopped.symm.trans off
    | full closed => exact absurd closed full
    | drained empty supplied => exact empty
  refine ⟨{}, { l.thread.charges with
      stall := none
      cause := slotCause (l.thread.beginDispatch w.clock.now) false (l.thread.headCause? w.clock.now)
      longLoads := l.thread.longLoads.filter fun load => w.clock.now < load.done }, ?_, ?_⟩
  · refine bind_eq_ok.mpr ⟨(false, .never), _, dispatchLane_nothing alone empty, ?_⟩
    exact bind_eq_ok.mpr ⟨(), _, modifyThread_alone rfl _, rfl⟩
  · exact ⟨rfl, sameLive_filter (le_of_lt early) _, fun _ mem => List.mem_of_mem_filter mem⟩

theorem Quiet.dispatch (h : Quiet running time w l) (early : w.clock.now < time) :
    ∃ event c, dispatch running w =
        .ok event { w with lanes := #[{ l with thread := l.thread.recharge c }] } ∧
      l.thread.Noted time c := by
  have one : w.lanes.size = 1 := by rw [h.regular.alone]; rfl
  obtain ⟨round, c, turn, rest⟩ := h.dispatchTurnOf early
  refine ⟨round.event, c, ?_, rest⟩
  unfold Window.dispatch
  rw [get_bind, rotation_eq one, List.foldlM_cons, bind_assoc]
  refine bind_eq_ok.mpr ⟨round, _, turn, ?_⟩
  rw [List.foldlM_nil, pure_bind, modify_bind, turnAfter_eq rfl, ← h.regular.dispatchTurn]
  rfl

theorem Quiet.issue (h : Quiet running time w l) (early : w.clock.now < time) :
    ∃ event, issue w = .ok event w := by
  have alone := h.regular.alone
  have one : w.lanes.size = 1 := by rw [alone]; rfl
  have turn : ∃ event, issueLane 0 .never w = .ok (false, event) w := by
    unfold issueLane
    rw [get_bind, thread_bind alone]
    by_cases due : w.clock.now < l.thread.nextEvent
    · rw [if_pos due]
      exact ⟨_, rfl⟩
    -- if the thread looks, the window is empty
    · have empty : l.thread.inWindow = 0 := by
        by_contra held
        exact due (lt_of_lt_of_le early (h.nextEvent (Nat.pos_of_ne_zero held)))
      rw [if_neg due, if_pos empty]
      exact ⟨_, rfl⟩
  obtain ⟨event, turn⟩ := turn
  refine ⟨event, ?_⟩
  unfold Window.issue
  rw [get_bind, rotation_eq one]
  refine bind_eq_ok.mpr ⟨(none, event), w, bind_eq_ok.mpr ⟨(false, event), w, turn, rfl⟩, ?_⟩
  dsimp only
  rw [modify_bind, turnAfter_eq one, ← h.regular.issueTurn]
  rfl

theorem Quiet.commit (h : Quiet running time w l) (early : w.clock.now < time) :
    ∃ event, commit w = .ok event w := by
  have alone := h.regular.alone
  have one : w.lanes.size = 1 := by rw [alone]; rfl
  have stays := Thread.commit_early (lt_of_lt_of_le early h.headDone)
  have turn : commitLane 0 w = .ok () w := by
    unfold commitLane
    rw [get_bind]
    refine bind_eq_ok.mpr ⟨0, w, (onThread_alone_eq_ok alone).mpr ⟨l.thread, stays _ _ _, ?_⟩, rfl⟩
    show w = { w with lanes := #[l] }
    rw [← alone]
  refine ⟨l.thread.headDone, ?_⟩
  unfold Window.commit
  rw [get_bind, one]
  refine bind_eq_ok.mpr ⟨(), w, bind_eq_ok.mpr ⟨(), w, turn, rfl⟩, ?_⟩
  rw [get_bind, alone]
  rfl

omit [MemorySystem M] in
theorem Quiet.leaving (h : Quiet running time w l) (early : w.clock.now < time) (i : Nat) :
    w.leaving i = [] := by
  unfold Window.leaving
  rw [h.regular.alone]
  cases i with
  | zero => exact Thread.leaving_early (lt_of_lt_of_le early h.headDone)
  | succ i => rfl

/-- A cycle of a quiet window only charges time, and leaves the window quiet. -/
theorem Quiet.work (h : Quiet running time w l) (early : w.clock.now < time) :
    ∃ event v l', work running w = .ok event v ∧ v.clock = w.clock ∧ Alike (SameLive time) 0 w v ∧
      Quiet running time v l' ∧ ∀ i, leavingInCycle running i w = [] := by
  obtain ⟨dispatchEvent, c, dispatched, noted⟩ := h.dispatch early
  have quiet := h.recharge noted.loads
  obtain ⟨issueEvent, issued⟩ := quiet.issue early
  obtain ⟨commitEvent, committed⟩ := quiet.commit early
  have paid : c.cpi.total + 0 = l.thread.stats.cpi.total := by rw [noted.cpi, add_zero]
  refine ⟨min (min dispatchEvent issueEvent) commitEvent,
    { w with lanes := #[{ l with thread := l.thread.recharge c }] }, _, ?_, rfl,
    .of_eq rfl h.regular.alone (.intro (.recharge c noted.same paid)), quiet, fun i => ?_⟩
  · exact bind_eq_ok.mpr ⟨_, _, dispatched, bind_eq_ok.mpr ⟨_, _, issued,
      bind_eq_ok.mpr ⟨_, _, committed, rfl⟩⟩⟩
  -- up to the commit stage the cycle has not even touched the entries
  · have upToCommit : (do let _ ← Window.dispatch running; Window.issue : Faulting (Window M) Time) w =
        .ok issueEvent _ := bind_eq_ok.mpr ⟨_, _, dispatched, issued⟩
    unfold leavingInCycle
    rw [upToCommit]
    exact quiet.leaving early i

end Window

end CoreTiming
