import CoreTiming.Proofs.Steps
import CoreTiming.Window.Cycle

/-!
# What a stage comes to

The stages of a cycle are nested loops: a stage gives every lane a turn, and in its turn a lane looks at its
entries one after the other.  This module says once for each of these loops what its next round comes to, with
all that has been checked on the way, so that proofs about the loops go by named cases and need not take the
program apart.
-/

namespace CoreTiming

open Faulting

namespace Window

variable {M : Type} [MemorySystem M] {w v : Window M}

/-! ## Section 1: The pass over the window of a thread -/

/-- The pass has noted that something may change at `time`. -/
abbrev IssuePass.noting (pass : IssuePass) (time : Time) : IssuePass :=
  { pass with event := min pass.event time }

/-- The pass has let an entry issue whose result is available at `done`. -/
abbrev IssuePass.letting (pass : IssuePass) (done : Time) : IssuePass :=
  { pass with issued := pass.issued + 1, event := min pass.event done }

/-- What a pass over lane `i` comes to that looks at position `k` and may look at `n` more. -/
inductive Looks (i n k : Nat) (lane : Lane M) (pass : IssuePass) (w : Window M) (pass' : IssuePass)
    (v : Window M) : Prop
  /-- There is no entry. -/
  | nothing (entry : lane.thread.ring.get? k = none) (ends : pass' = pass) (same : v = w)
  /-- The entry has issued before, and the pass goes on. -/
  | done {e : Entry} (entry : lane.thread.ring.get? k = some e) (done : e.isDone = true)
      (rest : issueFrom i n (k + 1) (pass.noting e.done) w = .ok pass' v)
  /-- Nothing that is behind the entry may issue, either. -/
  | stop {e : Entry} (entry : lane.thread.ring.get? k = some e) (waiting : e.isDone = false)
      (verdict : w.judge (pass.noting e.ready) e = .stop) (ends : pass' = pass.noting e.ready) (same : v = w)
  /-- The entry issues.  The pass ends if it was the last one that may. -/
  | issue {e : Entry} {done : Time} {w₁ w₂ : Window M} (entry : lane.thread.ring.get? k = some e)
      (waiting : e.isDone = false) (verdict : w.judge (pass.noting e.ready) e = .issue)
      (issued : issueEntry i k w = .ok done w₁)
      (counted : modifyThread i (Thread.accountLongLoad w.config.core.longLatencyCutoff w.clock.now k) w₁ =
        .ok () w₂)
      (rest : pass' = (((pass.noting e.ready).letting done).noting w.clock.next) ∧ v = w₂ ∨
        issueFrom i n (k + 1) ((pass.noting e.ready).letting done) w₂ = .ok pass' v)
      (last : w.config.core.dispatchWidth ≤ pass.issued + 1 → pass'.issued = pass.issued + 1 ∧ v = w₂) :
      Looks i n k lane pass w pass' v
  /-- The entry has to wait.  If entries issue in order, those behind it wait with it. -/
  | wait {e : Entry} (entry : lane.thread.ring.get? k = some e) (waiting : e.isDone = false)
      (goesOn : w.judge (pass.noting e.ready) e ≠ .stop) (waits : w.judge (pass.noting e.ready) e ≠ .issue)
      (rest : pass' = (pass.noting e.ready).hold w.clock.now e (w.judge (pass.noting e.ready) e = .fence) ∧ v = w ∨
        issueFrom i n (k + 1)
          ((pass.noting e.ready).hold w.clock.now e (w.judge (pass.noting e.ready) e = .fence)) w =
          .ok pass' v)
      (ordered : w.config.window.inOrder = true → v = w) :
      Looks i n k lane pass w pass' v

theorem looks_of_issueFrom {i n k : Nat} {lane : Lane M} {pass pass' : IssuePass}
    (found : w.lanes[i]? = some lane) (h : issueFrom i (n + 1) k pass w = .ok pass' v) :
    Looks i n k lane pass w pass' v := by
  unfold issueFrom at h
  rw [get_bind, thread_bind_of_found found] at h
  cases entry : lane.thread.ring.get? k with
  | none =>
    simp only [entry, pure_eq_ok] at h
    exact .nothing entry h.1.symm h.2.symm
  | some e =>
    simp only [entry] at h
    cases waiting : e.isDone with
    | true =>
      simp only [waiting, if_true] at h
      exact .done entry waiting h
    | false =>
      simp only [waiting, Bool.false_eq_true, if_false] at h
      cases verdict : w.judge (pass.noting e.ready) e with
      | stop =>
        simp only [verdict, pure_eq_ok] at h
        exact .stop entry waiting verdict h.1.symm h.2.symm
      | issue =>
        simp only [verdict] at h
        obtain ⟨done, w₁, issued, h⟩ := bind_eq_ok.mp h
        obtain ⟨⟨⟩, w₂, counted, h⟩ := bind_eq_ok.mp h
        split at h
        · obtain ⟨rfl, rfl⟩ := pure_eq_ok.mp h
          exact .issue entry waiting verdict issued counted (.inl ⟨rfl, rfl⟩) fun _ => ⟨rfl, rfl⟩
        · rename_i more
          exact .issue entry waiting verdict issued counted (.inr h) fun last => absurd last more
      | _ =>
        simp only [verdict] at h
        refine .wait entry waiting (by simp [verdict]) (by simp [verdict]) ?_ fun ordered => ?_
        · rw [verdict]
          split at h
          · obtain ⟨rfl, rfl⟩ := pure_eq_ok.mp h
            exact .inl ⟨rfl, rfl⟩
          · exact .inr h
        · rw [if_pos ordered, pure_eq_ok] at h
          exact h.2.symm

/-! ## Section 2: The issue stage -/

/-- What the turn of lane `i` in the issue stage comes to. -/
inductive IssueTurn (i : Nat) (lane : Lane M) (event : Time) (w : Window M) (result : Bool × Time)
    (v : Window M) : Prop
  /-- Nothing of the thread can issue yet. -/
  | asleep (early : w.clock.now < lane.thread.nextEvent)
      (ends : result = (false, min event lane.thread.nextEvent)) (same : v = w)
  /-- The window of the thread is empty. -/
  | empty (none : lane.thread.inWindow = 0) (ends : result = (false, event)) (same : v = w)
  /-- A pass goes over the window of the thread. -/
  | look {pass : IssuePass} {w₁ : Window M} (watched : lane.thread.nextEvent ≤ w.clock.now)
      (some : 0 < lane.thread.inWindow) (looked : issueFrom i lane.thread.inWindow 0 {} w = .ok pass w₁)
      (noted : modifyThread i (fun th => { th with nextEvent := pass.event }) w₁ = .ok () v)
      (ends : result = (decide (0 < pass.issued), min event pass.event))

theorem issueTurn_of_issueLane {i : Nat} {event : Time} {result : Bool × Time}
    (h : issueLane i event w = .ok result v) :
    ∃ lane, w.lanes[i]? = some lane ∧ IssueTurn i lane event w result v := by
  unfold issueLane at h
  rw [get_bind] at h
  obtain ⟨lane, found, h⟩ := thread_bind_eq_ok.mp h
  refine ⟨lane, found, ?_⟩
  split at h
  · rename_i early
    obtain ⟨rfl, rfl⟩ := pure_eq_ok.mp h
    exact .asleep early rfl rfl
  rename_i watched
  rw [not_lt] at watched
  split at h
  · rename_i none
    obtain ⟨rfl, rfl⟩ := pure_eq_ok.mp h
    exact .empty none rfl rfl
  · rename_i some
    obtain ⟨pass, w₁, looked, h⟩ := bind_eq_ok.mp h
    obtain ⟨⟨⟩, w₂, noted, h⟩ := bind_eq_ok.mp h
    obtain ⟨rfl, rfl⟩ := pure_eq_ok.mp h
    exact .look watched (Nat.pos_of_ne_zero some) looked noted rfl

/-- After the turn of a lane either the stage has ended, as something has issued, or the others have theirs.  If
something has issued, they only do where several lanes may issue in one cycle. -/
theorem issueLanes_cons_eq_ok {i : Nat} {rest : List Nat} {event : Time} {result : Option Nat × Time}
    (h : issueLanes (i :: rest) event w = .ok result v) :
    ∃ (any : Bool) (event' : Time) (w₁ : Window M), issueLane i event w = .ok (any, event') w₁ ∧
      (any = true ∧ result = (some i, event') ∧ v = w₁ ∨
        (any = true → w₁.config.window.simultaneousIssue = true) ∧
          issueLanes rest event' w₁ = .ok result v) := by
  unfold issueLanes at h
  obtain ⟨⟨any, event'⟩, w₁, turn, h⟩ := bind_eq_ok.mp h
  refine ⟨any, event', w₁, turn, ?_⟩
  dsimp only at h
  rw [get_bind] at h
  split at h
  · rename_i ended
    rw [Bool.and_eq_true] at ended
    obtain ⟨rfl, rfl⟩ := pure_eq_ok.mp h
    exact .inl ⟨ended.1, rfl, rfl⟩
  · rename_i goesOn
    refine .inr ⟨fun some => ?_, h⟩
    by_contra alone
    rw [Bool.not_eq_true] at alone
    rw [some, alone] at goesOn
    exact goesOn rfl

/-- When the lanes have had their turns, the next stage begins with another one. -/
theorem issue_eq_ok {event : Time} (h : issue w = .ok event v) :
    ∃ (last : Option Nat) (x : Window M),
      issueLanes (w.rotation (w.issueTurn % w.lanes.size)) .never w = .ok (last, event) x ∧
      v = { x with issueTurn := x.turnAfter (last.getD (w.issueTurn % w.lanes.size)) } := by
  unfold issue at h
  rw [get_bind] at h
  obtain ⟨⟨last, event'⟩, w₁, turns, h⟩ := bind_eq_ok.mp h
  simp only [modify_bind, pure_eq_ok] at h
  obtain ⟨rfl, rfl⟩ := h
  exact ⟨last, w₁, turns, rfl⟩

/-! ## Section 3: The dispatch stage -/

/-- What lane `i` comes to that has the dispatch slot and may dispatch `width + 1` more micro-ops. -/
inductive Dispatching (i width : Nat) (lane : Lane M) (any : Bool) (event : Time) (w : Window M)
    (result : Bool × Time) (v : Window M) : Prop
  /-- There is no room for another micro-op, or none is waiting. -/
  | nothing (closed : ¬(lane.thread.inWindow < w.share ∧ 0 < lane.thread.buffered)) (ends : result = (any, event))
      (same : v = w)
  /-- The next micro-op is held up. -/
  | blocked {blockedUntil : Time} (room : lane.thread.inWindow < w.share) (waiting : 0 < lane.thread.buffered)
      (tried : onThread i (Thread.dispatchOne w.config.window.forwarding w.clock
        (decide (w.stationsUsed < w.config.window.stations))) w = .ok (.blocked blockedUntil) v)
      (ends : result = (any, min event blockedUntil))
  /-- The next micro-op enters the window. -/
  | entered {ready : Time} {w₁ : Window M} (room : lane.thread.inWindow < w.share)
      (waiting : 0 < lane.thread.buffered)
      (tried : onThread i (Thread.dispatchOne w.config.window.forwarding w.clock
        (decide (w.stationsUsed < w.config.window.stations))) w = .ok (.entered ready) w₁)
      (rest : dispatchUpTo i width true (min event ready) { w₁ with stationsUsed := w₁.stationsUsed + 1 } =
        .ok result v)

theorem dispatching_of_dispatchUpTo {i width : Nat} {any : Bool} {event : Time} {result : Bool × Time}
    (h : dispatchUpTo i (width + 1) any event w = .ok result v) :
    ∃ lane, w.lanes[i]? = some lane ∧ Dispatching i width lane any event w result v := by
  unfold dispatchUpTo at h
  rw [get_bind] at h
  obtain ⟨lane, found, h⟩ := thread_bind_eq_ok.mp h
  refine ⟨lane, found, ?_⟩
  dsimp only at h
  split at h
  · rename_i room
    obtain ⟨d, w₁, tried, h⟩ := bind_eq_ok.mp h
    cases d with
    | blocked blockedUntil =>
      obtain ⟨rfl, rfl⟩ := pure_eq_ok.mp h
      exact .blocked room.1 room.2 tried rfl
    | entered ready =>
      simp only [modify_bind] at h
      exact .entered room.1 room.2 tried h
  · rename_i closed
    obtain ⟨rfl, rfl⟩ := pure_eq_ok.mp h
    exact .nothing closed rfl rfl

/-- A lane that has the dispatch slot forgets what is over and dispatches.  If it could go on, the next cycle is
due. -/
theorem dispatchLane_eq_ok {i : Nat} {event : Time} {result : Bool × Time}
    (h : dispatchLane i event w = .ok result v) :
    ∃ (w₁ : Window M) (event' : Time) (lane : Lane M),
      modifyThread i (Thread.beginDispatch w.clock.now) w = .ok () w₁ ∧
      dispatchUpTo i w.config.core.dispatchWidth false event w₁ = .ok (result.1, event') v ∧
      v.lanes[i]? = some lane ∧
      result.2 = if lane.thread.inWindow < v.share ∧ 0 < lane.thread.buffered then
        min event' (max lane.thread.stalledUntil v.clock.next) else event' := by
  unfold dispatchLane at h
  rw [get_bind] at h
  obtain ⟨⟨⟩, w₁, begun, h⟩ := bind_eq_ok.mp h
  obtain ⟨⟨any, event'⟩, w₂, moved, h⟩ := bind_eq_ok.mp h
  dsimp only at h
  rw [get_bind] at h
  obtain ⟨lane, found, h⟩ := thread_bind_eq_ok.mp h
  refine ⟨w₁, event', lane, begun, ?_⟩
  split at h
  · rename_i more
    obtain ⟨rfl, rfl⟩ := pure_eq_ok.mp h
    exact ⟨moved, found, (if_pos more).symm⟩
  · rename_i closed
    obtain ⟨rfl, rfl⟩ := pure_eq_ok.mp h
    exact ⟨moved, found, (if_neg closed).symm⟩

/-- What the turn of lane `i` in the dispatch stage comes to. -/
inductive DispatchTurn (running : Running) (round : DispatchRound) (i : Nat) (lane : Lane M) (w : Window M)
    (round' : DispatchRound) (v : Window M) : Prop
  /-- The front end of the thread is held up. -/
  | stalled (early : w.clock.now < lane.thread.stalledUntil)
      (blamed : modifyThread i (fun th => { th with
        cause := (lane.thread.headCause? w.clock.now <|> th.stall).getD .base }) w = .ok () v)
      (ends : round' = { round with event := min round.event lane.thread.stalledUntil })
  /-- The thread does not run, or is ahead of the clock. -/
  | idle (up : lane.thread.stalledUntil ≤ w.clock.now)
      (off : running.getD i false = false ∨ w.clock.now < lane.thread.now)
      (blamed : modifyThread i (fun th => { th with cause := .idle }) w = .ok () v)
      (ends : round' =
        if running.getD i false then { round with event := min round.event lane.thread.now } else round)
  /-- The thread has used up its share of the window. -/
  | full (up : lane.thread.stalledUntil ≤ w.clock.now) (runs : running.getD i false = true)
      (told : lane.thread.now ≤ w.clock.now) (full : w.share ≤ lane.thread.inWindow)
      (blamed : modifyThread i (fun th => { th with
        cause := (lane.thread.headCause? w.clock.now).getD .base }) w = .ok () v)
      (ends : round' = round)
  /-- Another lane has the dispatch slot. -/
  | taken (up : lane.thread.stalledUntil ≤ w.clock.now) (runs : running.getD i false = true)
      (told : lane.thread.now ≤ w.clock.now) (room : lane.thread.inWindow < w.share)
      (taken : round.dispatcher.isSome = true)
      (blamed : modifyThread i (fun th => { th with cause := .smt }) w = .ok () v) (ends : round' = round)
  /-- The lane has the dispatch slot. -/
  | slot {any : Bool} {event : Time} {w₁ : Window M} (up : lane.thread.stalledUntil ≤ w.clock.now)
      (runs : running.getD i false = true) (told : lane.thread.now ≤ w.clock.now)
      (room : lane.thread.inWindow < w.share) (free : round.dispatcher = none)
      (moved : dispatchLane i round.event w = .ok (any, event) w₁)
      (blamed : modifyThread i (fun th => { th with
        cause := slotCause th any (lane.thread.headCause? w.clock.now) }) w₁ = .ok () v)
      (ends : round' = { dispatcher := if any then some i else none, event })

theorem dispatchTurn_of_dispatchTurnOf {running : Running} {round round' : DispatchRound} {i : Nat}
    (h : dispatchTurnOf running round i w = .ok round' v) :
    ∃ lane, w.lanes[i]? = some lane ∧ DispatchTurn running round i lane w round' v := by
  unfold dispatchTurnOf at h
  rw [get_bind] at h
  obtain ⟨lane, found, h⟩ := thread_bind_eq_ok.mp h
  refine ⟨lane, found, ?_⟩
  dsimp only at h
  split at h
  · rename_i early
    obtain ⟨⟨⟩, w₁, blamed, h⟩ := bind_eq_ok.mp h
    obtain ⟨rfl, rfl⟩ := pure_eq_ok.mp h
    exact .stalled early blamed rfl
  rename_i up
  rw [not_lt] at up
  split at h
  · rename_i off
    rw [Bool.or_eq_true, Bool.not_eq_true', decide_eq_true_iff] at off
    obtain ⟨⟨⟩, w₁, blamed, h⟩ := bind_eq_ok.mp h
    obtain ⟨rfl, rfl⟩ := pure_eq_ok.mp h
    exact .idle up off blamed rfl
  rename_i on
  rw [Bool.or_eq_true, Bool.not_eq_true', decide_eq_true_iff, not_or, Bool.not_eq_false, not_lt] at on
  obtain ⟨runs, told⟩ := on
  split at h
  · rename_i full
    obtain ⟨⟨⟩, w₁, blamed, h⟩ := bind_eq_ok.mp h
    obtain ⟨rfl, rfl⟩ := pure_eq_ok.mp h
    exact .full up runs told full blamed rfl
  rename_i room
  rw [not_le] at room
  split at h
  · rename_i taken
    obtain ⟨⟨⟩, w₁, blamed, h⟩ := bind_eq_ok.mp h
    obtain ⟨rfl, rfl⟩ := pure_eq_ok.mp h
    exact .taken up runs told room taken blamed rfl
  · rename_i free
    rw [Option.not_isSome_iff_eq_none] at free
    obtain ⟨⟨any, event⟩, w₁, moved, h⟩ := bind_eq_ok.mp h
    obtain ⟨⟨⟩, w₂, blamed, h⟩ := bind_eq_ok.mp h
    obtain ⟨rfl, rfl⟩ := pure_eq_ok.mp h
    exact .slot up runs told room free moved blamed rfl

/-- When the lanes have had their turns, the next stage begins with another one. -/
theorem dispatch_eq_ok {running : Running} {event : Time} (h : dispatch running w = .ok event v) :
    ∃ (round : DispatchRound) (x : Window M),
      (w.rotation (w.dispatchTurn % w.lanes.size)).foldlM (dispatchTurnOf running) {} w = .ok round x ∧
      event = round.event ∧
      v = { x with dispatchTurn := x.turnAfter (round.dispatcher.getD (w.dispatchTurn % w.lanes.size)) } := by
  unfold dispatch at h
  rw [get_bind] at h
  obtain ⟨round, w₁, turns, h⟩ := bind_eq_ok.mp h
  simp only [modify_bind, pure_eq_ok] at h
  obtain ⟨rfl, rfl⟩ := h
  exact ⟨round, w₁, turns, rfl, rfl⟩

end Window

/-! ## Section 4: The commit stage, and a whole cycle -/

namespace Thread

variable {clock : Clock} {penalty width freed : Nat} {keepLog : Bool} {th th' : Thread}

/-- What a thread comes to of which `width + 1` more entries may leave. -/
inductive Departure (clock : Clock) (penalty : Nat) (keepLog : Bool) (width : Nat) (th : Thread) :
    Nat → Thread → Prop
  /-- The window is empty. -/
  | empty (nothing : th.oldest? = none) : Departure clock penalty keepLog width th 0 th
  /-- The oldest entry is not done yet. -/
  | early {e : Entry} (oldest : th.oldest? = some e) (early : clock.now < e.done) :
      Departure clock penalty keepLog width th 0 th
  /-- The oldest entry leaves.  It is a branch that was predicted wrongly, so all others start over. -/
  | flush {e : Entry} {th' : Thread} (oldest : th.oldest? = some e) (done : e.done ≤ clock.now)
      (flushes : e.flushes = true)
      (flushed : (th.retire keepLog clock.now e).flush clock penalty = .ok th') :
      Departure clock penalty keepLog width th (th.retire keepLog clock.now e).stationsHeld th'
  /-- The oldest entry leaves, and others may follow. -/
  | leave {e : Entry} {freed : Nat} {th' : Thread} (oldest : th.oldest? = some e) (done : e.done ≤ clock.now)
      (flushes : e.flushes = false)
      (rest : commit clock penalty keepLog width (th.retire keepLog clock.now e) = .ok freed th') :
      Departure clock penalty keepLog width th freed th'

theorem departure_of_commit (h : commit clock penalty keepLog (width + 1) th = .ok freed th') :
    Departure clock penalty keepLog width th freed th' := by
  unfold commit at h
  rw [get_bind] at h
  cases oldest : th.oldest? with
  | none =>
    simp only [oldest, pure_eq_ok] at h
    obtain ⟨rfl, rfl⟩ := h
    exact .empty oldest
  | some e =>
    simp only [oldest] at h
    split at h
    · rename_i early
      obtain ⟨rfl, rfl⟩ := pure_eq_ok.mp h
      exact .early oldest early
    rename_i done
    rw [not_lt] at done
    rw [modify_bind] at h
    split at h
    · rename_i flushes
      simp only [get_bind, bind_eq_ok, ofExcept_eq_ok, set_bind, pure_eq_ok] at h
      obtain ⟨_, _, ⟨flushed, rfl⟩, rfl, rfl⟩ := h
      exact .flush oldest done flushes flushed
    · rename_i stays
      rw [Bool.not_eq_true] at stays
      exact .leave oldest done stays h

end Thread

namespace Window

variable {M : Type} [MemorySystem M] {w v : Window M}

/-- The turn of a lane in the commit stage changes its thread, and frees reservation stations. -/
theorem commitLane_eq_ok {i : Nat} (h : commitLane i w = .ok () v) :
    ∃ (lane : Lane M) (th : Thread) (freed : Nat), w.lanes[i]? = some lane ∧
      Thread.commit w.clock w.config.predictor.penalty w.config.window.commitLog w.config.window.commitWidth
        lane.thread = .ok freed th ∧
      v = { w with
        lanes := w.lanes.setIfInBounds i { lane with thread := th }
        stationsUsed := w.stationsUsed - freed } := by
  unfold commitLane at h
  rw [get_bind] at h
  obtain ⟨freed, w₁, committed, h⟩ := bind_eq_ok.mp h
  obtain rfl := modify_eq_ok.mp h
  obtain ⟨lane, th, found, ran, rfl⟩ := onThread_eq_ok.mp committed
  exact ⟨lane, th, freed, found, ran, rfl⟩

/-- The turns of the lanes are all that a commit stage does to the window. -/
theorem commit_eq_ok {event : Time} (h : commit w = .ok event v) :
    (List.range w.lanes.size).forM commitLane w = .ok () v := by
  unfold commit at h
  rw [get_bind] at h
  obtain ⟨⟨⟩, w₁, turns, h⟩ := bind_eq_ok.mp h
  have same : w₁ = v := by
    rw [get_bind] at h
    cases first : w₁.lanes[0]? with
    | none =>
      simp only [first, pure_eq_ok] at h
      exact h.2
    | some lane =>
      simp only [first, pure_eq_ok] at h
      exact h.2
  rw [← same]
  exact turns

/-- A cycle is a dispatch, an issue and a commit stage; then the clock moves. -/
theorem stages_of_cycle {stride : Stride M} {running : Running} (h : cycle stride running w = .ok () v) :
    ∃ (dispatchEvent issueEvent commitEvent : Time) (w₁ w₂ w₃ : Window M),
      dispatch running w = .ok dispatchEvent w₁ ∧ issue w₁ = .ok issueEvent w₂ ∧
      commit w₂ = .ok commitEvent w₃ ∧
      v = w₃.advance (stride w₃ (min (min dispatchEvent issueEvent) commitEvent)) := by
  unfold cycle at h
  simp only [bind_eq_ok, modify_eq_ok] at h
  obtain ⟨dispatchEvent, w₁, dispatched, issueEvent, w₂, issued, commitEvent, w₃, committed, rfl⟩ := h
  exact ⟨_, _, _, w₁, w₂, w₃, dispatched, issued, committed, rfl⟩

end Window

end CoreTiming
