import CoreTiming.Proofs.AlikeWindows
import CoreTiming.Proofs.Grid
import CoreTiming.Proofs.Turns

/-!
# What the stages of a cycle look out for

Each stage of a cycle gives the time at which it may have more to do.  The lemmas of this module say,
for a window of one thread, that it really has nothing to do before that time: dispatch is idle
(`Thread.Idle`), and the thread need not look at its entries again before `Thread.nextEvent`, which
comes no later than the time at which the oldest of them may leave (`Thread.Alert`).
-/

namespace CoreTiming

open Faulting

/-! ## Section 1: Idle threads -/

namespace Thread

variable {runs : Bool} {share width : Nat} {time time' : Time} {th th' : Thread}

/-- Before `time`, dispatch has nothing to do for the thread, and does not wait for micro-ops. -/
inductive Idle (runs : Bool) (share width : Nat) (time : Time) (th : Thread) : Prop
  /-- The front end is stalled. -/
  | stalled (h : time ≤ th.stalledUntil)
  /-- The thread does not run. -/
  | stopped (h : runs = false)
  /-- The window is full. -/
  | full (h : share ≤ th.inWindow)
  /-- Nothing is buffered, and nothing is missing. -/
  | drained (empty : th.buffered = 0) (supplied : th.isStarved width = false)

theorem Idle.mono (h : Idle runs share width time th) (le : time' ≤ time) :
    Idle runs share width time' th := by
  cases h with
  | stalled h => exact .stalled (le_trans le h)
  | stopped h => exact .stopped h
  | full h => exact .full h
  | drained empty supplied => exact .drained empty supplied

/-- What happens to the entries makes no idle thread busy. -/
theorem Idle.of_same (h : Idle runs share width time th)
    (length : th'.ring.length = th.ring.length) (inWindow : th'.inWindow = th.inWindow)
    (stalledUntil : th'.stalledUntil = th.stalledUntil)
    (endOfStream : th'.endOfStream = th.endOfStream) : Idle runs share width time th' := by
  have buffered : th'.buffered = th.buffered := by
    unfold Thread.buffered
    rw [length, inWindow]
  cases h with
  | stalled h => exact .stalled (stalledUntil ▸ h)
  | stopped h => exact .stopped h
  | full h => exact .full (inWindow ▸ h)
  | drained empty supplied =>
    refine .drained (buffered.trans empty) ?_
    unfold isStarved at supplied ⊢
    rwa [endOfStream, buffered]

/-- A thread that had enough for two groups is not left with nothing by one, unless that was all. -/
theorem Fed.isStarved {p : Period} (h : Fed p width th th') (supplied : th.isStarved width = false)
    (empty : th'.buffered = 0) : th'.isStarved width = false := by
  have length := h.length_eq
  have inWindow := h.inWindow_le
  unfold Thread.isStarved Thread.buffered at *
  rw [h.endOfStream]
  simp only [Bool.and_eq_false_iff, Bool.not_eq_false', decide_eq_false_iff_not] at supplied ⊢
  refine supplied.imp_right fun enough => ?_
  omega

/-- Up to `time`, a thread that has used its turn as far as it could has no use for another one. -/
theorem Fed.idle {p : Period} {next : Time} (h : Fed p width th th')
    (supplied : th.isStarved width = false)
    (held : th'.inWindow < share → 0 < th'.buffered → time ≤ max th'.stalledUntil next)
    (later : next < time) : th'.Idle runs share width time := by
  by_cases room : th'.inWindow < share
  swap
  · exact .full (Nat.le_of_not_lt room)
  by_cases waiting : 0 < th'.buffered
  -- something held dispatch up, and that was not the width of the group
  · exact .stalled ((le_max_iff.mp (held room waiting)).resolve_right (not_le_of_gt later))
  · have empty : th'.buffered = 0 := Nat.eq_zero_of_not_pos waiting
    exact .drained empty (h.isStarved supplied empty)

/-- Work that was left is still left. -/
theorem Fed.hasWork {p : Period} {n : Nat} (h : Fed p n th th') (left : th.hasWork runs = true) :
    th'.hasWork runs = true := by
  have length := h.length_eq
  have inWindow := h.le_inWindow
  unfold Thread.hasWork Thread.buffered at *
  simp only [Bool.or_eq_true, Bool.and_eq_true, decide_eq_true_iff] at left ⊢
  by_cases entered : 0 < th'.inWindow
  · exact .inl entered
  · refine .inr (left.elim (fun old => absurd old (by omega)) fun ⟨on, waiting⟩ => ⟨on, ?_⟩)
    omega

end Thread

/-! ## Section 2: Windows of one thread -/

namespace Window

variable {M : Type} {w v x : Window M} {l l' l'' : Lane M}

/-- The clock has stood still while the only lane of `w`, which is `l`, has become that of `v`, `l'`. -/
structure Turned (w v : Window M) (l l' : Lane M) : Prop where
  /-- The lane before. -/
  before : w.lanes = #[l]
  /-- The lane afterwards. -/
  after : v.lanes = #[l']
  /-- The parameters stay. -/
  config : v.config = w.config
  /-- No time has passed. -/
  clock : v.clock = w.clock
  /-- The thread may use as much of the window as before. -/
  share : v.share = w.share
  /-- It is still the only thread's turn to dispatch. -/
  dispatchTurn : w.dispatchTurn = 0 → v.dispatchTurn = 0
  /-- It is still the only thread's turn to issue. -/
  issueTurn : w.issueTurn = 0 → v.issueTurn = 0

theorem Turned.refl (alone : w.lanes = #[l]) : Turned w w l l :=
  ⟨alone, alone, rfl, rfl, rfl, id, id⟩

theorem Turned.trans (h : Turned w v l l') (h' : Turned v x l' l'') : Turned w x l l'' :=
  ⟨h.before, h'.after, h'.config.trans h.config, h'.clock.trans h.clock, h'.share.trans h.share,
    h'.dispatchTurn ∘ h.dispatchTurn, h'.issueTurn ∘ h.issueTurn⟩

theorem Turned.of_thread (alone : w.lanes = #[l]) (th : Thread) :
    Turned w { w with lanes := #[{ l with thread := th }] } l { l with thread := th } :=
  ⟨alone, rfl, rfl, rfl, rfl, id, id⟩

theorem thread_alone (alone : w.lanes = #[l]) : w.thread 0 = .ok l.thread := by
  unfold thread
  rw [alone]
  rfl

variable [MemorySystem M]

omit [MemorySystem M] in
theorem thread_bind {α : Type} (alone : w.lanes = #[l]) (f : Thread → Faulting (Window M) α) :
    (Faulting.ofExcept (w.thread 0) >>= f) w = f l.thread w := by
  rw [thread_alone alone]
  rfl

theorem onLane_alone_eq_ok {α : Type} {f : Faulting (Lane M) α} {a : α} (alone : w.lanes = #[l]) :
    onLane 0 f w = .ok a v ↔ ∃ l', f l = .ok a l' ∧ v = { w with lanes := #[l'] } := by
  rw [onLane_zero alone]
  cases f l with
  | ok b l' =>
    simp only [EStateM.Result.ok.injEq]
    constructor
    · rintro ⟨rfl, rfl⟩
      exact ⟨l', ⟨rfl, rfl⟩, rfl⟩
    · rintro ⟨_, ⟨rfl, rfl⟩, rfl⟩
      exact ⟨rfl, rfl⟩
  | error e l' => simp

theorem onThread_alone_eq_ok {α : Type} {f : Faulting Thread α} {a : α} (alone : w.lanes = #[l]) :
    onThread 0 f w = .ok a v ↔
      ∃ th, f l.thread = .ok a th ∧ v = { w with lanes := #[{ l with thread := th }] } := by
  unfold onThread
  simp only [onLane_alone_eq_ok alone, zoom_eq_ok]
  constructor
  · rintro ⟨_, ⟨th, ran, rfl⟩, rfl⟩
    exact ⟨th, ran, rfl⟩
  · rintro ⟨th, ran, rfl⟩
    exact ⟨_, ⟨th, ran, rfl⟩, rfl⟩

theorem modifyThread_alone (alone : w.lanes = #[l]) (f : Thread → Thread) :
    modifyThread 0 f w = .ok () { w with lanes := #[{ l with thread := f l.thread }] } :=
  (onThread_alone_eq_ok alone).mpr ⟨_, rfl, rfl⟩

/-! ## Section 3: Dispatch -/

theorem turned_dispatchUpTo {width : Nat} {any : Bool} {event : Time} {result : Bool × Time}
    (alone : w.lanes = #[l]) (regular : l.thread.Regular w.clock.period)
    (grid : w.clock.now.OnGrid w.clock.period) (due : event.OnGrid w.clock.period)
    (h : dispatchUpTo 0 width any event w = .ok result v) :
    ∃ l', Turned w v l l' ∧ Thread.Fed w.clock.period width l.thread l'.thread ∧
      result.2.OnGrid w.clock.period := by
  induction width generalizing any event w l with
  | zero =>
    obtain ⟨rfl, rfl⟩ := pure_eq_ok.mp h
    exact ⟨l, .refl alone, .refl regular, due⟩
  | succ width ih =>
    obtain ⟨l₀, found, goes⟩ := dispatching_of_dispatchUpTo h
    cases goes with
    | nothing _ ends same =>
      subst same
      rw [ends]
      exact ⟨l, .refl alone, (Thread.Fed.refl regular).mono (Nat.zero_le _), due⟩
    | blocked _ _ tried ends =>
      obtain ⟨th, ran, rfl⟩ := (onThread_alone_eq_ok alone).mp tried
      obtain ⟨fed, later⟩ := Thread.fed_dispatchOne regular grid ran
      rw [ends]
      exact ⟨_, .of_thread alone th, fed.mono (by omega), due.min later⟩
    | entered _ _ tried rest =>
      obtain ⟨th, ran, rfl⟩ := (onThread_alone_eq_ok alone).mp tried
      obtain ⟨fed, later⟩ := Thread.fed_dispatchOne regular grid ran
      obtain ⟨l', turned, fed', grid'⟩ := ih (w := { w with lanes := #[_], stationsUsed := _ }) rfl
        fed.regular grid (due.min later) rest
      have entered : Turned w _ l { l with thread := th } :=
        ⟨alone, turned.before, rfl, rfl, rfl, id, id⟩
      exact ⟨l', entered.trans turned, (fed.trans fed').mono (by omega), grid'⟩

theorem turned_dispatchLane {event : Time} {result : Bool × Time} (alone : w.lanes = #[l])
    (regular : l.thread.Regular w.clock.period) (grid : w.clock.now.OnGrid w.clock.period)
    (due : event.OnGrid w.clock.period) (h : dispatchLane 0 event w = .ok result v) :
    ∃ l', Turned w v l l' ∧
      Thread.Fed w.clock.period w.config.core.dispatchWidth l.thread l'.thread ∧
      result.2.OnGrid w.clock.period ∧
      (l'.thread.inWindow < w.share → 0 < l'.thread.buffered →
        result.2 ≤ max l'.thread.stalledUntil w.clock.next) := by
  obtain ⟨w₁, later, l₂, begun, moved, found, ends⟩ := dispatchLane_eq_ok h
  rw [modifyThread_alone alone] at begun
  cases begun
  have begins := Thread.fed_beginDispatch regular w.clock.now
  obtain ⟨l', turned, fed, grid'⟩ :=
    turned_dispatchUpTo (w := { w with lanes := #[_] }) rfl begins.regular grid due moved
  have through := (Turned.of_thread alone _).trans turned
  have feeds : Thread.Fed w.clock.period w.config.core.dispatchWidth l.thread l'.thread :=
    (begins.trans fed).mono (by omega)
  obtain rfl : l' = l₂ := by simpa [turned.after] using found
  rw [ends, through.clock, through.share]
  refine ⟨l', through, feeds, ?_⟩
  split
  · refine ⟨grid'.min ?_, fun _ _ => min_le_right _ _⟩
    exact fed.regular.stalledUntil.max (w.clock.onGrid_next grid)
  · rename_i settled
    exact ⟨grid', fun room waiting => absurd ⟨room, waiting⟩ settled⟩

/-- What a cycle is charged to is nothing to dispatch. -/
theorem turned_setCause {cause : Thread → Cause} (alone : w.lanes = #[l])
    (regular : l.thread.Regular w.clock.period)
    (h : modifyThread 0 (fun th => { th with cause := cause th }) w = .ok () v) :
    ∃ c, Turned w v l { l with thread := { l.thread with cause := c } } ∧
      Thread.Fed w.clock.period 0 l.thread { l.thread with cause := c } := by
  rw [modifyThread_alone alone] at h
  cases h
  refine ⟨_, .of_thread alone _, ?_⟩
  exact .of_same regular rfl rfl regular.stalledUntil rfl (fun _ mem => mem) rfl rfl

/-- Unless the next cycle is due, the thread is idle up to the time that its turn gives. -/
theorem turned_dispatchTurnOf {running : Running} {round : DispatchRound} (alone : w.lanes = #[l])
    (regular : l.thread.Regular w.clock.period) (grid : w.clock.now.OnGrid w.clock.period)
    (supplied : w.isSupplied running 0 l = true) (told : l.thread.now ≤ w.clock.now)
    (h : dispatchTurnOf running {} 0 w = .ok round v) :
    ∃ l', Turned w v l l' ∧
      Thread.Fed w.clock.period w.config.core.dispatchWidth l.thread l'.thread ∧
      round.event.OnGrid w.clock.period ∧
      (w.clock.next < round.event →
        l'.thread.Idle (running.getD 0 false) w.share w.config.core.dispatchWidth round.event) := by
  obtain ⟨l₀, found, turn⟩ := dispatchTurn_of_dispatchTurnOf h
  obtain rfl : l = l₀ := by simpa [alone] using found
  have never : Time.never.OnGrid w.clock.period := Time.onGrid_never
  cases turn with
  | stalled _ blamed ends =>
    obtain ⟨c, turned, fed⟩ := turned_setCause alone regular blamed
    rw [ends]
    refine ⟨_, turned, fed.mono (Nat.zero_le _), never.min regular.stalledUntil, fun _ => ?_⟩
    exact .stalled (min_le_right _ _)
  | idle _ off blamed ends =>
    have stopped := off.resolve_right (not_lt_of_ge told)
    obtain ⟨c, turned, fed⟩ := turned_setCause alone regular blamed
    rw [ends, if_neg (ne_true_of_eq_false stopped)]
    exact ⟨_, turned, fed.mono (Nat.zero_le _), never, fun _ => .stopped stopped⟩
  | full _ _ _ full blamed ends =>
    obtain ⟨c, turned, fed⟩ := turned_setCause alone regular blamed
    rw [ends]
    exact ⟨_, turned, fed.mono (Nat.zero_le _), never, fun _ => .full full⟩
  | taken _ _ _ _ taken => cases taken
  | @slot any event w₁ up runs _ room _ moved blamed ends =>
    -- the thread uses the dispatch slot as far as it can
    obtain ⟨l₁, turned₁, fed₁, grid₁, held⟩ := turned_dispatchLane alone regular grid never moved
    have regular₁ : l₁.thread.Regular w₁.clock.period := turned₁.clock ▸ fed₁.regular
    obtain ⟨c, turned₂, fed₂⟩ := turned_setCause turned₁.after regular₁ blamed
    rw [turned₁.clock] at fed₂
    rw [ends]
    refine ⟨_, turned₁.trans turned₂, (fed₁.trans fed₂).mono (le_refl _), grid₁, fun later => ?_⟩
    have could : l.thread.canDispatch (running.getD 0 false) w.share w.clock.now = true := by
      unfold Thread.canDispatch
      simp only [runs, Bool.true_and, Bool.and_eq_true, decide_eq_true_iff]
      exact ⟨⟨up, told⟩, room⟩
    unfold isSupplied at supplied
    rw [could, Bool.not_true, Bool.false_or, Bool.not_eq_true'] at supplied
    exact (fed₁.idle supplied held later).of_same rfl rfl rfl rfl

theorem turned_dispatch {running : Running} {event : Time} (alone : w.lanes = #[l])
    (regular : l.thread.Regular w.clock.period) (grid : w.clock.now.OnGrid w.clock.period)
    (supplied : w.isSupplied running 0 l = true) (told : l.thread.now ≤ w.clock.now)
    (h : dispatch running w = .ok event v) :
    ∃ l', Turned w v l l' ∧
      Thread.Fed w.clock.period w.config.core.dispatchWidth l.thread l'.thread ∧
      event.OnGrid w.clock.period ∧
      (w.clock.next < event →
        l'.thread.Idle (running.getD 0 false) w.share w.config.core.dispatchWidth event) := by
  have one : w.lanes.size = 1 := by rw [alone]; rfl
  obtain ⟨round, x, turns, rfl, rfl⟩ := dispatch_eq_ok h
  rw [rotation_eq one, List.foldlM_cons] at turns
  obtain ⟨round₁, x₁, turn, turns⟩ := bind_eq_ok.mp turns
  obtain ⟨rfl, rfl⟩ := pure_eq_ok.mp turns
  obtain ⟨l', turned, fed, due, idle⟩ := turned_dispatchTurnOf alone regular grid supplied told turn
  have one' : x₁.lanes.size = 1 := by rw [turned.after]; rfl
  rw [turnAfter_eq one']
  refine ⟨l', ?_, fed, due, idle⟩
  exact ⟨alone, turned.after, turned.config, turned.clock, turned.share, fun _ => rfl, turned.issueTurn⟩

/-! ## Section 4: Issue -/

theorem turned_issueEntry {i : Nat} {e : Entry} {done : Time} (alone : w.lanes = #[l])
    (regular : l.thread.Regular w.clock.period) (grid : w.clock.now.OnGrid w.clock.period)
    (inside : i < l.thread.inWindow) (found : l.thread.ring.get? i = some e)
    (h : issueEntry 0 i w = .ok done v) :
    ∃ l', Turned w v l l' ∧ Thread.Fired w.clock.period l.thread l'.thread ∧
      l'.thread.dones = l.thread.dones.set i done ∧ done.OnGrid w.clock.period := by
  have here : w.lanes[0]? = some l := by rw [alone]; rfl
  obtain ⟨th, e₁, l', asked, started, rfl, rfl⟩ := issueEntry_eq_ok here found h
  have found₁ := asked.entry found
  -- memory moves no entry
  have first : Thread.Fired w.clock.period l.thread th ∧ th.dones = l.thread.dones := by
    rcases asked with ⟨rfl, rfl⟩ | ⟨hit, cycles, u, -, rfl, rfl⟩
    · exact ⟨.refl regular, rfl⟩
    · rw [← Ring.getElem?_toList] at found
      exact Thread.fired_setEntry regular found
  obtain ⟨fired₁, dones₁⟩ := first
  have due : (e₁.doneFrom w.clock).OnGrid w.clock.period := by
    unfold Entry.doneFrom
    split
    · exact w.clock.onGrid_next grid
    · exact w.clock.onGrid_afterCycles grid _
  rw [← fired₁.inWindow] at inside
  rw [← Ring.getElem?_toList] at found₁
  obtain ⟨fired₂, dones₂⟩ := Thread.fired_start fired₁.regular inside found₁ due started
  rw [dones₁] at dones₂
  refine ⟨l', ⟨alone, ?_, rfl, rfl, rfl, id, id⟩, fired₁.trans fired₂, dones₂, due⟩
  show w.lanes.setIfInBounds 0 l' = #[l']
  rw [alone]
  rfl

/-- The entry at position `i` has got its result, and those before it have not changed theirs. -/
theorem turned_issueAndAccount {i cutoff : Nat} {e : Entry} {done : Time} (alone : w.lanes = #[l])
    (regular : l.thread.Regular w.clock.period) (grid : w.clock.now.OnGrid w.clock.period)
    (inside : i < l.thread.inWindow) (found : l.thread.ring.get? i = some e)
    (issued : issueEntry 0 i w = .ok done v)
    (accounted : modifyThread 0 (Thread.accountLongLoad cutoff w.clock.now i) v = .ok () x) :
    ∃ l', Turned w x l l' ∧ Thread.Fired w.clock.period l.thread l'.thread ∧
      (∀ j < i, l'.thread.dones[j]? = l.thread.dones[j]?) ∧ l'.thread.dones[i]? = some done ∧
      done.OnGrid w.clock.period := by
  obtain ⟨l₁, turned, fired, dones, due⟩ := turned_issueEntry alone regular grid inside found issued
  rw [modifyThread_alone turned.after] at accounted
  cases accounted
  obtain ⟨fired', dones'⟩ := Thread.fired_accountLongLoad fired.regular grid cutoff i
  refine ⟨_, turned.trans (.of_thread turned.after _), fired.trans fired', ?_, ?_, due⟩
  · intro j hj
    rw [dones', dones]
    exact List.getElem?_set_ne (by omega)
  · rw [← Ring.getElem?_toList] at found
    have bound : i < l.thread.dones.length := by
      rw [Thread.dones, List.length_map]
      exact (List.getElem?_eq_some_iff.mp found).1
    rw [dones', dones]
    exact List.getElem?_set_self bound

omit [MemorySystem M]

/-- A pass over the window from position `i` on has made `pass'` of `pass`. -/
structure Passed (i : Nat) (pass pass' : IssuePass) (w v : Window M) (l l' : Lane M) : Prop where
  /-- The clock has stood still. -/
  turned : Turned w v l l'
  /-- Entries have issued. -/
  fired : Thread.Fired w.clock.period l.thread l'.thread
  /-- Those before position `i` have not been touched. -/
  kept : ∀ j < i, l'.thread.dones[j]? = l.thread.dones[j]?
  /-- There may be more to do at a whole cycle. -/
  grid : pass'.event.OnGrid w.clock.period
  /-- What has been found makes this no later. -/
  le : pass'.event ≤ pass.event

theorem Passed.refl {i : Nat} {pass pass' : IssuePass} (alone : w.lanes = #[l])
    (regular : l.thread.Regular w.clock.period) (grid : pass'.event.OnGrid w.clock.period)
    (le : pass'.event ≤ pass.event) : Passed i pass pass' w w l l :=
  ⟨.refl alone, .refl regular, fun _ _ => rfl, grid, le⟩

/-- After the entry at position `i`, the pass goes on with the next one. -/
theorem Passed.cons {i : Nat} {pass pass₁ pass' : IssuePass} {l₁ : Lane M}
    (rest : Passed (i + 1) pass₁ pass' v x l₁ l') (turned : Turned w v l l₁)
    (fired : Thread.Fired w.clock.period l.thread l₁.thread)
    (kept : ∀ j < i, l₁.thread.dones[j]? = l.thread.dones[j]?) (le : pass₁.event ≤ pass.event)
    (seen : pass₁.event ≤ l₁.thread.dones[i]?.getD .never) :
    Passed i pass pass' w x l l' ∧ pass'.event ≤ l'.thread.dones[i]?.getD .never := by
  have fired' := rest.fired
  have grid := rest.grid
  rw [turned.clock] at fired' grid
  refine ⟨⟨turned.trans rest.turned, fired.trans fired', fun j hj => ?_, grid, le_trans rest.le le⟩, ?_⟩
  · rw [rest.kept j (Nat.lt_succ_of_lt hj)]
    exact kept j hj
  · rw [rest.kept i (Nat.lt_succ_self i)]
    exact le_trans rest.le seen

variable [MemorySystem M]

/-- A pass ends with a time no later than any at which an entry that it has looked at is done. -/
theorem passed_issueFrom {n i : Nat} {pass pass' : IssuePass} (alone : w.lanes = #[l])
    (regular : l.thread.Regular w.clock.period) (grid : w.clock.now.OnGrid w.clock.period)
    (inside : i + n ≤ l.thread.inWindow) (due : pass.event.OnGrid w.clock.period)
    (h : issueFrom 0 n i pass w = .ok pass' v) :
    ∃ l', Passed i pass pass' w v l l' ∧
      (0 < n → pass'.event ≤ l'.thread.dones[i]?.getD .never) := by
  induction n generalizing i pass w l with
  | zero =>
    obtain ⟨rfl, rfl⟩ := pure_eq_ok.mp h
    exact ⟨l, .refl alone regular due (le_refl _), fun some => absurd some (Nat.lt_irrefl 0)⟩
  | succ n ih =>
    have here : w.lanes[0]? = some l := by rw [alone]; rfl
    have at_i : l.thread.dones[i]? = (l.thread.ring.get? i).map Entry.done := by
      rw [← Ring.getElem?_toList]
      exact List.getElem?_map
    have entries {e : Entry} (found : l.thread.ring.get? i = some e) : e.Regular w.clock.period := by
      rw [← Ring.getElem?_toList] at found
      exact regular.get found
    -- an entry that stays where it is has no result
    have unseen {e : Entry} (found : l.thread.ring.get? i = some e) (waiting : e.isDone = false) (t : Time) :
        t ≤ l.thread.dones[i]?.getD .never := by
      rw [at_i, found, Option.map_some, Entry.isDone_eq_false_iff.mp waiting]
      exact Time.le_never t
    cases looks_of_issueFrom here h with
    | nothing found ends same =>
      rw [ends, same]
      refine ⟨l, .refl alone regular due (le_refl _), fun _ => ?_⟩
      rw [at_i, found]
      exact Time.le_never _
    | done found _ rest =>
      -- the pass notes when the entry is done, and goes on
      obtain ⟨l', onwards, -⟩ := ih alone regular grid (by omega) (due.min (entries found).done) rest
      obtain ⟨passed, seen⟩ := onwards.cons (.refl alone) (.refl regular) (fun _ _ => rfl)
        (min_le_left _ _) (by rw [at_i, found]; exact min_le_right _ _)
      exact ⟨l', passed, fun _ => seen⟩
    | stop found waiting _ ends same =>
      rw [ends, same]
      exact ⟨l, .refl alone regular (due.min (entries found).ready) (min_le_left _ _),
        fun _ => unseen found waiting _⟩
    | @issue e done w₁ w₂ found _ _ issued accounted rest =>
      obtain ⟨l₁, turned, fired, others, result, done_grid⟩ :=
        turned_issueAndAccount alone regular grid (by omega) found issued accounted
      have judged := due.min (entries found).ready
      have le := le_trans (min_le_left (min pass.event e.ready) done) (min_le_left pass.event _)
      rcases rest with ⟨rfl, rfl⟩ | rest
      -- the width is used up, so the pass ends, and goes on in the next cycle
      · refine ⟨l₁, ⟨turned, fired, others, ?_, le_trans (min_le_left _ _) le⟩, fun _ => ?_⟩
        · exact (judged.min done_grid).min (w.clock.onGrid_next grid)
        · rw [result]
          exact le_trans (min_le_left _ _) (min_le_right _ _)
      · obtain ⟨l', onwards, -⟩ := ih turned.after (turned.clock ▸ fired.regular)
          (turned.clock ▸ grid) (by rw [fired.inWindow]; omega)
          (turned.clock ▸ judged.min done_grid) rest
        obtain ⟨passed, seen⟩ := onwards.cons turned fired others le
          (by rw [result]; exact min_le_right _ _)
        exact ⟨l', passed, fun _ => seen⟩
    | @wait e found waiting _ _ rest =>
      have judged := due.min (entries found).ready
      rcases rest with ⟨rfl, rfl⟩ | rest
      · exact ⟨l, .refl alone regular judged (min_le_left _ _), fun _ => unseen found waiting _⟩
      · obtain ⟨l', onwards, -⟩ := ih alone regular grid (by omega) judged rest
        obtain ⟨passed, seen⟩ := onwards.cons (.refl alone) (.refl regular) (fun _ _ => rfl)
          (min_le_left _ _) (unseen found waiting _)
        exact ⟨l', passed, fun _ => seen⟩

/-- The thread has looked at its entries, or need not look at them before the time that it gives. -/
theorem turned_issueLane {result : Bool × Time} (alone : w.lanes = #[l])
    (regular : l.thread.Regular w.clock.period) (grid : w.clock.now.OnGrid w.clock.period)
    (alert : l.thread.Alert w.clock.now) (h : issueLane 0 .never w = .ok result v) :
    ∃ l', Turned w v l l' ∧ Thread.Fired w.clock.period l.thread l'.thread ∧
      l'.thread.Alert w.clock.now ∧ result.2.OnGrid w.clock.period ∧
      (0 < l'.thread.inWindow → result.2 = l'.thread.nextEvent) := by
  obtain ⟨l₀, found, turn⟩ := issueTurn_of_issueLane h
  have here : w.lanes[0]? = some l := by rw [alone]; rfl
  obtain rfl : l = l₀ := Option.some.inj (here.symm.trans found)
  cases turn with
  | asleep _ ends same =>
    -- the thread does not even look
    rw [ends, same]
    refine ⟨l, .refl alone, .refl regular, alert, Time.onGrid_never.min regular.nextEvent, fun _ => ?_⟩
    exact min_eq_right (Time.le_never _)
  | empty none ends same =>
    rw [ends, same]
    exact ⟨l, .refl alone, .refl regular, alert, Time.onGrid_never, fun some => absurd none (by omega)⟩
  | @look pass w₁ _ some looked noted ends =>
    obtain ⟨l₁, passed, seen⟩ := passed_issueFrom alone regular grid (by omega) Time.onGrid_never looked
    rw [modifyThread_alone passed.turned.after] at noted
    cases noted
    rw [ends]
    have fired := passed.fired
    have regular' : ({ l₁.thread with nextEvent := pass.event } : Thread).Regular w.clock.period :=
      ⟨fired.regular.entries, fired.regular.buffered, fired.regular.stalledUntil, passed.grid,
        fired.regular.longLoads⟩
    refine ⟨_, passed.turned.trans (.of_thread passed.turned.after _), ⟨regular', fired.length_eq,
      fired.inWindow, fired.stalledUntil, fired.endOfStream, fired.now⟩, .inl ?_,
      Time.onGrid_never.min passed.grid, fun _ => min_eq_right (Time.le_never _)⟩
    rw [regular'.headDone_eq]
    exact seen some

theorem turned_issue {event : Time} (alone : w.lanes = #[l])
    (regular : l.thread.Regular w.clock.period) (grid : w.clock.now.OnGrid w.clock.period)
    (alert : l.thread.Alert w.clock.now) (h : issue w = .ok event v) :
    ∃ l', Turned w v l l' ∧ Thread.Fired w.clock.period l.thread l'.thread ∧
      l'.thread.Alert w.clock.now ∧ event.OnGrid w.clock.period ∧
      (0 < l'.thread.inWindow → event = l'.thread.nextEvent) := by
  have one : w.lanes.size = 1 := by rw [alone]; rfl
  obtain ⟨last, x, turns, rfl⟩ := issue_eq_ok h
  rw [rotation_eq one] at turns
  obtain ⟨any, event', w₁, turn, goesOn⟩ := issueLanes_cons_eq_ok turns
  obtain ⟨l', turned, fired, alert', due, next⟩ := turned_issueLane alone regular grid alert turn
  -- with one lane, it does not matter whether its turn ended the stage
  obtain ⟨rfl, rfl⟩ : event = event' ∧ x = w₁ := by
    rcases goesOn with ⟨-, same, rfl⟩ | ⟨-, onwards⟩
    · exact ⟨(Prod.mk.inj same).2, rfl⟩
    · obtain ⟨same, rfl⟩ := pure_eq_ok.mp onwards
      exact ⟨(Prod.mk.inj same).2.symm, rfl⟩
  have one' : x.lanes.size = 1 := by rw [turned.after]; rfl
  rw [turnAfter_eq one']
  refine ⟨l', ?_, fired, alert', due, next⟩
  exact ⟨alone, turned.after, turned.config, turned.clock, turned.share, turned.dispatchTurn, fun _ => rfl⟩

/-! ## Section 5: Commit -/

/-- The commit stage gives the time at which the oldest entry is done.  Either it has left the window
as it was, or the thread has to look at its entries again at once. -/
theorem turned_commit {event : Time} (alone : w.lanes = #[l])
    (regular : l.thread.Regular w.clock.period) (grid : w.clock.now.OnGrid w.clock.period)
    (alert : l.thread.Alert w.clock.now) (h : commit w = .ok event v) :
    ∃ l', Turned w v l l' ∧ l'.thread.Regular w.clock.period ∧ l'.thread.now = l.thread.now ∧
      event = l'.thread.headDone ∧
      (l' = l ∨ l.thread.headDone ≤ w.clock.now ∧ l'.thread.nextEvent ≤ w.clock.now) := by
  have one : w.lanes.size = 1 := by rw [alone]; rfl
  unfold commit at h
  rw [get_bind, one] at h
  obtain ⟨⟨⟩, w₁, turns, h⟩ := bind_eq_ok.mp h
  have turn : commitLane 0 w = .ok () w₁ := by
    obtain ⟨⟨⟩, _, turn, rest⟩ := bind_eq_ok.mp turns
    obtain ⟨-, rfl⟩ := pure_eq_ok.mp rest
    exact turn
  obtain ⟨l₀, th, freed, found, ran, rfl⟩ := commitLane_eq_ok turn
  obtain rfl : l = l₀ := by simpa [alone] using found
  have lanes : w.lanes.setIfInBounds 0 { l with thread := th } = #[{ l with thread := th }] := by
    rw [alone]
    rfl
  rw [get_bind, lanes] at h
  obtain ⟨rfl, rfl⟩ := pure_eq_ok.mp h
  obtain ⟨regular', now, left⟩ := Thread.commit_eq_ok regular grid alert ran
  refine ⟨{ l with thread := th }, ⟨alone, rfl, rfl, rfl, rfl, id, id⟩, regular', now, rfl, ?_⟩
  exact left.imp (fun ⟨same, _⟩ => by rw [same]) id

end Window

end CoreTiming
