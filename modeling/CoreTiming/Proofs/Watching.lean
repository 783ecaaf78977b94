import CoreTiming.Proofs.Accounting

/-!
# The time to look again

A pass over the window of a thread notes the earliest time at which something may change, and up to then the
thread is not looked at.  `Thread.Watchful` says that this does not hide the oldest micro-op: once it is due,
which is when it is done, or a cycle after it entered the window if it has not issued, the thread is looked
at.
-/

namespace CoreTiming

open Faulting

/-- When something happens to the entry once it is the oldest one: it leaves when it is done, and issues from
the cycle after it entered the window. -/
def Entry.due (period : Period) (e : Entry) : Time :=
  if e.isDone then e.done else e.dispatched + period.length

/-! ## Section 1: Threads -/

namespace Thread

variable {config : Config} {clock clock' : Clock} {th th' th'' : Thread} {e e' : Entry}

/-- The thread is looked at once its oldest entry is due. -/
def Watchful (clock : Clock) (th : Thread) : Prop :=
  ∀ e, th.oldest? = some e → th.nextEvent ≤ max clock.now (e.due clock.period)

theorem watchful_of_empty (none : th.inWindow = 0) : th.Watchful clock := by
  intro e oldest
  unfold oldest? at oldest
  rw [if_pos none] at oldest
  cases oldest

theorem Watchful.congr (h : th.Watchful clock) (window : th'.window = th.window)
    (nextEvent : th'.nextEvent = th.nextEvent) : th'.Watchful clock := by
  intro e oldest
  rw [oldest?_eq, window, ← oldest?_eq] at oldest
  rw [nextEvent]
  exact h e oldest

theorem Watchful.later (h : th.Watchful clock) (period : clock'.period = clock.period)
    (later : clock.now ≤ clock'.now) : th.Watchful clock' := by
  intro e oldest
  rw [period]
  exact le_trans (h e oldest) (max_le_max later (le_refl _))

theorem nextEvent_fetchNext (clock : Clock) (e : Entry) (th : Thread) :
    (fetchNext clock e th).2.nextEvent = th.nextEvent := by
  rw [fetchNext_frame]

/-- An entry that has just entered an empty window is due when it is ready. -/
theorem Watchful.enter {forwarding : Bool} (h : th.Watchful clock) (inside : th.inWindow < th.ring.length)
    (linked : link forwarding e.fetched th = .ok e' th') (fresh : e.Fresh)
    (acc : (th'.enter { e' with dispatched := clock.now, ready := max e'.ready clock.next }).Accounted config
      clock) (intime : clock.now ≠ .never) :
    (th'.enter { e' with dispatched := clock.now, ready := max e'.ready clock.next }).Watchful clock := by
  have link := linked_link linked
  have inWindow : th'.inWindow = th.inWindow := by rw [link.thread]
  have nextEvent : th'.nextEvent = th.nextEvent := by rw [link.thread]
  have length := link.counts.1
  have inside' : th'.inWindow < th'.ring.length := by omega
  have entered := window_enter inside' { e' with dispatched := clock.now, ready := max e'.ready clock.next }
  have listed : Pointwise (Entry.Listed e.fetched.seq) th.window th'.window := by
    unfold window
    rw [inWindow]
    exact link.ring.take _
  intro x oldest
  have first := oldest
  rw [oldest?_eq, entered] at first
  show min th'.nextEvent (max e'.ready clock.next) ≤ _
  cases window : th'.window with
  | nil =>
    rw [window, List.nil_append, List.head?_cons] at first
    cases first
    have waiting : e'.done = .never := link.done_eq.trans fresh.done
    have ready := acc.ready_of_oldest intime oldest
    unfold Entry.due Entry.isDone
    simp only [waiting, Time.isNever_iff.mpr rfl, Bool.not_true, Bool.false_eq_true, if_false]
    exact le_trans (min_le_right _ _) ready
  | cons y rest =>
    rw [window, List.cons_append, List.head?_cons] at first
    cases first
    have related := listed 0
    rw [window, List.getElem?_cons_zero] at related
    obtain ⟨z, before, same⟩ := rel_right related rfl
    have due : x.due clock.period = z.due clock.period := by
      rw [same.frame]
      rfl
    rw [due, nextEvent]
    refine le_trans (min_le_left _ _) (h z ?_)
    rw [oldest?_eq, List.head?_eq_getElem?]
    exact before

/-- Dispatch hides nothing. -/
theorem Watchful.admission (h : th.Watchful clock) (acc : th.Accounted config clock)
    (intime : clock.now ≠ .never) (admission : Admission config clock th th') : th'.Watchful clock := by
  have acc' := acc.works (admission.intakes.lift id fun _ _ => Intake.work)
  cases admission with
  | begin => exact h.congr rfl rfl
  | blame cause => exact h.congr rfl rfl
  | attempt awake tried =>
    have fetched : ∀ e, (fetchNext clock e th).2.Watchful clock := fun e =>
      h.congr (window_fetchNext clock e th) (nextEvent_fetchNext clock e th)
    cases attempt_of_ok tried with
    | empty => exact h
    | fetch => exact fetched _
    | full | loads => exact (fetched _).congr rfl rfl
    | @enter e e' th₁ next hit station linked =>
      have next' := get?_fetchNext next hit
      rw [← Ring.getElem?_toList] at next'
      have inside := (List.getElem?_eq_some_iff.mp next').1
      rw [Ring.length_toList] at inside
      exact (fetched e).enter inside linked (acc.reached.fresh next (Nat.le_refl _)) acc' intime

theorem Watchful.admissions (h : th.Watchful clock) (acc : th.Accounted config clock)
    (intime : clock.now ≠ .never) (admissions : Relation.ReflTransGen (Admission config clock) th th') :
    th'.Watchful clock := by
  have both : th'.Watchful clock ∧ th'.Accounted config clock := by
    induction admissions with
    | refl => exact ⟨h, acc⟩
    | tail _ admission ih =>
      exact ⟨ih.1.admission ih.2 intime admission,
        ih.2.works (admission.intakes.lift id fun _ _ => Intake.work)⟩
  exact both.1

/-- Commit hides nothing: what leaves was done, so the thread is looked at by now. -/
theorem Watchful.commit {penalty width freed : Nat} {keepLog : Bool} (h : th.Watchful clock)
    (intime : clock.now ≠ .never) (ran : commit clock penalty keepLog width th = .ok freed th') :
    th'.Watchful clock := by
  induction width generalizing th with
  | zero =>
    obtain ⟨-, rfl⟩ := pure_eq_ok.mp ran
    exact h
  | succ width ih =>
    cases departure_of_commit ran with
    | empty | early => exact h
    | flush _ _ _ flushed =>
      refine watchful_of_empty ?_
      rw [(flush_eq_ok flushed).2.2.2]
    | @leave e _ _ oldest late _ rest =>
      refine ih (fun x _ => ?_) rest
      have done : e.isDone = true := Entry.isDone_iff.mpr (Time.ne_never_of_le late intime)
      have now := h e oldest
      unfold Entry.due at now
      rw [if_pos done, max_eq_left late] at now
      exact le_trans now (le_max_left _ _)

/-! ## Section 2: Passes -/

/-- When the oldest entry is done, and when it entered the window. -/
def frontTimes (th : Thread) : Option (Time × Time) := th.oldest?.map fun e => (e.done, e.dispatched)

/-- The times of the oldest entry decide when it is due. -/
theorem due_of_frontTimes {done dispatched : Time} (oldest : th.oldest? = some e)
    (times : th.frontTimes = some (done, dispatched)) (period : Period) :
    e.due period = if done.isNever then dispatched + period.length else done := by
  unfold frontTimes at times
  rw [oldest, Option.map_some, Option.some.injEq, Prod.mk.injEq] at times
  obtain ⟨rfl, rfl⟩ := times
  unfold Entry.due Entry.isDone
  cases e.done.isNever with
  | true => rfl
  | false => rfl

/-- Oldest entries with the same times are due at the same time. -/
theorem due_eq_of_frontTimes {x : Entry} (oldest : th.oldest? = some e) (oldest' : th'.oldest? = some x)
    (same : th'.frontTimes = th.frontTimes) (period : Period) : x.due period = e.due period := by
  have times : th.frontTimes = some (e.done, e.dispatched) := by
    unfold frontTimes
    rw [oldest, Option.map_some]
  rw [due_of_frontTimes oldest times, due_of_frontTimes oldest' (same.trans times)]

/-- An entry that waits is due in the cycle after it was dispatched. -/
theorem due_of_waiting (waiting : e.isDone = false) (period : Period) :
    e.due period = e.dispatched + period.length := by
  unfold Entry.due
  rw [waiting]
  rfl

theorem frontTimes_congr (ring : th'.ring = th.ring) (inWindow : th'.inWindow = th.inWindow) :
    th'.frontTimes = th.frontTimes := by
  unfold frontTimes oldest?
  rw [ring, inWindow]

/-- When an entry issues, only its own result becomes known. -/
theorem frontTimes_start {n : Nat} {e₁ : Entry} {th₁ : Thread} {now done latency : Time}
    (inside : n < th.inWindow) (entry : th.ring.get? n = some e) (asked : th.Asked n e th₁ e₁)
    (h : start n e₁ now done latency th₁ = .ok () th') :
    th'.frontTimes = if n = 0 then some (done, e.dispatched) else th.frontTimes := by
  obtain ⟨-, -, woken, -, -⟩ := start_eq_ok h
  obtain ⟨-, ring⟩ := asked.issuedAt now done
  have inWindow := (start_counts inside entry asked h).2.1
  have dispatched : e₁.dispatched = e.dispatched := by
    rcases asked with ⟨-, rfl⟩ | ⟨_, _, _, -, rfl, -⟩
    · rfl
    · rfl
  rw [ring] at woken
  have front := woken 0
  have some : th'.inWindow ≠ 0 := by omega
  have some' : th.inWindow ≠ 0 := by omega
  unfold frontTimes oldest? Ring.front?
  rw [if_neg some, if_neg some', ← Ring.getElem?_toList, ← Ring.getElem?_toList]
  rw [← Ring.getElem?_toList] at entry
  by_cases first : n = 0
  · subst first
    rw [List.getElem?_set_self (List.getElem?_eq_some_iff.mp entry).1] at front
    obtain ⟨x, at_front, told⟩ := rel_left front rfl
    rw [at_front, if_pos rfl, Option.map_some, told.frame, ← dispatched]
  · rw [List.getElem?_set_ne first] at front
    rw [if_neg first]
    generalize th.ring.toList[0]? = o at front
    generalize th'.ring.toList[0]? = o' at front
    cases front with
    | none => rfl
    | some told => rw [Option.map_some, Option.map_some, told.frame]

end Thread

namespace Window

variable {M : Type} [MemorySystem M] {w v x : Window M} {i n k : Nat} {l : Lane M} {e : Entry}

/-- When an entry issues, and is counted if it is a long load, only its own result becomes known. -/
theorem frontTimes_issue {cutoff : Nat} {done : Time} (found : w.lanes[i]? = some l)
    (inside : n < l.thread.inWindow) (entry : l.thread.ring.get? n = some e)
    (issued : issueEntry i n w = .ok done v)
    (counted : modifyThread i (Thread.accountLongLoad cutoff w.clock.now n) v = .ok () x) :
    ∃ l', x.lanes[i]? = some l' ∧ l'.thread.inWindow = l.thread.inWindow ∧
      l'.thread.frontTimes = if n = 0 then some (done, e.dispatched) else l.thread.frontTimes := by
  have at_i : i < w.lanes.size := (Array.getElem?_eq_some_iff.mp found).1
  obtain ⟨th, e', l₁, asked, started, rfl, rfl⟩ := issueEntry_eq_ok found entry issued
  obtain ⟨l₂, found₂, rfl⟩ := modifyThread_eq_ok.mp counted
  obtain rfl : l₁ = l₂ := by simpa [at_i] using found₂
  have same := Thread.sameFlow_accountLongLoad cutoff w.clock.now n l₁.thread
  refine ⟨{ l₁ with thread := l₁.thread.accountLongLoad cutoff w.clock.now n }, by simp [at_i], ?_, ?_⟩
  · show (l₁.thread.accountLongLoad cutoff w.clock.now n).inWindow = _
    rw [same.inWindow, (Thread.start_counts inside entry asked started).2.1]
  · show (l₁.thread.accountLongLoad cutoff w.clock.now n).frontTimes = _
    rw [Thread.frontTimes_congr same.ring same.inWindow, Thread.frontTimes_start inside entry asked started]

/-- Behind the oldest entry, a pass does not concern it, and only notes earlier times. -/
theorem frontTimes_issueFrom {pass pass' : IssuePass} (found : w.lanes[i]? = some l)
    (inside : k + n ≤ l.thread.inWindow) (behind : 0 < k) (h : issueFrom i n k pass w = .ok pass' v) :
    ∃ l', v.lanes[i]? = some l' ∧ l'.thread.frontTimes = l.thread.frontTimes ∧
      pass'.event ≤ pass.event := by
  induction n generalizing k pass w l with
  | zero =>
    obtain ⟨rfl, rfl⟩ := pure_eq_ok.mp h
    exact ⟨l, found, rfl, le_refl _⟩
  | succ n ih =>
    cases looks_of_issueFrom found h with
    | nothing _ ends same =>
      rw [ends, same]
      exact ⟨l, found, rfl, le_refl _⟩
    | done _ _ rest =>
      obtain ⟨l', found', same, earlier⟩ := ih found (by omega) (by omega) rest
      exact ⟨l', found', same, le_trans earlier (min_le_left _ _)⟩
    | stop _ _ _ ends same =>
      rw [ends, same]
      exact ⟨l, found, rfl, min_le_left _ _⟩
    | @issue e done w₁ w₂ entry waiting _ issued counted rest =>
      obtain ⟨l₂, found₂, span, same⟩ := frontTimes_issue found (by omega) entry issued counted
      rw [if_neg (by omega)] at same
      have earlier : min (min pass.event e.ready) done ≤ pass.event :=
        le_trans (min_le_left _ _) (min_le_left _ _)
      rcases rest with ⟨rfl, rfl⟩ | rest
      · exact ⟨l₂, found₂, same, le_trans (min_le_left _ _) earlier⟩
      · obtain ⟨l', found', same', earlier'⟩ := ih found₂ (by omega) (by omega) rest
        exact ⟨l', found', same'.trans same, le_trans earlier' earlier⟩
    | wait _ _ _ _ rest =>
      rcases rest with ⟨rfl, rfl⟩ | rest
      · exact ⟨l, found, rfl, min_le_left _ _⟩
      · obtain ⟨l', found', same, earlier⟩ := ih found (by omega) (by omega) rest
        exact ⟨l', found', same, le_trans earlier (min_le_left _ _)⟩

/-- What a pass notes is no later than the time at which the oldest entry is due afterwards. -/
theorem event_le_due {pass pass' : IssuePass} (found : w.lanes[i]? = some l)
    (oldest : l.thread.oldest? = some e)
    (ready : e.ready ≤ max w.clock.now (e.dispatched + w.clock.period.length))
    (h : issueFrom i l.thread.inWindow 0 pass w = .ok pass' v) :
    ∃ l', v.lanes[i]? = some l' ∧
      ∀ x, l'.thread.oldest? = some x → pass'.event ≤ max w.clock.now (x.due w.clock.period) := by
  obtain ⟨some, front⟩ := Thread.oldest?_eq_some oldest
  have entry : l.thread.ring.get? 0 = .some e := by
    rw [← Ring.getElem?_toList, front]
    rfl
  obtain ⟨n, length⟩ := Nat.exists_eq_add_one.mpr some
  rw [length] at h
  have same_due : ∀ {l' : Lane M} {x : Entry}, l'.thread.frontTimes = l.thread.frontTimes →
      l'.thread.oldest? = .some x → x.due w.clock.period = e.due w.clock.period :=
    fun same at_x => Thread.due_eq_of_frontTimes oldest at_x same _
  -- an entry that waits is ready by the time it is due
  have noted : ∀ {t : Time}, e.isDone = false → t ≤ min pass.event e.ready →
      t ≤ max w.clock.now (e.due w.clock.period) := by
    intro t waiting le
    rw [Thread.due_of_waiting waiting]
    exact le_trans le (le_trans (min_le_right _ _) ready)
  cases looks_of_issueFrom found h with
  | nothing none _ _ => cases entry.symm.trans none
  | done at_e done rest =>
    cases entry.symm.trans at_e
    obtain ⟨l', found', same, earlier⟩ := frontTimes_issueFrom found (by omega) (by omega) rest
    refine ⟨l', found', fun x at_x => ?_⟩
    rw [same_due same at_x]
    unfold Entry.due
    rw [if_pos done]
    exact le_trans earlier (le_trans (min_le_right _ _) (le_max_right _ _))
  | stop at_e waiting _ ends same =>
    cases entry.symm.trans at_e
    rw [ends, same]
    refine ⟨l, found, fun x at_x => ?_⟩
    rw [same_due rfl at_x]
    exact noted waiting (le_refl _)
  | @issue _ done w₁ w₂ at_e waiting _ issued counted rest =>
    cases entry.symm.trans at_e
    obtain ⟨l₂, found₂, span, times⟩ := frontTimes_issue found some entry issued counted
    rw [if_pos rfl] at times
    -- its result is noted, unless it comes too late to be one
    have final : ∀ {l' : Lane M} {t : Time}, l'.thread.frontTimes = l₂.thread.frontTimes →
        t ≤ min (min pass.event e.ready) done → ∀ x, l'.thread.oldest? = .some x →
        t ≤ max w.clock.now (x.due w.clock.period) := by
      intro l' t same le x at_x
      rw [Thread.due_of_frontTimes at_x (same.trans times)]
      split
      · rw [← Thread.due_of_waiting waiting]
        exact noted waiting (le_trans le (min_le_left _ _))
      · exact le_trans le (le_trans (min_le_right _ _) (le_max_right _ _))
    rcases rest with ⟨rfl, rfl⟩ | rest
    · exact ⟨l₂, found₂, final rfl (min_le_left _ _)⟩
    · obtain ⟨l', found', same, earlier⟩ := frontTimes_issueFrom found₂ (by omega) (by omega) rest
      exact ⟨l', found', final same earlier⟩
  | wait at_e waiting _ _ rest =>
    cases entry.symm.trans at_e
    rcases rest with ⟨rfl, rfl⟩ | rest
    · refine ⟨l, found, fun x at_x => ?_⟩
      rw [same_due rfl at_x]
      exact noted waiting (le_refl _)
    · obtain ⟨l', found', same, earlier⟩ := frontTimes_issueFrom found (by omega) (by omega) rest
      refine ⟨l', found', fun x at_x => ?_⟩
      rw [same_due same at_x]
      exact noted waiting earlier

/-! ## Section 3: Windows -/

/-- Every thread is looked at once its oldest entry is due. -/
def Watchful (w : Window M) : Prop :=
  ∀ (i : Nat) (l : Lane M), w.lanes[i]? = some l → l.thread.Watchful w.clock

theorem Watchful.dispatch {running : Running} {event : Time} (h : w.Watchful) (acc : w.Accounted)
    (intime : w.clock.now ≠ .never) (ran : dispatch running w = .ok event v) : v.Watchful := by
  have worked := admissions_dispatch ran
  intro i l' found'
  obtain ⟨l, found, admissions⟩ := worked.exists_lane found'
  rw [worked.clock]
  exact (h i l found).admissions (acc i l found) intime admissions

/-- The turn of a lane in the issue stage hides nothing on that lane. -/
theorem watchful_issueLane {event : Time} {result : Bool × Time} (h : w.Watchful) (acc : w.Accounted)
    (intime : w.clock.now ≠ .never) (ran : issueLane i event w = .ok result v) {l' : Lane M}
    (found' : v.lanes[i]? = some l') : l'.thread.Watchful w.clock := by
  obtain ⟨l, found, turn⟩ := issueTurn_of_issueLane ran
  cases turn with
  | asleep _ _ same =>
    rw [same] at found'
    exact h i l' found'
  | empty _ _ same =>
    rw [same] at found'
    exact h i l' found'
  | @look pass w₁ _ some looked noted _ =>
    obtain ⟨l₁, found₁, rfl⟩ := modifyThread_eq_ok.mp noted
    have at_i : i < w₁.lanes.size := (Array.getElem?_eq_some_iff.mp found₁).1
    dsimp only at found'
    rw [Array.getElem?_setIfInBounds_self_of_lt at_i] at found'
    cases found'
    obtain ⟨e, oldest⟩ := (acc i l found).exists_oldest (by omega)
    obtain ⟨l₂, found₂, due⟩ := event_le_due found oldest ((acc i l found).ready_of_oldest intime oldest) looked
    obtain rfl : l₁ = l₂ := Option.some.inj (found₁.symm.trans found₂)
    exact due

theorem Watchful.issueLanes {lanes : List Nat} {event : Time} {result : Option Nat × Time} (h : w.Watchful)
    (acc : w.Accounted) (intime : w.clock.now ≠ .never) (ran : issueLanes lanes event w = .ok result v) :
    v.Watchful := by
  induction lanes generalizing event w with
  | nil =>
    obtain ⟨-, rfl⟩ := pure_eq_ok.mp ran
    exact h
  | cons i rest ih =>
    obtain ⟨any, event', w₁, turn, goesOn⟩ := issueLanes_cons_eq_ok ran
    have worked : Worked Thread.Work w w₁ := .of_moves Fire.worked (fires_issueLane turn)
    have first : w₁.Watchful := by
      intro j l' found'
      rw [worked.clock]
      by_cases here : j = i
      · subst here
        exact watchful_issueLane h acc intime turn found'
      · rw [lanes_of_beside (preserves_issueLane i event turn) here] at found'
        exact h j l' found'
    rcases goesOn with ⟨-, -, rfl⟩ | ⟨-, onwards⟩
    · exact first
    · exact ih first (acc.worked worked) (worked.clock ▸ intime) onwards

theorem Watchful.issue {event : Time} (h : w.Watchful) (acc : w.Accounted) (intime : w.clock.now ≠ .never)
    (ran : issue w = .ok event v) : v.Watchful := by
  obtain ⟨last, w₁, turns, rfl⟩ := issue_eq_ok ran
  have after := h.issueLanes acc intime turns
  exact fun i l found => after i l found

theorem Watchful.forM_commitLane {lanes : List Nat} (h : w.Watchful) (intime : w.clock.now ≠ .never)
    (ran : lanes.forM commitLane w = .ok () v) : v.Watchful := by
  induction lanes generalizing w with
  | nil =>
    obtain ⟨-, rfl⟩ := pure_eq_ok.mp ran
    exact h
  | cons i rest ih =>
    obtain ⟨⟨⟩, w₁, turn, ran⟩ := bind_eq_ok.mp ran
    obtain ⟨l, th, freed, found, did, rfl⟩ := commitLane_eq_ok turn
    refine ih ?_ ?_ ran
    · intro j l' found'
      change (w.lanes.setIfInBounds i { l with thread := th })[j]? = some l' at found'
      by_cases here : i = j
      · subst here
        rw [Array.getElem?_setIfInBounds_self_of_lt (Array.getElem?_eq_some_iff.mp found).1] at found'
        cases found'
        exact (h i l found).commit intime did
      · rw [Array.getElem?_setIfInBounds_ne here] at found'
        exact h j l' found'
    · exact intime

omit [MemorySystem M] in
theorem Watchful.advance (h : w.Watchful) (span : Time) : (w.advance span).Watchful := by
  intro i l' found'
  obtain ⟨l, found, rfl⟩ : ∃ l, w.lanes[i]? = some l ∧ _ := by
    simpa [Window.advance] using found'
  exact ((h i l found).congr rfl rfl).later rfl (Time.le_add_right _ _)

/-- Until the clock is at the end of time, no cycle hides anything. -/
theorem Watchful.cycle {stride : Stride M} {running : Running} (h : w.Watchful) (acc : w.Accounted)
    (intime : w.clock.now ≠ .never) (ran : Window.cycle stride running w = .ok () v) : v.Watchful := by
  obtain ⟨_, _, _, w₁, w₂, w₃, dispatched, issued, committed, rfl⟩ := stages_of_cycle ran
  have works := (worked_dispatch dispatched).mono Thread.Intake.work
  have intime₁ : w₁.clock.now ≠ .never := works.clock ▸ intime
  have intime₂ : w₂.clock.now ≠ .never := (worked_issue issued).clock ▸ intime₁
  have issue := (h.dispatch acc intime dispatched).issue (acc.worked works) intime₁ issued
  exact (issue.forM_commitLane intime₂ (commit_eq_ok committed)).advance _

end Window

end CoreTiming
