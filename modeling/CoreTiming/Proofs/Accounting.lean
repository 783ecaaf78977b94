import CoreTiming.Proofs.Advancing
import CoreTiming.Proofs.Waiting

/-!
# Windows and their accounts

What holds of every account that steps lead to holds of the threads of a window, whatever they have taken in
and let out before.  `Window.Accounted` says that there is such an account for each thread, and
`Window.Balanced` adds what the threads have in common: the reservation stations in use are held by entries
of the window that have not issued.  Both are kept by every move of a cycle.
-/

namespace CoreTiming

open Faulting

/-! ## Section 1: Threads -/

namespace Thread

/-- The thread is what steps have made of a new one. -/
def Reached (config : Config) (clock : Clock) (th : Thread) : Prop :=
  ∃ pushed retired, Account.Reachable config { clock, thread := th, pushed, retired }

/-- The thread is what steps have made of a new one that was given micro-ops without producers. -/
def Accounted (config : Config) (clock : Clock) (th : Thread) : Prop :=
  ∃ pushed retired, Account.Reachable config { clock, thread := th, pushed, retired } ∧ Unlinked pushed

variable {config : Config} {clock clock' : Clock} {th th' : Thread} {e : Entry} {i : Nat}

theorem Reached.works (h : th.Reached config clock) (works : Works config clock th th') :
    th'.Reached config clock := by
  obtain ⟨pushed, retired, reached⟩ := h
  exact ⟨pushed, retired, reached.steps (Account.Steps.of_works works)⟩

theorem Reached.leads {R : Account → Account → Prop} {us : List OpInstance} {rs : List Retirement}
    (h : th.Reached config clock) (steps : ∀ {a b}, R a b → Account.Steps config a b)
    (leads : Leads R us rs clock th clock' th') : th'.Reached config clock' := by
  obtain ⟨pushed, retired, reached⟩ := h
  exact ⟨pushed ++ us, retired ++ rs, reached.steps (leads.lift steps pushed retired)⟩

theorem Reached.inWindow_le (h : th.Reached config clock) : th.inWindow ≤ th.ring.length := by
  obtain ⟨pushed, retired, reached⟩ := h
  exact reached.inOrder.inWindow_le

/-- What is buffered has not begun. -/
theorem Reached.fresh (h : th.Reached config clock) (entry : th.ring.get? i = some e)
    (buffered : th.inWindow ≤ i) : e.Fresh := by
  obtain ⟨pushed, retired, reached⟩ := h
  rw [← Ring.getElem?_toList, ← Account.entries_add (a := { clock, thread := th, pushed, retired })] at entry
  exact reached.timed.fresh _ e entry (Nat.add_le_add_left buffered _)

/-- Results come after issue. -/
theorem Reached.issued_le (h : th.Reached config clock) (entry : th.ring.get? i = some e) :
    e.issued ≤ e.done := by
  obtain ⟨pushed, retired, reached⟩ := h
  rw [← Ring.getElem?_toList, ← Account.entries_add (a := { clock, thread := th, pushed, retired })] at entry
  exact reached.timed.issued_le _ e entry

theorem Accounted.reached (h : th.Accounted config clock) : th.Reached config clock := by
  obtain ⟨pushed, retired, reached, -⟩ := h
  exact ⟨pushed, retired, reached⟩

theorem Accounted.works (h : th.Accounted config clock) (works : Works config clock th th') :
    th'.Accounted config clock := by
  obtain ⟨pushed, retired, reached, unlinked⟩ := h
  exact ⟨pushed, retired, reached.steps (Account.Steps.of_works works), unlinked⟩

theorem Accounted.leads {R : Account → Account → Prop} {us : List OpInstance} {rs : List Retirement}
    (h : th.Accounted config clock) (steps : ∀ {a b}, R a b → Account.Steps config a b)
    (leads : Leads R us rs clock th clock' th') (unlinked : Unlinked us) : th'.Accounted config clock' := by
  obtain ⟨pushed, retired, reached, before⟩ := h
  refine ⟨pushed ++ us, retired ++ rs, reached.steps (leads.lift steps pushed retired), fun u mem => ?_⟩
  rcases List.mem_append.mp mem with old | new
  · exact before u old
  · exact unlinked u new

theorem Accounted.inWindow_le (h : th.Accounted config clock) : th.inWindow ≤ th.ring.length :=
  h.reached.inWindow_le

/-- A window that is not empty has an oldest entry. -/
theorem Accounted.exists_oldest (h : th.Accounted config clock) (some : th.inWindow ≠ 0) :
    ∃ e, th.oldest? = .some e := by
  have inside := h.inWindow_le
  rw [← Option.isSome_iff_exists, th.oldest?_eq, List.isSome_head?]
  intro empty
  have length := congrArg List.length empty
  unfold window at length
  rw [List.length_take, Ring.length_toList, List.length_nil] at length
  omega

/-- The oldest entry is ready by the cycle after it entered the window. -/
theorem Accounted.ready_of_oldest (h : th.Accounted config clock) (intime : clock.now ≠ .never)
    (oldest : th.oldest? = some e) : e.ready ≤ max clock.now (e.dispatched + clock.period.length) := by
  obtain ⟨pushed, retired, reached, unlinked⟩ := h
  obtain ⟨entry, inside⟩ := Account.entries_oldest (a := { clock, thread := th, pushed, retired }) oldest
  exact (reached.attuned unlinked intime).ready_of_oldest reached.timed inside entry

/-! ## Section 2: Reservation stations -/

theorem stationsHeld_of_window (same : th'.window = th.window) : th'.stationsHeld = th.stationsHeld := by
  rw [stationsHeld_eq, stationsHeld_eq, same]

theorem window_fetchNext (clock : Clock) (e : Entry) (th : Thread) :
    (fetchNext clock e th).2.window = th.window := by
  rcases fetchNext_cases clock e th with ⟨-, eq⟩ | ⟨-, -, eq⟩ | ⟨-, -, eq⟩
  · rw [eq]
  · rw [eq]
    exact window_setEntry_of_le (Nat.le_refl th.inWindow) e.fetched
  · rw [eq]
    rfl

/-- An entry that enters the window is placed behind the others, in which it may have been listed. -/
theorem exists_window_enter {forwarding : Bool} {e' : Entry} (next : th.ring.get? th.inWindow = some e)
    (hit : (fetchNext clock e th).1 = true)
    (linked : link forwarding e.fetched (fetchNext clock e th).2 = .ok e' th') (x : Entry) :
    ∃ es, Pointwise (Entry.Listed e.fetched.seq) th.window es ∧ (th'.enter x).window = es ++ [x] := by
  have link := linked_link linked
  have next' := get?_fetchNext next hit
  rw [← Ring.getElem?_toList] at next'
  have inside := (List.getElem?_eq_some_iff.mp next').1
  rw [Ring.length_toList] at inside
  have inWindow : th'.inWindow = (fetchNext clock e th).2.inWindow := by rw [link.thread]
  have length := link.counts.1
  refine ⟨th'.window, ?_, window_enter (by omega) x⟩
  rw [← window_fetchNext clock e th]
  unfold window
  rw [inWindow]
  exact link.ring.take _

/-- Whether an attempt to dispatch takes a reservation station. -/
def Dispatched.stations : Dispatched → Nat
  | .blocked _ => 0
  | .entered _ => 1

/-- What enters the window holds a reservation station. -/
theorem Attempt.stationsHeld_eq {forwarding free : Bool} {d : Dispatched}
    (h : Attempt forwarding clock free th d th') (reached : th.Reached config clock) :
    th'.stationsHeld = th.stationsHeld + d.stations := by
  cases h with
  | empty => rfl
  | fetch | full | loads => exact stationsHeld_of_window (window_fetchNext clock _ th)
  | @enter e e' th₁ next fetched station linked =>
    have issued : e'.issued = .never := by
      rw [(linked_link linked).entry]
      exact (reached.fresh next (Nat.le_refl _)).issued
    obtain ⟨es, listed, window⟩ := exists_window_enter next fetched linked
      { e' with dispatched := clock.now, ready := max e'.ready clock.next }
    rw [stationsHeld_eq, stationsHeld_eq, window, List.countP_append, List.countP_singleton,
      listed.countP_eq (p := (·.issued.isNever)) fun x y same => by rw [same.frame]]
    simp only [issued, Time.isNever_iff.mpr rfl, if_true]
    rfl

/-- What leaves the window held no reservation station, unless the window starts over. -/
theorem stationsHeld_commit {penalty width freed : Nat} {keepLog : Bool} (intime : clock.now ≠ .never)
    (issued : ∀ e ∈ th.ring.toList, e.issued ≤ e.done)
    (h : commit clock penalty keepLog width th = .ok freed th') :
    th'.stationsHeld + freed = th.stationsHeld := by
  induction width generalizing th with
  | zero =>
    obtain ⟨rfl, rfl⟩ := pure_eq_ok.mp h
    rfl
  | succ width ih =>
    -- what is done has issued, so it holds no station
    have held : ∀ {e : Entry}, th.oldest? = some e → e.done ≤ clock.now →
        (th.retire keepLog clock.now e).stationsHeld = th.stationsHeld := by
      intro e oldest done
      have le := issued e (by rw [(oldest?_eq_some oldest).2]; exact List.mem_cons_self)
      have gone : e.issued.isNever = false := by
        rw [Time.isNever_eq_false_iff]
        exact Time.ne_never_of_le (le_trans le done) intime
      rw [th.oldest?_eq] at oldest
      obtain ⟨rest, window⟩ := List.head?_eq_some_iff.mp oldest
      rw [stationsHeld_eq, stationsHeld_eq, window_retire, window, List.tail_cons, List.countP_cons, gone]
      rfl
    cases departure_of_commit h with
    | empty | early => rfl
    | flush oldest done _ flushed =>
      have empty : th'.stationsHeld = 0 := by
        rw [stationsHeld_eq, window, (flush_eq_ok flushed).2.2.2]
        rfl
      rw [empty, held oldest done, Nat.zero_add]
    | leave oldest done _ rest =>
      rw [← held oldest done]
      refine ih (fun x mem => issued x ?_) rest
      have tail : x ∈ th.ring.tail.toList := mem
      rw [Ring.toList_tail] at tail
      exact List.mem_of_mem_tail tail

end Thread

/-! ## Section 3: Windows -/

namespace Window

variable {M : Type} {w v x : Window M} {i : Nat}

/-- Steps lead to each thread. -/
def Reached (w : Window M) : Prop :=
  ∀ (i : Nat) (l : Lane M), w.lanes[i]? = some l → l.thread.Reached w.config w.clock

/-- There is an account for each thread. -/
def Accounted (w : Window M) : Prop :=
  ∀ (i : Nat) (l : Lane M), w.lanes[i]? = some l → l.thread.Accounted w.config w.clock

theorem Accounted.reached (h : w.Accounted) : w.Reached := fun i l found => (h i l found).reached

theorem Reached.worked (h : w.Reached) (worked : Worked Thread.Work w v) : v.Reached := by
  intro i l' found'
  obtain ⟨l, found, works⟩ := worked.exists_lane found'
  rw [worked.config, worked.clock]
  exact (h i l found).works works

theorem Reached.leads {R : Config → Account → Account → Prop} {us : Nat → List OpInstance}
    {rs : Nat → List Retirement} (h : w.Reached) (steps : ∀ {config a b}, R config a b → Account.Steps config a b)
    (leads : Leads R us rs w v) : v.Reached := by
  intro i l' found'
  obtain ⟨l, found, steps'⟩ := rel_right (leads.lanes i) found'
  rw [leads.config]
  exact (h i l found).leads steps steps'

theorem Accounted.worked (h : w.Accounted) (worked : Worked Thread.Work w v) : v.Accounted := by
  intro i l' found'
  obtain ⟨l, found, works⟩ := worked.exists_lane found'
  rw [worked.config, worked.clock]
  exact (h i l found).works works

theorem Accounted.leads {R : Config → Account → Account → Prop} {us : Nat → List OpInstance}
    {rs : Nat → List Retirement} (h : w.Accounted)
    (steps : ∀ {config a b}, R config a b → Account.Steps config a b) (leads : Leads R us rs w v)
    (unlinked : ∀ i, Unlinked (us i)) : v.Accounted := by
  intro i l' found'
  obtain ⟨l, found, steps'⟩ := rel_right (leads.lanes i) found'
  rw [leads.config]
  exact (h i l found).leads steps steps' (unlinked i)

theorem Admit.worked [MemorySystem M] (h : Admit w v) : Worked Thread.Work w v :=
  h.admissions.lift fun admission => admission.intakes.lift id fun _ _ => Thread.Intake.work

theorem Fire.worked [MemorySystem M] (h : Fire w v) : Worked Thread.Work w v :=
  h.firings.lift Thread.Firing.works

theorem unlinked_nil : Unlinked [] := by
  intro u mem
  cases mem

/-! ## Section 4: What a move does to the reservation stations -/

/-- As many more reservation stations are in use as more entries of the window hold one. -/
def Squares (w v : Window M) : Prop :=
  v.stationsUsed + w.total (·.stationsHeld) = w.stationsUsed + v.total (·.stationsHeld)

theorem squares_setLane {l l' : Lane M} (found : w.lanes[i]? = some l)
    (lanes : v.lanes = w.lanes.setIfInBounds i l')
    (stations : v.stationsUsed + l.thread.stationsHeld = w.stationsUsed + l'.thread.stationsHeld) :
    w.Squares v := by
  have total := total_setLane (·.stationsHeld) found lanes
  unfold Squares
  omega

variable [MemorySystem M]

/-- A thread does something that concerns no reservation station. -/
theorem squares_onThread {α : Type} {f : Faulting Thread α} {a : α} (ran : onThread i f w = .ok a v)
    (same : ∀ th th', f th = .ok a th' → th'.window = th.window) : w.Squares v := by
  obtain ⟨l, th, found, did, rfl⟩ := onThread_eq_ok.mp ran
  have held := Thread.stationsHeld_of_window (same _ _ did)
  refine squares_setLane found rfl ?_
  show w.stationsUsed + _ = w.stationsUsed + th.stationsHeld
  rw [held]

/-- What enters the window takes a reservation station. -/
theorem Admit.squares (admitted : Admit w v) (h : w.Reached) : w.Squares v := by
  cases admitted with
  | begin begun =>
    refine squares_onThread begun fun th th' ran => ?_
    rw [← modify_eq_ok.mp ran]
    rfl
  | block awake tried =>
    obtain ⟨l, th, found, ran, rfl⟩ := onThread_eq_ok.mp tried
    have held : th.stationsHeld = l.thread.stationsHeld + 0 :=
      (Thread.attempt_of_ok ran).stationsHeld_eq (h _ _ found)
    refine squares_setLane found rfl ?_
    show w.stationsUsed + _ = w.stationsUsed + th.stationsHeld
    omega
  | enter awake tried =>
    obtain ⟨l, th, found, ran, rfl⟩ := onThread_eq_ok.mp tried
    have held : th.stationsHeld = l.thread.stationsHeld + 1 :=
      (Thread.attempt_of_ok ran).stationsHeld_eq (h _ _ found)
    refine squares_setLane found rfl ?_
    show w.stationsUsed + 1 + _ = w.stationsUsed + th.stationsHeld
    omega
  | blame blamed =>
    refine squares_onThread blamed fun th th' ran => ?_
    rw [← modify_eq_ok.mp ran]
    rfl
  | turn n => rfl

theorem Note.squares (noted : Note w v) : w.Squares v := by
  cases noted with
  | @account _ i n cutoff counted =>
    refine squares_onThread counted fun th th' ran => ?_
    rw [← modify_eq_ok.mp ran]
    have same := Thread.sameFlow_accountLongLoad cutoff w.clock.now n th
    unfold Thread.window
    rw [same.ring, same.inWindow]
  | look noted =>
    refine squares_onThread noted fun th th' ran => ?_
    rw [← modify_eq_ok.mp ran]
    rfl
  | turn n => rfl

/-- An entry that issues gives its reservation station back, if it has one. -/
theorem total_issueEntry {n : Nat} {l : Lane M} {e : Entry} {done : Time} (intime : w.clock.now ≠ .never)
    (found : w.lanes[i]? = some l) (inside : n < l.thread.inWindow) (entry : l.thread.ring.get? n = some e)
    (issued : issueEntry i n w = .ok done v) :
    v.stationsUsed = w.stationsUsed - 1 ∧
      v.total (·.stationsHeld) + (if e.issued.isNever then 1 else 0) = w.total (·.stationsHeld) := by
  obtain ⟨th, e', l', asked, started, -, rfl⟩ := issueEntry_eq_ok found entry issued
  obtain ⟨-, -, -, -, held⟩ := Thread.start_counts inside entry asked started
  rw [Time.isNever_eq_false_iff.mpr intime] at held
  simp only [Bool.false_eq_true, if_false] at held
  refine ⟨rfl, ?_⟩
  have total := total_setLane (·.stationsHeld) found
    (show { accept e'.u.op (w.clock.period.cycles e'.u.latency) w with
      lanes := w.lanes.setIfInBounds i l' }.lanes = w.lanes.setIfInBounds i l' from rfl)
  omega

/-- What leaves a lane held no reservation station, and what the window of the lane gives back it had. -/
theorem total_commitLane (intime : w.clock.now ≠ .never) (h : w.Reached)
    (committed : commitLane i w = .ok () v) :
    ∃ (l : Lane M) (th : Thread) (freed : Nat), w.lanes[i]? = some l ∧
      Thread.commit w.clock w.config.predictor.penalty w.config.window.commitLog w.config.window.commitWidth
        l.thread = .ok freed th ∧
      v = { w with
        lanes := w.lanes.setIfInBounds i { l with thread := th }
        stationsUsed := w.stationsUsed - freed } ∧
      v.total (·.stationsHeld) + freed = w.total (·.stationsHeld) := by
  obtain ⟨l, th, freed, found, ran, rfl⟩ := commitLane_eq_ok committed
  refine ⟨l, th, freed, found, ran, rfl, ?_⟩
  have held : th.stationsHeld + freed = l.thread.stationsHeld := by
    refine Thread.stationsHeld_commit intime (fun e mem => ?_) ran
    obtain ⟨k, at_k⟩ := List.getElem?_of_mem mem
    rw [Ring.getElem?_toList] at at_k
    exact (h _ _ found).issued_le at_k
  have total := total_setLane (·.stationsHeld) found
    (show { w with
      lanes := w.lanes.setIfInBounds i { l with thread := th }
      stationsUsed := w.stationsUsed - freed }.lanes = w.lanes.setIfInBounds i { l with thread := th } from rfl)
  dsimp only at total
  omega

/-! ## Section 5: Balanced windows -/

omit [MemorySystem M] in
/-- The window is what calls have made of a new one, as far as its threads and its reservation stations
show. -/
structure Balanced (w : Window M) : Prop where
  /-- There is an account for each thread. -/
  accounted : w.Accounted
  /-- Every thread has some share of the window. -/
  share : 0 < w.share
  /-- Reservation stations are held by entries of the window that have not issued. -/
  stations : w.clock.now ≠ .never → w.stationsUsed ≤ w.total (·.stationsHeld)

omit [MemorySystem M] in
/-- If all windows are empty, no reservation station is in use. -/
theorem Balanced.stationsUsed_eq_zero (h : w.Balanced) (intime : w.clock.now ≠ .never)
    (empty : ∀ (i : Nat) (l : Lane M), w.lanes[i]? = some l → l.thread.inWindow = 0) : w.stationsUsed = 0 := by
  have held : w.total (·.stationsHeld) = 0 := by
    unfold total
    rw [List.sum_eq_zero_iff_forall_eq_nat]
    intro n mem
    obtain ⟨l, at_l, rfl⟩ := List.mem_map.mp mem
    obtain ⟨i, at_i⟩ := List.getElem?_of_mem at_l
    rw [Array.getElem?_toList] at at_i
    show l.thread.stationsHeld = 0
    rw [Thread.stationsHeld_eq, Thread.window, empty i l at_i]
    rfl
  have used := h.stations intime
  omega

omit [MemorySystem M] in
theorem Balanced.squares (h : w.Balanced) (worked : Worked Thread.Work w v) (squares : w.Squares v) :
    v.Balanced := by
  refine ⟨h.accounted.worked worked, worked.share ▸ h.share, fun intime => ?_⟩
  have used := h.stations (worked.clock ▸ intime)
  unfold Squares at squares
  omega

theorem Fire.balanced (fired : Fire w v) (h : w.Balanced) : v.Balanced := by
  have worked := fired.worked
  cases fired with
  | issue found inside entry waiting verdict issued =>
    refine ⟨h.accounted.worked worked, worked.share ▸ h.share, fun intime => ?_⟩
    rw [worked.clock] at intime
    have used := h.stations intime
    obtain ⟨left, held⟩ := total_issueEntry intime found inside entry issued
    split at held
    · omega
    · omega
  | note noted => exact h.squares worked noted.squares

theorem balanced_commitLane (committed : commitLane i w = .ok () v) (h : w.Balanced) : v.Balanced := by
  have leads := leads_commitLane committed
  have accounted := h.accounted.leads (fun left => .single left.drift.step) leads fun _ => unlinked_nil
  obtain ⟨l, th, freed, found, ran, same⟩ := commitLane_eq_ok committed
  refine ⟨accounted, ?_, fun intime => ?_⟩
  · rw [same]
    exact h.share
  · have intime : w.clock.now ≠ .never := by rwa [same] at intime
    obtain ⟨_, _, freed, -, -, rfl, held⟩ := total_commitLane intime h.accounted.reached committed
    have used := h.stations intime
    show w.stationsUsed - freed ≤ _
    omega

/-- Every move of a cycle keeps the balance. -/
theorem Move.balanced (moved : Move w v) (h : w.Balanced) : v.Balanced := by
  cases moved with
  | dispatch admitted => exact h.squares admitted.worked (admitted.squares h.accounted.reached)
  | issue fired => exact fired.balanced h
  | commit committed => exact balanced_commitLane committed h

theorem Balanced.moves (h : w.Balanced) (moves : Moves w v) : v.Balanced := by
  induction moves with
  | refl => exact h
  | tail _ moved ih => exact moved.balanced ih

omit [MemorySystem M] in
/-- The end of a cycle concerns no reservation station. -/
theorem squares_advance (w : Window M) (span : Time) : w.Squares (w.advance span) := by
  have same : (w.advance span).total (·.stationsHeld) = w.total (·.stationsHeld) := by
    unfold total Window.advance
    simp only [Array.toList_map, List.map_map]
    rfl
  unfold Squares
  rw [same]
  rfl

omit [MemorySystem M] in
theorem Balanced.advance (h : w.Balanced) (span : Time) : (w.advance span).Balanced := by
  refine ⟨h.accounted.leads Account.Beat.steps (leads_advance span w) fun _ => unlinked_nil, h.share,
    fun intime => ?_⟩
  have before : w.clock.now ≠ .never := by
    intro never
    apply intime
    show w.clock.now + span = _
    rw [never, Time.never_add]
  have used := h.stations before
  have squares := squares_advance w span
  unfold Squares at squares
  omega

/-- Every cycle keeps the balance. -/
theorem Balanced.cycle {stride : Stride M} {running : Running} (h : w.Balanced)
    (ran : Window.cycle stride running w = .ok () v) : v.Balanced := by
  obtain ⟨x, span, moves, rfl⟩ := moves_cycle ran
  exact (h.moves moves).advance span

end Window

end CoreTiming
