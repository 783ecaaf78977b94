import CoreTiming.Proofs.Accounting
import Mathlib.Algebra.Group.Pi.Lemmas

/-!
# What the stages stamp

An entry is stamped with the time when it is dispatched and with the time when it issues, and what leaves is
stamped with the time when it commits.  A stage stamps nothing but the present time, and only so much of it: the
dispatch stage as many entries as a cycle may dispatch, all in one lane; the issue stage in each lane as many
as may issue; and the commit stage in each lane as many as may commit.

`Gains` says this of a list of stamps.
-/

namespace CoreTiming

open Faulting

/-! ## Section 1: Stamps -/

/-- Up to `n` more of the stamps `us` than of the stamps `ts` show `now`, and no more show any other time. -/
def Gains (now : Time) (n : Nat) (ts us : List Time) : Prop :=
  ∀ t, t ≠ .never → us.count t ≤ ts.count t + if t = now then n else 0

namespace Gains

variable {now : Time} {m n : Nat} {ts us vs : List Time}

theorem refl (ts : List Time) : Gains now n ts ts := fun _ _ => Nat.le_add_right _ _

theorem sublist (h : Gains now n ts us) (fewer : vs.Sublist us) : Gains now n ts vs :=
  fun t some => le_trans (fewer.count_le t) (h t some)

theorem trans (h : Gains now m ts us) (h' : Gains now n us vs) : Gains now (m + n) ts vs := by
  intro t some
  have first := h t some
  have second := h' t some
  split at first <;> simp_all <;> omega

/-- One stamp is replaced by `now`. -/
theorem set (ts : List Time) (k : Nat) : Gains now 1 ts (ts.set k now) := by
  intro t _
  by_cases inside : k < ts.length
  · rw [List.count_set inside]
    by_cases here : t = now
    · subst here
      simp only [beq_self_eq_true, if_true]
      omega
    · have other : (now == t) = false := by simpa using Ne.symm here
      simp only [other, here, Bool.false_eq_true, if_false]
      omega
  · rw [List.set_eq_of_length_le (by omega)]
    omega

/-- Stamps that show `now` come to the others. -/
theorem stamp (ts : List Time) (n : Nat) : Gains now n ts (ts ++ List.replicate n now) := by
  intro t _
  rw [List.count_append, List.count_replicate]
  by_cases here : t = now
  · subst here
    simp
  · have other : (now == t) = false := by simpa using Ne.symm here
    simp [other, here]

/-- What is not stamped yet does not count. -/
theorem blank (ts : List Time) (k : Nat) : Gains now 0 ts (ts ++ List.replicate k .never) := by
  intro t some
  rw [List.count_append, List.count_replicate]
  have other : (Time.never == t) = false := by simpa using Ne.symm some
  rw [other, if_neg Bool.false_ne_true]
  omega

/-- Stamps of what has left stay as they are. -/
theorem append_left (rs : List Time) (h : Gains now n ts us) : Gains now n (rs ++ ts) (rs ++ us) := by
  intro t some
  have more := h t some
  rw [List.count_append, List.count_append]
  omega

end Gains

namespace Window

variable {M : Type} {w v x : Window M} {i j n : Nat} {l l' : Lane M}

/-- The entries in the window of lane `i`. -/
def inFlight (w : Window M) (i : Nat) : List Entry :=
  match w.lanes[i]? with
  | some l => l.thread.window
  | none => []

theorem inFlight_of_found (found : w.lanes[i]? = some l) : w.inFlight i = l.thread.window := by
  unfold inFlight
  rw [found]

theorem inFlight_congr (same : v.lanes[i]? = w.lanes[i]?) : v.inFlight i = w.inFlight i := by
  unfold inFlight
  rw [same]

theorem inFlight_setLane (found : w.lanes[i]? = some l) (lanes : v.lanes = w.lanes.setIfInBounds i l') :
    v.inFlight i = l'.thread.window ∧ ∀ j, j ≠ i → v.inFlight j = w.inFlight j := by
  have inside := (Array.getElem?_eq_some_iff.mp found).1
  refine ⟨inFlight_of_found ?_, fun j other => inFlight_congr ?_⟩
  · rw [lanes, Array.getElem?_setIfInBounds_self_of_lt inside]
  · rw [lanes, Array.getElem?_setIfInBounds_ne (Ne.symm other)]

/-- The end of a cycle stamps nothing. -/
theorem inFlight_advance (w : Window M) (span : Time) (i : Nat) : (w.advance span).inFlight i = w.inFlight i := by
  unfold inFlight advance
  dsimp only
  rw [Array.getElem?_map]
  cases w.lanes[i]? with
  | none => rfl
  | some l => rfl

variable [MemorySystem M]

/-- A thread does something that concerns nothing in its window. -/
theorem inFlight_onThread {α : Type} {f : Faulting Thread α} {a : α} (ran : onThread i f w = .ok a v)
    (same : ∀ th th', f th = .ok a th' → th'.window = th.window) : v.inFlight = w.inFlight := by
  obtain ⟨l, th, found, did, rfl⟩ := onThread_eq_ok.mp ran
  obtain ⟨here, others⟩ := inFlight_setLane
    (v := { w with lanes := w.lanes.setIfInBounds i { l with thread := th } }) found rfl
  funext j
  by_cases this : j = i
  · subst this
    rw [here, inFlight_of_found found]
    exact same _ _ did
  · exact others j this

/-! ## Section 2: The dispatch stage -/

/-- Unless an entry takes a reservation station, nothing enters a window. -/
theorem Admit.inFlight_eq (admitted : Admit w v) (same : v.stationsUsed = w.stationsUsed) :
    v.inFlight = w.inFlight := by
  cases admitted with
  | begin ran | blame ran =>
    refine inFlight_onThread ran fun th th' did => ?_
    rw [← modify_eq_ok.mp did]
    rfl
  | block awake tried =>
    refine inFlight_onThread tried fun th th' did => ?_
    cases Thread.attempt_of_ok did with
    | empty => rfl
    | fetch | full | loads => exact Thread.window_fetchNext w.clock _ th
  | enter awake tried =>
    obtain ⟨l, th, -, -, rfl⟩ := onThread_eq_ok.mp tried
    dsimp only at same
    omega
  | turn => rfl

/-- In lane `i`, `n` entries have entered the window and been stamped; they have not issued. -/
structure Entered (i n : Nat) (w v : Window M) : Prop where
  /-- The windows of the other lanes are as they were. -/
  others : ∀ j, j ≠ i → v.inFlight j = w.inFlight j
  /-- They are stamped with the present time. -/
  dispatched : (v.inFlight i).map (·.dispatched) =
    (w.inFlight i).map (·.dispatched) ++ List.replicate n w.clock.now
  /-- They have not issued. -/
  issued : (v.inFlight i).map (·.issued) = (w.inFlight i).map (·.issued) ++ List.replicate n .never

theorem entered_dispatches (h : Dispatches i n w v) (reached : w.Reached) : w.Entered i n v := by
  induction h with
  | refl => exact ⟨fun _ _ => rfl, by simp, by simp⟩
  | @idle n w v x before admitted same ih =>
    obtain ⟨others, dispatched, issued⟩ := ih reached
    have still := admitted.inFlight_eq same
    exact ⟨still ▸ others, still ▸ dispatched, still ▸ issued⟩
  | @enter n w v x ready before spare awake tried ih =>
    obtain ⟨others, dispatched, issued⟩ := ih reached
    have worked : Worked Thread.Work w v := .of_moves Admit.worked before.admits
    have reached' := reached.worked worked
    obtain ⟨l, th, found, did, rfl⟩ := onThread_eq_ok.mp tried
    obtain ⟨here, beside⟩ := inFlight_setLane
      (v := { v with lanes := v.lanes.setIfInBounds i { l with thread := th } }) found rfl
    have after : ∀ j, Window.inFlight { v with
        lanes := v.lanes.setIfInBounds i { l with thread := th }, stationsUsed := v.stationsUsed + 1 } j =
        Window.inFlight { v with lanes := v.lanes.setIfInBounds i { l with thread := th } } j := fun _ => rfl
    cases Thread.attempt_of_ok did with
    | @enter e e' th₁ next hit station linked =>
      have fresh := (reached' i l found).fresh next (Nat.le_refl _)
      obtain ⟨es, listed, window⟩ := Thread.exists_window_enter next hit linked
        { e' with dispatched := v.clock.now, ready := max e'.ready v.clock.next }
      rw [inFlight_of_found found] at dispatched issued
      refine ⟨fun j other => (beside j other).trans (others j other), ?_, ?_⟩
      · rw [after, here, window, List.map_append, listed.map_eq fun x y same => by rw [same.frame], dispatched,
          List.append_assoc, List.replicate_succ', worked.clock]
        rfl
      · have never : e'.issued = .never := by
          rw [(Thread.linked_link linked).entry]
          exact fresh.issued
        rw [after, here, window, List.map_append, listed.map_eq fun x y same => by rw [same.frame], issued,
          List.append_assoc, List.replicate_succ', ← never]
        rfl

/-! ## Section 3: The issue stage -/

/-- Nothing has entered or left a window, and in lane `j`, up to `m j` entries have issued. -/
structure Issued (m : Nat → Nat) (w v : Window M) : Prop where
  /-- The time is the same. -/
  clock : v.clock = w.clock
  /-- No entry has been dispatched. -/
  dispatched : ∀ j, (v.inFlight j).map (·.dispatched) = (w.inFlight j).map (·.dispatched)
  /-- Those that have issued are stamped with the present time. -/
  issued : ∀ j, Gains w.clock.now (m j) ((w.inFlight j).map (·.issued)) ((v.inFlight j).map (·.issued))

omit [MemorySystem M] in
theorem Issued.of_same (clock : v.clock = w.clock) (same : v.inFlight = w.inFlight) : w.Issued 0 v := by
  refine ⟨clock, fun j => ?_, fun j => ?_⟩
  · rw [same]
  · rw [same]
    exact .refl _

omit [MemorySystem M] in
theorem Issued.trans {m m' : Nat → Nat} (h : w.Issued m v) (h' : v.Issued m' x) : w.Issued (m + m') x := by
  refine ⟨h'.clock.trans h.clock, fun j => (h'.dispatched j).trans (h.dispatched j), fun j => ?_⟩
  have second := h'.issued j
  rw [h.clock] at second
  exact (h.issued j).trans second

theorem issued_note (noted : Note w v) : w.Issued 0 v := by
  refine .of_same noted.firings.clock ?_
  cases noted with
  | @account _ i n cutoff counted =>
    refine inFlight_onThread counted fun th th' ran => ?_
    rw [← modify_eq_ok.mp ran]
    have same := Thread.sameFlow_accountLongLoad cutoff w.clock.now n th
    unfold Thread.window
    rw [same.ring, same.inWindow]
  | look noted =>
    refine inFlight_onThread noted fun th th' ran => ?_
    rw [← modify_eq_ok.mp ran]
    rfl
  | turn n => rfl

/-- An entry that issues is stamped, and nothing else is. -/
theorem issued_issueEntry {e : Entry} {done : Time} (found : w.lanes[i]? = some l)
    (entry : l.thread.ring.get? n = some e) (h : issueEntry i n w = .ok done v) :
    w.Issued (Pi.single i 1) v := by
  obtain ⟨th, e₁, l₁, asked, started, -, rfl⟩ := issueEntry_eq_ok found entry h
  obtain ⟨frame, -, woken, -, -⟩ := Thread.start_eq_ok started
  obtain ⟨frame₁, ring⟩ := asked.issuedAt w.clock.now (e₁.doneFrom w.clock)
  obtain ⟨here, others⟩ := inFlight_setLane
    (v := { accept e₁.u.op (w.clock.period.cycles e₁.u.latency) w with
      lanes := w.lanes.setIfInBounds i l₁ }) found rfl
  -- the window with the stamp of the entry, in which the consumers have been woken
  have span : l₁.thread.inWindow = l.thread.inWindow := by rw [frame, frame₁]
  have window : Pointwise (Entry.Woken e₁.seq (e₁.doneFrom w.clock))
      (l.thread.window.set n { e₁ with issued := w.clock.now, done := e₁.doneFrom w.clock })
      l₁.thread.window := by
    unfold Thread.window
    rw [span, ← List.take_set, ← ring]
    exact woken.take _
  rw [← Ring.getElem?_toList] at entry
  have dispatched : (l.thread.window.map (·.dispatched)).set n e₁.dispatched =
      l.thread.window.map (·.dispatched) := by
    have same : e₁.dispatched = e.dispatched := by
      rcases asked with ⟨-, rfl⟩ | ⟨_, _, _, -, rfl, -⟩
      · rfl
      · rfl
    by_cases inside : n < (l.thread.window.map (·.dispatched)).length
    · have at_n : (l.thread.window.map (·.dispatched))[n] = e₁.dispatched := by
        rw [List.getElem_map, same, ← (List.getElem?_eq_some_iff.mp entry).2]
        unfold Thread.window
        rw [List.getElem_take]
      rw [← at_n, List.set_getElem_self]
    · rw [List.set_eq_of_length_le (by omega)]
  refine ⟨rfl, fun j => ?_, fun j => ?_⟩
  · by_cases this : j = i
    · subst this
      rw [here, inFlight_of_found found, window.map_eq fun x y told => by rw [told.frame], List.map_set]
      exact dispatched
    · rw [others j this]
  · by_cases this : j = i
    · subst this
      rw [here, inFlight_of_found found, window.map_eq fun x y told => by rw [told.frame], List.map_set,
        Pi.single_eq_same]
      exact .set _ n
    · rw [others j this]
      exact .refl _

omit [MemorySystem M] in
theorem issued_none (w : Window M) (i : Nat) : w.Issued (Pi.single i 0) w := by
  rw [Pi.single_zero]
  exact .of_same rfl rfl

/-- A pass over the window of a thread stops behind the last entry that may issue. -/
theorem issued_issueFrom {k : Nat} {pass pass' : IssuePass} (found : w.lanes[i]? = some l)
    (inside : k + n ≤ l.thread.inWindow) (room : pass.issued < max w.config.core.dispatchWidth 1)
    (h : issueFrom i n k pass w = .ok pass' v) :
    ∃ m, pass'.issued = pass.issued + m ∧ pass'.issued ≤ max w.config.core.dispatchWidth 1 ∧
      (w.inFlight i = [] → m = 0) ∧ w.Issued (Pi.single i m) v := by
  induction n generalizing k pass w l with
  | zero =>
    obtain ⟨rfl, rfl⟩ := pure_eq_ok.mp h
    exact ⟨0, rfl, room.le, fun _ => rfl, issued_none w i⟩
  | succ n ih =>
    cases looks_of_issueFrom found h with
    | nothing _ ends same =>
      rw [ends, same]
      exact ⟨0, rfl, room.le, fun _ => rfl, issued_none w i⟩
    | @done e entry done rest =>
      have goesOn := ih found (by omega) (show (pass.noting e.done).issued < _ from room) rest
      exact goesOn
    | stop _ _ _ ends same =>
      rw [ends, same]
      exact ⟨0, rfl, room.le, fun _ => rfl, issued_none w i⟩
    | @issue e done w₁ w₂ entry waiting verdict issued noted rest last =>
      have some : w.inFlight i ≠ [] := by
        intro none
        have at_k : l.thread.window[k]? = .some e := by
          unfold Thread.window
          rw [List.getElem?_take_of_lt (by omega), Ring.getElem?_toList]
          exact entry
        rw [← inFlight_of_found found, none] at at_k
        cases at_k
      obtain ⟨l₁, found₁, span₁⟩ := inWindow_issueEntry found entry issued
      have fired : Worked Thread.Firing w w₁ :=
        (Fire.issue found (by omega) entry waiting verdict issued).firings
      have note : Note w₁ w₂ := .account (fired.clock ▸ noted)
      have first : w.Issued (Pi.single i 1) w₂ := (issued_issueEntry found entry issued).trans (issued_note note)
      by_cases full : w.config.core.dispatchWidth ≤ pass.issued + 1
      · obtain ⟨more, rfl⟩ := last full
        exact ⟨1, more, by omega, fun none => absurd none some, first⟩
      · rcases rest with ⟨rfl, rfl⟩ | rest
        · exact ⟨1, rfl, by dsimp only; omega, fun none => absurd none some, first⟩
        · obtain ⟨l₂, found₂, rfl⟩ := modifyThread_eq_ok.mp noted
          obtain rfl : l₁ = l₂ := Option.some.inj (found₁.symm.trans found₂)
          have at_i : i < w₁.lanes.size := (Array.getElem?_eq_some_iff.mp found₁).1
          obtain ⟨m, more, le, -, onwards⟩ := ih (Array.getElem?_setIfInBounds_self_of_lt at_i) (by
              rw [(Thread.sameFlow_accountLongLoad _ _ _ _).inWindow]
              omega) (by
              show pass.issued + 1 < max w₁.config.core.dispatchWidth 1
              rw [fired.config]
              omega) rest
          refine ⟨1 + m, ?_, ?_, fun none => absurd none some, ?_⟩
          · dsimp only at more
            omega
          · have le : pass'.issued ≤ max w₁.config.core.dispatchWidth 1 := le
            rwa [fired.config] at le
          · rw [Pi.single_add]
            exact first.trans onwards
    | @wait e _ _ _ _ rest =>
      rcases rest with ⟨rfl, rfl⟩ | rest
      · exact ⟨0, rfl, room.le, fun _ => rfl, issued_none _ i⟩
      · have goesOn := ih found (by omega)
          (show ((pass.noting e.ready).hold w.clock.now e _).issued < _ from room) rest
        exact goesOn

theorem issued_issueLane {event : Time} {result : Bool × Time} (h : issueLane i event w = .ok result v) :
    ∃ m ≤ max w.config.core.dispatchWidth 1, (w.inFlight i = [] → m = 0) ∧ (0 < m → result.1 = true) ∧
      w.Issued (Pi.single i m) v := by
  obtain ⟨l, found, turn⟩ := issueTurn_of_issueLane h
  cases turn with
  | asleep _ _ same | empty _ _ same =>
    rw [same]
    exact ⟨0, Nat.zero_le _, fun _ => rfl, fun some => absurd some (Nat.lt_irrefl 0), issued_none w i⟩
  | look _ some looked noted ends =>
    obtain ⟨m, more, le, some, moves⟩ := issued_issueFrom found (by omega) (by dsimp only; omega) looked
    refine ⟨m, by dsimp only at more; omega, some, fun some => ?_, ?_⟩
    · rw [ends, decide_eq_true_iff]
      dsimp only at more
      omega
    · exact moves.trans (issued_note (.look noted))

/-- The issue stage may let `m j` entries issue in lane `j`. -/
structure Allows (w : Window M) (m : Nat → Nat) : Prop where
  /-- No more issue in a lane than are dispatched in a cycle; one may in any case. -/
  width : ∀ j, m j ≤ max w.config.core.dispatchWidth 1
  /-- Nothing issues in a lane whose window is empty. -/
  empty : ∀ j, w.inFlight j = [] → m j = 0
  /-- Entries of several lanes only issue in one cycle if that is wanted. -/
  alone : w.config.window.simultaneousIssue = false → ∃ i, ∀ j, j ≠ i → m j = 0

omit [MemorySystem M] in
/-- The entries of one lane only. -/
theorem Allows.single {n : Nat} (le : n ≤ max w.config.core.dispatchWidth 1) (empty : w.inFlight i = [] → n = 0) :
    w.Allows (Pi.single i n) := by
  have others : ∀ j, j ≠ i → (Pi.single i n : Nat → Nat) j = 0 := by
    intro j other
    rw [Pi.single_eq_of_ne other]
  refine ⟨fun j => ?_, fun j none => ?_, fun _ => ⟨i, others⟩⟩
  · by_cases this : j = i
    · rwa [this, Pi.single_eq_same]
    · rw [others j this]
      exact Nat.zero_le _
  · by_cases this : j = i
    · rw [this, Pi.single_eq_same]
      exact empty (this ▸ none)
    · exact others j this

omit [MemorySystem M] in
/-- The entries of one lane, and then those of others.  If only one lane has its turn in a cycle, there are none of
others once that lane has let any issue. -/
theorem Allows.add {n : Nat} {m : Nat → Nat} (one : w.Allows (Pi.single i n)) (first : w.Issued (Pi.single i n) v)
    (rest : v.Allows m) (config : v.config = w.config) (absent : m i = 0)
    (more : 0 < n → v.config.window.simultaneousIssue = true) : w.Allows (Pi.single i n + m) := by
  have others : ∀ j, j ≠ i → (Pi.single i n + m : Nat → Nat) j = m j := by
    intro j other
    rw [Pi.add_apply, Pi.single_eq_of_ne other, Nat.zero_add]
  have here : (Pi.single i n + m : Nat → Nat) i = (Pi.single i n : Nat → Nat) i := by
    rw [Pi.add_apply, absent, Nat.add_zero]
  refine ⟨fun j => ?_, fun j none => ?_, fun alone => ?_⟩
  · by_cases this : j = i
    · rw [this, here]
      exact one.width i
    · rw [others j this, ← config]
      exact rest.width j
  · by_cases this : j = i
    · rw [this, here]
      exact one.empty i (this ▸ none)
    · rw [others j this]
      refine rest.empty j ?_
      have same := first.dispatched j
      rw [none] at same
      exact List.map_eq_nil_iff.mp same
  · rw [← config] at alone
    rcases Nat.eq_zero_or_pos n with rfl | pos
    · rw [Pi.single_zero, zero_add]
      exact rest.alone alone
    · rw [more pos] at alone
      cases alone

theorem issued_issueLanes {lanes : List Nat} {event : Time} {result : Option Nat × Time} (once : lanes.Nodup)
    (h : issueLanes lanes event w = .ok result v) :
    ∃ m, w.Allows m ∧ (∀ j, j ∉ lanes → m j = 0) ∧ w.Issued m v := by
  induction lanes generalizing event w with
  | nil =>
    obtain ⟨-, rfl⟩ := pure_eq_ok.mp h
    exact ⟨0, ⟨fun _ => Nat.zero_le _, fun _ _ => rfl, fun _ => ⟨0, fun _ _ => rfl⟩⟩, fun _ _ => rfl, .of_same rfl rfl⟩
  | cons i rest ih =>
    obtain ⟨any, event', w₁, turn, goesOn⟩ := issueLanes_cons_eq_ok h
    obtain ⟨absent, once⟩ := List.nodup_cons.mp once
    obtain ⟨n, le, empty, some, first⟩ := issued_issueLane turn
    have one : w.Allows (Pi.single i n) := .single le empty
    rcases goesOn with ⟨-, -, rfl⟩ | ⟨more, onwards⟩
    · refine ⟨Pi.single i n, one, fun j out => ?_, first⟩
      rw [List.mem_cons, not_or] at out
      rw [Pi.single_eq_of_ne out.1]
    · obtain ⟨m, allowed, outside, moves⟩ := ih once onwards
      have config : w₁.config = w.config := (Worked.of_moves Fire.firings (fires_issueLane turn)).config
      refine ⟨Pi.single i n + m, one.add first allowed config (outside i absent) fun pos => more (some pos),
        fun j out => ?_, first.trans moves⟩
      rw [List.mem_cons, not_or] at out
      rw [Pi.add_apply, Pi.single_eq_of_ne out.1, outside j out.2]

theorem issued_issue {event : Time} (h : issue w = .ok event v) : ∃ m, w.Allows m ∧ w.Issued m v := by
  obtain ⟨last, x, turns, rfl⟩ := issue_eq_ok h
  obtain ⟨m, allowed, -, moves⟩ := issued_issueLanes (nodup_rotation _ _) turns
  exact ⟨m, allowed, moves.trans (issued_note (.turn _))⟩

/-- Before the commit stage of a cycle, `k j` entries have been dispatched in lane `j`, and up to `m j` entries have
issued. -/
structure Stamped (k m : Nat → Nat) (w v : Window M) : Prop where
  /-- The parameters stay. -/
  config : v.config = w.config
  /-- The time is the same. -/
  clock : v.clock = w.clock
  /-- No more are dispatched than may. -/
  width : ∀ j, k j ≤ w.config.core.dispatchWidth
  /-- All of them are dispatched in one lane. -/
  alone : ∃ i, ∀ j, j ≠ i → k j = 0
  /-- No more issue than may. -/
  allowed : v.Allows m
  /-- Those that have been dispatched are stamped with the present time. -/
  dispatched : ∀ j, (v.inFlight j).map (·.dispatched) =
    (w.inFlight j).map (·.dispatched) ++ List.replicate (k j) w.clock.now
  /-- Those that have issued are stamped with the present time. -/
  issued : ∀ j, Gains w.clock.now (m j) ((w.inFlight j).map (·.issued)) ((v.inFlight j).map (·.issued))

theorem stamped_of_stages {running : Running} {dispatchEvent issueEvent : Time} (reached : w.Reached)
    (dispatched : dispatch running w = .ok dispatchEvent v) (issued : issue v = .ok issueEvent x) :
    ∃ k m, w.Stamped k m x := by
  -- one lane dispatches `n` micro-ops, and the issue stage stamps `m j` entries of each lane `j`
  obtain ⟨i, n, le, path⟩ := dispatches_dispatch dispatched
  have enters := entered_dispatches path reached
  obtain ⟨m, allowed, starts⟩ := issued_issue issued
  have entered := worked_dispatch dispatched
  have fired := worked_issue issued
  have others : ∀ j, j ≠ i → (Pi.single i n : Nat → Nat) j = 0 := by
    intro j other
    rw [Pi.single_eq_of_ne other]
  refine ⟨Pi.single i n, m, fired.config.trans entered.config, fired.clock.trans entered.clock, fun j => ?_,
    ⟨i, others⟩, ⟨?_, fun j none => ?_, ?_⟩, fun j => ?_, fun j => ?_⟩
  · by_cases this : j = i
    · rwa [this, Pi.single_eq_same]
    · rw [others j this]
      exact Nat.zero_le _
  · rw [fired.config]
    exact allowed.width
  · refine allowed.empty j ?_
    have same := starts.dispatched j
    rw [none] at same
    exact List.map_eq_nil_iff.mp same.symm
  · rw [fired.config]
    exact allowed.alone
  · rw [starts.dispatched]
    by_cases this : j = i
    · rw [this, Pi.single_eq_same]
      exact enters.dispatched
    · rw [others j this, enters.others j this, List.replicate_zero, List.append_nil]
  · -- what has entered is blank when the issue stage begins
    have stamps := starts.issued j
    rw [entered.clock] at stamps
    by_cases this : j = i
    · rw [this, enters.issued] at stamps
      have all := (Gains.blank ((w.inFlight i).map (·.issued)) n).trans stamps
      rw [this]
      rwa [Nat.zero_add] at all
    · rwa [enters.others j this] at stamps

/-! ## Section 4: The commit stage -/

/-- What leaves was the beginning of the window; the rest is still there, unless the window starts over. -/
theorem leave_isPrefix {config : Config} {a b : Account} (h : Account.Leave config a b) :
    b.retired.map (·.entry) ++ b.thread.window <+: a.retired.map (·.entry) ++ a.thread.window := by
  cases h with
  | @retire e oldest done stays =>
    rw [a.thread.oldest?_eq] at oldest
    obtain ⟨rest, window⟩ := List.head?_eq_some_iff.mp oldest
    show (a.retired ++ [_]).map _ ++ (a.thread.retire _ _ e).window <+: _
    rw [Thread.window_retire, window, List.map_append, List.append_assoc]
    exact List.prefix_refl _
  | @flush e th oldest done flushes flushed =>
    rw [a.thread.oldest?_eq] at oldest
    obtain ⟨rest, window⟩ := List.head?_eq_some_iff.mp oldest
    have empty : th.window = [] := by
      unfold Thread.window
      rw [(Thread.flush_eq_ok flushed).2.2.2]
      rfl
    show (a.retired ++ [_]).map _ ++ th.window <+: _
    rw [empty, window, List.map_append, List.append_nil]
    refine (List.prefix_append_right_inj _).mpr ?_
    exact List.prefix_append [e] rest

omit [MemorySystem M] in
theorem leaves_isPrefix {rs : Nat → List Retirement} (h : Leads Account.Leave noPushes rs w v) (j : Nat) :
    (rs j).map (·.entry) ++ v.inFlight j <+: w.inFlight j := by
  have related := h.lanes j
  cases found : w.lanes[j]? with
  | none =>
    rw [(h.absent j found).2, inFlight_congr ((h.lanes_none found).trans found.symm)]
    exact List.prefix_refl _
  | some l =>
    obtain ⟨l', found', leads⟩ := rel_left related found
    rw [inFlight_of_found found, inFlight_of_found found']
    refine leads.keeps (P := fun a => a.retired.map (·.entry) ++ a.thread.window <+: l.thread.window)
      (fun left before => (leave_isPrefix left).trans before) [] [] ?_
    exact List.prefix_refl _

omit [MemorySystem M] in
/-- In a commit stage, no more entries leave a lane than may, and they are stamped with the present time. -/
theorem leaving_times (w : Window M) (i : Nat) :
    ∃ n ≤ w.config.window.commitWidth, (w.leaving i).map (·.time) = List.replicate n w.clock.now := by
  unfold leaving
  cases w.lanes[i]? with
  | none => exact ⟨0, Nat.zero_le _, rfl⟩
  | some l =>
    refine ⟨_, Thread.length_leavingAmong_le w.clock.now _ l.thread.window, ?_⟩
    rw [List.eq_replicate_iff]
    refine ⟨List.length_map _, fun t mem => ?_⟩
    obtain ⟨r, left, rfl⟩ := List.mem_map.mp mem
    exact Thread.time_of_mem_leavingAmong left

end Window

end CoreTiming
