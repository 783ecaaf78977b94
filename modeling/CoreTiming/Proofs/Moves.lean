import CoreTiming.Proofs.Linking
import CoreTiming.Proofs.Steps
import CoreTiming.Proofs.Turns
import Mathlib.Data.List.Nodup
import Mathlib.Data.Nat.ModEq

/-!
# What a cycle is made of

A cycle is a long program, but few of its operations change anything.  This module names them:
`Window.Admit` is what the dispatch stage does, `Window.Fire` is what the issue stage does, and
`Window.Move` adds what the commit stage does.  A stage that goes through is a series of such moves, so
what each move preserves, every cycle preserves up to the step of the clock at its end.

The moves are the operations of the program themselves, together with what the program has checked
before it makes them.
-/

namespace CoreTiming

open Faulting

/-! ## Section 1: Attempts to dispatch -/

namespace Thread

variable {clock : Clock} {th th' : Thread} {e : Entry} {forwarding free : Bool} {d : Dispatched}

/-- Either the instruction of the next entry is there, or to fetch it ends or begins. -/
theorem fetchNext_cases (clock : Clock) (e : Entry) (th : Thread) :
    (e.u.fetchHit = .l1i ∧ fetchNext clock e th = (true, th)) ∨
      (e.u.fetchHit ≠ .l1i ∧ th.fetching = true ∧
        fetchNext clock e th = (true, { th.setEntry th.inWindow e.fetched with fetching := false })) ∨
      (e.u.fetchHit ≠ .l1i ∧ th.fetching = false ∧
        fetchNext clock e th = (false, { th with
          stalledUntil := clock.afterCycles e.u.fetchLatency
          fetching := true
          stall := some (.instructionCache e.u.fetchHit) })) := by
  unfold fetchNext
  split
  · rename_i hit
    exact .inl ⟨hit, rfl⟩
  · rename_i miss
    cases fetching : th.fetching with
    | true => exact .inr (.inl ⟨miss, rfl, rfl⟩)
    | false => exact .inr (.inr ⟨miss, rfl, rfl⟩)

/-- To fetch the instruction of the next entry changes that entry and the front end only. -/
theorem fetchNext_frame (clock : Clock) (e : Entry) (th : Thread) :
    (fetchNext clock e th).2 =
      { th with
        ring := (fetchNext clock e th).2.ring
        fetching := (fetchNext clock e th).2.fetching
        stalledUntil := (fetchNext clock e th).2.stalledUntil
        stall := (fetchNext clock e th).2.stall } := by
  rcases fetchNext_cases clock e th with ⟨-, eq⟩ | ⟨-, -, eq⟩ | ⟨-, -, eq⟩
  · rw [eq]
  · rw [eq]
    rfl
  · rw [eq]

/-- A front end that has the instruction is up if it was. -/
theorem stalledUntil_fetchNext (fetched : (fetchNext clock e th).1 = true) :
    (fetchNext clock e th).2.stalledUntil = th.stalledUntil := by
  rcases fetchNext_cases clock e th with ⟨-, eq⟩ | ⟨-, -, eq⟩ | ⟨-, -, eq⟩
  · rw [eq]
  · rw [eq]
    rfl
  · rw [eq] at fetched
    cases fetched

/-- How an attempt to dispatch goes. -/
inductive Attempt (forwarding : Bool) (clock : Clock) (free : Bool) (th : Thread) :
    Dispatched → Thread → Prop
  /-- Nothing is buffered. -/
  | empty (nothing : th.ring.get? th.inWindow = none) : Attempt forwarding clock free th (.blocked .never) th
  /-- The instruction of the next entry has to be fetched first. -/
  | fetch {e : Entry} (next : th.ring.get? th.inWindow = some e)
      (missing : (fetchNext clock e th).1 = false) :
      Attempt forwarding clock free th (.blocked .never) (fetchNext clock e th).2
  /-- No reservation station is free. -/
  | full {e : Entry} (next : th.ring.get? th.inWindow = some e)
      (fetched : (fetchNext clock e th).1 = true) (full : free = false) :
      Attempt forwarding clock free th (.blocked .never)
        { (fetchNext clock e th).2 with stall := some .stationsFull }
  /-- Too many long loads are in flight. -/
  | loads {e : Entry} {load : LongLoad} (next : th.ring.get? th.inWindow = some e)
      (fetched : (fetchNext clock e th).1 = true)
      (blocking : (fetchNext clock e th).2.blockingLoad? = some load) :
      Attempt forwarding clock free th (.blocked load.done)
        { (fetchNext clock e th).2 with stall := some (.dataCache load.hit) }
  /-- The next entry enters the window. -/
  | enter {e e' : Entry} {th' : Thread} (next : th.ring.get? th.inWindow = some e)
      (fetched : (fetchNext clock e th).1 = true) (station : free = true)
      (linked : link forwarding e.fetched (fetchNext clock e th).2 = .ok e' th') :
      Attempt forwarding clock free th (.entered (max e'.ready clock.next))
        (th'.enter { e' with dispatched := clock.now, ready := max e'.ready clock.next })

theorem attempt_of_ok (h : dispatchOne forwarding clock free th = .ok d th') :
    Attempt forwarding clock free th d th' := by
  unfold dispatchOne at h
  rw [get_bind] at h
  cases next : th.ring.get? th.inWindow with
  | none =>
    simp only [next, pure_eq_ok] at h
    obtain ⟨rfl, rfl⟩ := h
    exact .empty next
  | some e =>
    simp only [next, modifyGet_bind] at h
    cases fetched : (fetchNext clock e th).1 with
    | false =>
      simp only [fetched, Bool.not_false, if_true, pure_eq_ok] at h
      obtain ⟨rfl, rfl⟩ := h
      exact .fetch next fetched
    | true =>
      simp only [fetched, Bool.not_true, Bool.false_eq_true, if_false] at h
      cases free with
      | false =>
        simp only [Bool.not_false, if_true, modify_bind, pure_eq_ok] at h
        obtain ⟨rfl, rfl⟩ := h
        exact .full next fetched rfl
      | true =>
        simp only [Bool.not_true, Bool.false_eq_true, if_false, get_bind] at h
        cases blocking : (fetchNext clock e th).2.blockingLoad? with
        | some load =>
          simp only [blocking, modify_bind, pure_eq_ok] at h
          obtain ⟨rfl, rfl⟩ := h
          exact .loads next fetched blocking
        | none =>
          simp only [blocking, bind_eq_ok, modify_bind, pure_eq_ok] at h
          obtain ⟨e', th₂, linked, rfl, rfl⟩ := h
          exact .enter next fetched rfl linked

/-- A front end that is up when an entry enters the window stays up. -/
theorem Attempt.stalledUntil_eq {ready : Time} (h : Attempt forwarding clock free th (.entered ready) th') :
    th'.stalledUntil = th.stalledUntil := by
  cases h with
  | @enter e e' th₁ next fetched station linked =>
    show th₁.stalledUntil = th.stalledUntil
    rw [(linked_link linked).thread]
    exact stalledUntil_fetchNext fetched

end Thread

/-! ## Section 2: Entries that issue -/

/-- In the thread `th`, memory has been asked about entry `i`, which was `e` and now is `e'`. -/
def Thread.Asked (th : Thread) (i : Nat) (e : Entry) (th' : Thread) (e' : Entry) : Prop :=
  (th' = th ∧ e' = e) ∨ ∃ hit cycles u, e.u.resolveData hit cycles = .ok u ∧ e' = { e with u } ∧
    th' = th.setEntry i e'

namespace Thread.Asked

variable {config : Config} {clock : Clock} {th th' : Thread} {i : Nat} {e e' : Entry}

/-- Asking memory moves no entry. -/
theorem same (h : th.Asked i e th' e') :
    e'.isDone = e.isDone ∧ e'.ready = e.ready ∧ th'.inWindow = th.inWindow := by
  rcases h with ⟨rfl, rfl⟩ | ⟨_, _, u, -, rfl, rfl⟩
  · exact ⟨rfl, rfl, rfl⟩
  · exact ⟨rfl, rfl, rfl⟩

theorem entry (h : th.Asked i e th' e') (entry : th.ring.get? i = some e) :
    th'.ring.get? i = some e' := by
  rcases h with ⟨rfl, rfl⟩ | ⟨_, _, u, -, rfl, rfl⟩
  · exact entry
  · rw [← Ring.getElem?_toList] at entry
    rw [← Ring.getElem?_toList, Thread.toList_setEntry]
    exact List.getElem?_set_self (List.getElem?_eq_some_iff.mp entry).1

theorem works (h : th.Asked i e th' e') (inside : i < th.inWindow) (entry : th.ring.get? i = some e)
    (waiting : e.isDone = false) : Works config clock th th' := by
  rcases h with ⟨rfl, rfl⟩ | ⟨_, _, u, resolved, rfl, rfl⟩
  · exact .refl
  · exact .single (.resolve inside entry waiting resolved)

end Thread.Asked

/-- Memory is consulted about entry `i` of the lane, which is `e` before and `e'` then: it is asked once if the
access of the micro-op is still to be resolved, and not at all otherwise. -/
inductive Lane.Consults {M : Type} [MemorySystem M] (period : Period) (i : Nat) (e : Entry) (lane : Lane M) :
    (e' : Entry) → (lane' : Lane M) → Prop
  /-- There is nothing to ask. -/
  | known (resolved : e.u.needsMemory = false) : Consults period i e lane e lane
  /-- Memory is asked, and the micro-op takes as many cycles longer as the answer comes to. -/
  | ask {served : Served} {memory : M} {cycles : Nat} {u : OpInstance} (needs : e.u.needsMemory = true)
      (answered : MemorySystem.access e.u.access lane.memory = .ok served memory)
      (rounded : served.latency.divideRounded period.length = .ok cycles)
      (taken : e.u.resolveData served.hit cycles = .ok u) :
      Consults period i e lane { e with u } { thread := lane.thread.setEntry i { e with u }, memory }

/-- Memory is consulted about an entry before it issues. -/
theorem Lane.consults_of_resolve {M : Type} [MemorySystem M] {period : Period} {i : Nat} {e : Entry}
    {lane lane' : Lane M} (entry : lane.thread.ring.get? i = some e)
    (h : Lane.resolve period i lane = .ok () lane') : ∃ e', Consults period i e lane e' lane' := by
  unfold Lane.resolve at h
  simp only [get_bind, entry] at h
  split at h
  · rename_i needs
    simp only [bind_eq_ok, zoom_eq_ok, ofExcept_eq_ok, modify_eq_ok] at h
    obtain ⟨served, _, ⟨memory, answered, rfl⟩, cycles, _, ⟨rounded, rfl⟩, u, _, ⟨taken, rfl⟩, rfl⟩ := h
    exact ⟨_, .ask needs answered rounded taken⟩
  · rename_i resolved
    obtain ⟨-, rfl⟩ := pure_eq_ok.mp h
    exact ⟨e, .known (Bool.not_eq_true _ ▸ resolved)⟩

/-- Consulting memory changes the entry it is about, and only as far as its access goes. -/
theorem Lane.Consults.asked {M : Type} [MemorySystem M] {period : Period} {i : Nat} {e e' : Entry}
    {lane lane' : Lane M} (h : Consults period i e lane e' lane') : lane.thread.Asked i e lane'.thread e' := by
  cases h with
  | known => exact .inl ⟨rfl, rfl⟩
  | @ask served _ cycles u _ _ _ taken => exact .inr ⟨served.hit, cycles, u, taken, rfl, rfl⟩

/-- Asking memory changes the entry that asks, and only as far as its access goes. -/
theorem Lane.resolve_eq_ok {M : Type} [MemorySystem M] {period : Period} {i : Nat} {e : Entry}
    {lane lane' : Lane M} (entry : lane.thread.ring.get? i = some e)
    (h : Lane.resolve period i lane = .ok () lane') :
    ∃ e', lane.thread.Asked i e lane'.thread e' :=
  (Lane.consults_of_resolve entry h).imp fun _ => Lane.Consults.asked

theorem Thread.sameFlow_accountLongLoad (cutoff : Nat) (now : Time) (i : Nat) (th : Thread) :
    th.SameFlow (th.accountLongLoad cutoff now i) := by
  unfold Thread.accountLongLoad
  split
  · exact .refl _
  · split
    · exact ⟨rfl, rfl, rfl, rfl, rfl, rfl, rfl⟩
    · exact .refl _

namespace Window

variable {M : Type} [MemorySystem M] {w v x : Window M}

/-- Memory is consulted about an entry that issues; then it starts. -/
theorem consults_of_issueEntry {i n : Nat} {lane : Lane M} {e : Entry} {done : Time}
    (found : w.lanes[i]? = some lane) (entry : lane.thread.ring.get? n = some e)
    (h : issueEntry i n w = .ok done v) :
    ∃ (lane₁ : Lane M) (e' : Entry) (th : Thread), Lane.Consults w.clock.period n e lane e' lane₁ ∧
      Thread.start n e' w.clock.now (e'.doneFrom w.clock) (w.clock.period.cycles e'.u.latency) lane₁.thread =
        .ok () th ∧
      done = e'.doneFrom w.clock ∧
      v = { accept e'.u.op (w.clock.period.cycles e'.u.latency) w with
        lanes := w.lanes.setIfInBounds i { lane₁ with thread := th } } := by
  have at_i : i < w.lanes.size := (Array.getElem?_eq_some_iff.mp found).1
  unfold issueEntry at h
  rw [get_bind] at h
  obtain ⟨⟨⟩, w₁, asked, h⟩ := bind_eq_ok.mp h
  obtain ⟨lane₀, lane₁, found₀, resolved, rfl⟩ := onLane_eq_ok.mp asked
  obtain rfl : lane = lane₀ := by
    rw [found] at found₀
    exact Option.some.inj found₀
  obtain ⟨e', consults⟩ := Lane.consults_of_resolve entry resolved
  have found₁ : (w.lanes.setIfInBounds i lane₁)[i]? = some lane₁ := by
    simp [at_i]
  rw [get_bind] at h
  rw [thread_bind_of_found found₁] at h
  simp only [consults.asked.entry entry, modify_bind] at h
  obtain ⟨⟨⟩, w₂, started, h⟩ := bind_eq_ok.mp h
  obtain ⟨result, rfl⟩ := pure_eq_ok.mp h
  obtain ⟨lane₂, th, found₂, ran, rfl⟩ := onThread_eq_ok.mp started
  obtain rfl : lane₁ = lane₂ := Option.some.inj (found₁.symm.trans found₂)
  refine ⟨lane₁, e', th, consults, ran, result.symm, ?_⟩
  simp [accept]

/-- An entry that issues is asked about in memory first; then it starts. -/
theorem issueEntry_eq_ok {i n : Nat} {lane : Lane M} {e : Entry} {done : Time}
    (found : w.lanes[i]? = some lane) (entry : lane.thread.ring.get? n = some e)
    (h : issueEntry i n w = .ok done v) :
    ∃ (th : Thread) (e' : Entry) (lane' : Lane M), lane.thread.Asked n e th e' ∧
      Thread.start n e' w.clock.now (e'.doneFrom w.clock) (w.clock.period.cycles e'.u.latency) th =
        .ok () lane'.thread ∧
      done = e'.doneFrom w.clock ∧
      v = { accept e'.u.op (w.clock.period.cycles e'.u.latency) w with
        lanes := w.lanes.setIfInBounds i lane' } := by
  obtain ⟨lane₁, e', th, consults, started, result, rfl⟩ := consults_of_issueEntry found entry h
  exact ⟨lane₁.thread, e', { lane₁ with thread := th }, consults.asked, started, result, rfl⟩

/-- The window of a thread is as long after one of its entries has issued as before. -/
theorem inWindow_issueEntry {i n : Nat} {lane : Lane M} {e : Entry} {done : Time}
    (found : w.lanes[i]? = some lane) (entry : lane.thread.ring.get? n = some e)
    (h : issueEntry i n w = .ok done v) :
    ∃ lane', v.lanes[i]? = some lane' ∧ lane'.thread.inWindow = lane.thread.inWindow := by
  have at_i : i < w.lanes.size := (Array.getElem?_eq_some_iff.mp found).1
  obtain ⟨th, e', lane', asked, started, -, rfl⟩ := issueEntry_eq_ok found entry h
  refine ⟨lane', by simp [at_i], ?_⟩
  rw [(Thread.start_eq_ok started).1]
  exact asked.same.2.2

omit [MemorySystem M] in
theorem ready_of_judge {pass : IssuePass} {e : Entry} (verdict : w.judge pass e = .issue) :
    e.ready ≤ w.clock.now := by
  by_contra early
  rw [not_le] at early
  simp [judge, early] at verdict

/-! ## Section 3: The dispatch stage -/

/-- A move of the dispatch stage. -/
inductive Admit : Window M → Window M → Prop
  /-- A lane begins to dispatch. -/
  | begin {w v : Window M} {i : Nat}
      (begun : modifyThread i (Thread.beginDispatch w.clock.now) w = .ok () v) : Admit w v
  /-- A lane whose front end is up attempts to dispatch in vain. -/
  | block {w v : Window M} {i : Nat} {free : Bool} {event : Time}
      (awake : ∀ lane, w.lanes[i]? = some lane → lane.thread.stalledUntil ≤ w.clock.now)
      (tried : onThread i (Thread.dispatchOne w.config.window.forwarding w.clock free) w =
        .ok (.blocked event) v) : Admit w v
  /-- An entry of a lane whose front end is up enters the window. -/
  | enter {w v : Window M} {i : Nat} {free : Bool} {ready : Time}
      (awake : ∀ lane, w.lanes[i]? = some lane → lane.thread.stalledUntil ≤ w.clock.now)
      (tried : onThread i (Thread.dispatchOne w.config.window.forwarding w.clock free) w =
        .ok (.entered ready) v) : Admit w { v with stationsUsed := v.stationsUsed + 1 }
  /-- It is settled what a lane is charged for. -/
  | blame {w v : Window M} {i : Nat} {cause : Thread → Cause}
      (blamed : modifyThread i (fun th => { th with cause := cause th }) w = .ok () v) : Admit w v
  /-- Another lane has the next turn. -/
  | turn {w : Window M} (n : Nat) : Admit w { w with dispatchTurn := n }

/-- Any number of moves of the dispatch stage. -/
abbrev Admits : Window M → Window M → Prop := Relation.ReflTransGen Admit

/-- A move of the dispatch stage changes nothing but a lane, the number of reservation stations in use, and whose
turn it is. -/
theorem Admit.frame (h : Admit w v) :
    v = { w with lanes := v.lanes, stationsUsed := v.stationsUsed, dispatchTurn := v.dispatchTurn } := by
  cases h with
  | begin begun =>
    obtain ⟨lane, -, rfl⟩ := modifyThread_eq_ok.mp begun
    rfl
  | block _ tried | enter _ tried =>
    obtain ⟨lane, th, -, -, rfl⟩ := onThread_eq_ok.mp tried
    rfl
  | blame blamed =>
    obtain ⟨lane, -, rfl⟩ := modifyThread_eq_ok.mp blamed
    rfl
  | turn => rfl

theorem Admits.frame (h : Admits w v) :
    v = { w with lanes := v.lanes, stationsUsed := v.stationsUsed, dispatchTurn := v.dispatchTurn } := by
  induction h with
  | refl => rfl
  | tail _ admitted ih =>
    rw [admitted.frame, ih]

/-- A series of moves of the dispatch stage in which `n` entries enter the window of lane `i`, each of them while a
reservation station is free. -/
inductive Dispatches (i : Nat) : (n : Nat) → Window M → Window M → Prop
  /-- Nothing has happened. -/
  | refl (w : Window M) : Dispatches i 0 w w
  /-- No entry enters in the last move. -/
  | idle {n : Nat} {w v x : Window M} (before : Dispatches i n w v) (admitted : Admit v x)
      (same : x.stationsUsed = v.stationsUsed) : Dispatches i n w x
  /-- The next entry of the lane enters in the last move. -/
  | enter {n : Nat} {w v x : Window M} {ready : Time} (before : Dispatches i n w v)
      (spare : v.stationsUsed < v.config.window.stations)
      (awake : ∀ lane, v.lanes[i]? = some lane → lane.thread.stalledUntil ≤ v.clock.now)
      (tried : onThread i (Thread.dispatchOne v.config.window.forwarding v.clock true) v =
        .ok (.entered ready) x) : Dispatches i (n + 1) w { x with stationsUsed := x.stationsUsed + 1 }

namespace Dispatches

variable {i j m n : Nat}

theorem admits (h : Dispatches i n w v) : Admits w v := by
  induction h with
  | refl => exact .refl
  | idle _ admitted _ ih => exact ih.tail admitted
  | enter _ _ awake tried ih => exact ih.tail (.enter awake tried)

theorem trans (h : Dispatches i m w v) (h' : Dispatches i n v x) : Dispatches i (m + n) w x := by
  induction h' with
  | refl => exact h
  | idle _ admitted same ih => exact .idle (ih h) admitted same
  | enter _ spare awake tried ih => exact .enter (ih h) spare awake tried

/-- If nothing has entered, any lane may be the one. -/
theorem other (h : Dispatches i 0 w v) (j : Nat) : Dispatches j 0 w v := by
  generalize none : 0 = n at h
  induction h with
  | refl => exact none ▸ .refl _
  | idle _ admitted same ih => exact .idle (ih none) admitted same
  | enter => omega

theorem config_eq (h : Dispatches i n w v) : v.config = w.config := by
  have frame := h.admits.frame
  rw [frame]

end Dispatches

/-- A lane dispatches no more than it may, and only while a reservation station is free. -/
theorem dispatches_dispatchUpTo {i width : Nat} {any : Bool} {event : Time} {result : Bool × Time}
    (awake : ∀ lane, w.lanes[i]? = some lane → lane.thread.stalledUntil ≤ w.clock.now)
    (h : dispatchUpTo i width any event w = .ok result v) :
    ∃ n ≤ width, Dispatches i n w v ∧ result.1 = (any || decide (0 < n)) := by
  induction width generalizing any event w with
  | zero =>
    obtain ⟨rfl, rfl⟩ := pure_eq_ok.mp h
    exact ⟨0, Nat.le_refl _, .refl w, (Bool.or_false any).symm⟩
  | succ width ih =>
    obtain ⟨l₀, -, goes⟩ := dispatching_of_dispatchUpTo h
    cases goes with
    | nothing _ ends same =>
      rw [ends, same]
      exact ⟨0, Nat.zero_le _, .refl w, (Bool.or_false any).symm⟩
    | blocked _ _ tried ends =>
      rw [ends]
      refine ⟨0, Nat.zero_le _, .idle (.refl w) (.block awake tried) ?_, (Bool.or_false any).symm⟩
      obtain ⟨lane, th, -, -, rfl⟩ := onThread_eq_ok.mp tried
      rfl
    | @entered ready w₁ _ _ tried rest =>
      obtain ⟨lane, th, found, ran, at_w₁⟩ := onThread_eq_ok.mp tried
      have attempt := Thread.attempt_of_ok ran
      -- an entry only enters if a reservation station is free
      have spare : w.stationsUsed < w.config.window.stations := by
        cases attempt with
        | enter _ _ station => exact of_decide_eq_true station
      rw [decide_eq_true spare] at tried
      have first := Dispatches.enter (.refl w) spare awake tried
      -- the front end of the lane is still up for the next entry
      have still : ∀ lane, { w₁ with stationsUsed := w₁.stationsUsed + 1 }.lanes[i]? = some lane →
          lane.thread.stalledUntil ≤ { w₁ with stationsUsed := w₁.stationsUsed + 1 }.clock.now := by
        intro lane' found'
        rw [at_w₁] at found' ⊢
        have inside := (Array.getElem?_eq_some_iff.mp found).1
        dsimp only at found'
        rw [Array.getElem?_setIfInBounds_self_of_lt inside] at found'
        cases found'
        show th.stalledUntil ≤ w.clock.now
        rw [attempt.stalledUntil_eq]
        exact awake lane found
      obtain ⟨n, le, rest, ends⟩ := ih still rest
      refine ⟨0 + 1 + n, by omega, first.trans rest, ?_⟩
      rw [ends, decide_eq_true (show 0 < 0 + 1 + n by omega), Bool.true_or, Bool.or_true]

theorem dispatches_dispatchLane {i : Nat} {event : Time} {result : Bool × Time}
    (awake : ∀ lane, w.lanes[i]? = some lane → lane.thread.stalledUntil ≤ w.clock.now)
    (h : dispatchLane i event w = .ok result v) :
    ∃ n ≤ w.config.core.dispatchWidth, Dispatches i n w v ∧ result.1 = decide (0 < n) := by
  obtain ⟨w₁, event', l₀, begun, moved, -⟩ := dispatchLane_eq_ok h
  obtain ⟨lane, found, at_w₁⟩ := modifyThread_eq_ok.mp begun
  have first : Dispatches i 0 w w₁ := .idle (.refl w) (.begin begun) (by rw [at_w₁])
  have still : ∀ lane, w₁.lanes[i]? = some lane → lane.thread.stalledUntil ≤ w₁.clock.now := by
    intro lane' found'
    have inside := (Array.getElem?_eq_some_iff.mp found).1
    rw [at_w₁] at found' ⊢
    dsimp only at found'
    rw [Array.getElem?_setIfInBounds_self_of_lt inside] at found'
    cases found'
    exact awake lane found
  obtain ⟨n, le, rest, ends⟩ := dispatches_dispatchUpTo still moved
  exact ⟨0 + n, by omega, first.trans rest, by rwa [Nat.zero_add]⟩

/-- Once a lane has dispatched, no other does. -/
theorem dispatches_dispatchTurnOf {running : Running} {round round' : DispatchRound} {i : Nat}
    (h : dispatchTurnOf running round i w = .ok round' v) :
    ∃ n ≤ w.config.core.dispatchWidth, Dispatches i n w v ∧
      (round.dispatcher.isSome = true → n = 0 ∧ round'.dispatcher.isSome = true) ∧
      (0 < n → round'.dispatcher.isSome = true) := by
  obtain ⟨lane, found, turn⟩ := dispatchTurn_of_dispatchTurnOf h
  -- a lane that does not dispatch is only told what it is charged for
  have blames : ∀ {causeOf : Thread → Cause} {w₁ v₁ : Window M},
      modifyThread i (fun th => { th with cause := causeOf th }) w₁ = .ok () v₁ → Dispatches i 0 w₁ v₁ := by
    intro causeOf w₁ v₁ blamed
    refine .idle (.refl w₁) (.blame blamed) ?_
    obtain ⟨lane, -, rfl⟩ := modifyThread_eq_ok.mp blamed
    rfl
  have idles : round'.dispatcher = round.dispatcher → Dispatches i 0 w v →
      ∃ n ≤ w.config.core.dispatchWidth, Dispatches i n w v ∧
        (round.dispatcher.isSome = true → n = 0 ∧ round'.dispatcher.isSome = true) ∧
        (0 < n → round'.dispatcher.isSome = true) := fun same path =>
    ⟨0, Nat.zero_le _, path, fun some => ⟨rfl, same ▸ some⟩, fun some => absurd some (Nat.lt_irrefl 0)⟩
  cases turn with
  | stalled _ blamed ends | full _ _ _ _ blamed ends | taken _ _ _ _ _ blamed ends =>
    exact idles (by rw [ends]) (blames blamed)
  | idle _ _ blamed ends =>
    refine idles ?_ (blames blamed)
    rw [ends]
    split
    · rfl
    · rfl
  | @slot any event w₁ up runs told room free moved blamed ends =>
    obtain ⟨n, le, path, some_iff⟩ := dispatches_dispatchLane (fun lane' found' => by
      cases found.symm.trans found'
      exact up) moved
    refine ⟨n + 0, le, path.trans (blames blamed), fun some => ?_, fun some => ?_⟩
    · rw [free] at some
      cases some
    · have any : any = true := some_iff.trans (decide_eq_true some)
      rw [ends, any]
      rfl

theorem dispatches_foldlM_dispatchTurnOf {running : Running} {lanes : List Nat}
    {round round' : DispatchRound}
    (h : lanes.foldlM (dispatchTurnOf running) round w = .ok round' v) :
    ∃ i, ∃ n ≤ w.config.core.dispatchWidth, Dispatches i n w v ∧ (round.dispatcher.isSome = true → n = 0) := by
  induction lanes generalizing round w with
  | nil =>
    obtain ⟨-, rfl⟩ := pure_eq_ok.mp h
    exact ⟨0, 0, Nat.zero_le _, .refl w, fun _ => rfl⟩
  | cons i rest ih =>
    rw [List.foldlM_cons] at h
    obtain ⟨_, _, first, h⟩ := bind_eq_ok.mp h
    obtain ⟨n, le, turn, gone, took⟩ := dispatches_dispatchTurnOf first
    obtain ⟨j, m, le', onwards, none⟩ := ih h
    rw [turn.config_eq] at le'
    rcases Nat.eq_zero_or_pos n with rfl | some
    · refine ⟨j, 0 + m, by omega, (turn.other j).trans onwards, fun before => ?_⟩
      rw [none (gone before).2]
    · -- the others do not dispatch any more
      obtain rfl := none (took some)
      refine ⟨i, n + 0, le, turn.trans (onwards.other i), fun before => ?_⟩
      exact (gone before).1

/-- In a dispatch stage, a single lane dispatches, and no more than it may. -/
theorem dispatches_dispatch {running : Running} {event : Time} (h : dispatch running w = .ok event v) :
    ∃ i, ∃ n ≤ w.config.core.dispatchWidth, Dispatches i n w v := by
  obtain ⟨round, w₁, turns, -, rfl⟩ := dispatch_eq_ok h
  obtain ⟨i, n, le, path, -⟩ := dispatches_foldlM_dispatchTurnOf turns
  exact ⟨i, n, le, .idle path (.turn _) rfl⟩

theorem admits_dispatchUpTo {i width : Nat} {any : Bool} {event : Time} {result : Bool × Time}
    (awake : ∀ lane, w.lanes[i]? = some lane → lane.thread.stalledUntil ≤ w.clock.now)
    (h : dispatchUpTo i width any event w = .ok result v) : Admits w v := by
  obtain ⟨n, -, path, -⟩ := dispatches_dispatchUpTo awake h
  exact path.admits

theorem admits_dispatchLane {i : Nat} {event : Time} {result : Bool × Time}
    (awake : ∀ lane, w.lanes[i]? = some lane → lane.thread.stalledUntil ≤ w.clock.now)
    (h : dispatchLane i event w = .ok result v) : Admits w v := by
  obtain ⟨n, -, path, -⟩ := dispatches_dispatchLane awake h
  exact path.admits

theorem admits_dispatchTurnOf {running : Running} {round round' : DispatchRound} {i : Nat}
    (h : dispatchTurnOf running round i w = .ok round' v) : Admits w v := by
  obtain ⟨n, -, path, -⟩ := dispatches_dispatchTurnOf h
  exact path.admits

theorem admits_dispatch {running : Running} {event : Time}
    (h : dispatch running w = .ok event v) : Admits w v := by
  obtain ⟨i, n, -, path⟩ := dispatches_dispatch h
  exact path.admits

/-! ## Section 4: The issue stage -/

/-- What the issue stage does besides letting entries issue. -/
inductive Note : Window M → Window M → Prop
  /-- An entry that has issued is counted if it is a long load. -/
  | account {w v : Window M} {i n cutoff : Nat}
      (counted : modifyThread i (Thread.accountLongLoad cutoff w.clock.now n) w = .ok () v) : Note w v
  /-- It is noted up to when nothing can issue from a lane. -/
  | look {w v : Window M} {i : Nat} {event : Time}
      (noted : modifyThread i (fun th => { th with nextEvent := event }) w = .ok () v) : Note w v
  /-- Another lane has the next turn. -/
  | turn {w : Window M} (n : Nat) : Note w { w with issueTurn := n }

/-- A move of the issue stage. -/
inductive Fire : Window M → Window M → Prop
  /-- An entry in the window of a lane issues. -/
  | issue {w v : Window M} {i n : Nat} {lane : Lane M} {e : Entry} {pass : IssuePass} {done : Time}
      (found : w.lanes[i]? = some lane) (inside : n < lane.thread.inWindow)
      (entry : lane.thread.ring.get? n = some e) (waiting : e.isDone = false)
      (verdict : w.judge pass e = .issue) (issued : issueEntry i n w = .ok done v) : Fire w v
  /-- Something is noted. -/
  | note {w v : Window M} (noted : Note w v) : Fire w v

/-- Any number of moves of the issue stage. -/
abbrev Fires : Window M → Window M → Prop := Relation.ReflTransGen Fire

theorem fires_issueFrom {i n k : Nat} {lane : Lane M} {pass pass' : IssuePass}
    (found : w.lanes[i]? = some lane) (inside : k + n ≤ lane.thread.inWindow)
    (h : issueFrom i n k pass w = .ok pass' v) : Fires w v := by
  induction n generalizing k pass w lane with
  | zero =>
    obtain ⟨-, rfl⟩ := pure_eq_ok.mp h
    exact .refl
  | succ n ih =>
    cases looks_of_issueFrom found h with
    | nothing _ _ same => rw [same]
    | done _ _ rest => exact ih found (by omega) rest
    | stop _ _ _ _ same => rw [same]
    | @issue e done w₁ w₂ entry waiting verdict issued counted rest =>
      obtain ⟨lane₁, found₁, span₁⟩ := inWindow_issueEntry found entry issued
      have clock : w₁.clock = w.clock := by
        obtain ⟨_, _, _, -, -, -, rfl⟩ := issueEntry_eq_ok found entry issued
        rfl
      have moves : Fires w w₂ :=
        .tail (.single (.issue found (by omega) entry waiting verdict issued)) (.note (.account (clock ▸ counted)))
      rcases rest with ⟨-, rfl⟩ | rest
      · exact moves
      · obtain ⟨lane₂, found₂, rfl⟩ := modifyThread_eq_ok.mp counted
        obtain rfl : lane₁ = lane₂ := Option.some.inj (found₁.symm.trans found₂)
        have at_i : i < w₁.lanes.size := (Array.getElem?_eq_some_iff.mp found₁).1
        refine moves.trans (ih (Array.getElem?_setIfInBounds_self_of_lt at_i) ?_ rest)
        rw [(Thread.sameFlow_accountLongLoad _ _ _ _).inWindow]
        omega
    | wait _ _ _ _ rest =>
      rcases rest with ⟨-, rfl⟩ | rest
      · exact .refl
      · exact ih found (by omega) rest

theorem fires_issueLane {i : Nat} {event : Time} {result : Bool × Time}
    (h : issueLane i event w = .ok result v) : Fires w v := by
  obtain ⟨lane, found, turn⟩ := issueTurn_of_issueLane h
  cases turn with
  | asleep _ _ same => rw [same]
  | empty _ _ same => rw [same]
  | look _ _ looked noted => exact (fires_issueFrom found (by omega) looked).tail (.note (.look noted))

theorem fires_issueLanes {lanes : List Nat} {event : Time} {result : Option Nat × Time}
    (h : issueLanes lanes event w = .ok result v) : Fires w v := by
  induction lanes generalizing event w with
  | nil =>
    obtain ⟨-, rfl⟩ := pure_eq_ok.mp h
    exact .refl
  | cons i rest ih =>
    obtain ⟨any, event', w₁, turn, ⟨-, -, rfl⟩ | ⟨-, onwards⟩⟩ := issueLanes_cons_eq_ok h
    · exact fires_issueLane turn
    · exact (fires_issueLane turn).trans (ih onwards)

theorem fires_issue {event : Time} (h : issue w = .ok event v) : Fires w v := by
  obtain ⟨last, w₁, turns, rfl⟩ := issue_eq_ok h
  exact (fires_issueLanes turns).tail (.note (.turn _))

/-! ## Section 5: The commit stage, and a whole cycle -/

/-- A move of a cycle, before the clock goes on. -/
inductive Move : Window M → Window M → Prop
  /-- A move of the dispatch stage. -/
  | dispatch {w v : Window M} (admitted : Admit w v) : Move w v
  /-- A move of the issue stage. -/
  | issue {w v : Window M} (fired : Fire w v) : Move w v
  /-- A lane has its turn in the commit stage. -/
  | commit {w v : Window M} {i : Nat} (committed : commitLane i w = .ok () v) : Move w v

/-- Any number of moves. -/
abbrev Moves : Window M → Window M → Prop := Relation.ReflTransGen Move

theorem moves_forM_commitLane {lanes : List Nat} (h : lanes.forM commitLane w = .ok () v) :
    Moves w v :=
  keeps_of_forM h (fun turn moves => moves.tail (.commit turn)) .refl

/-- The commit stage changes nothing but lanes and the number of reservation stations in use. -/
theorem commitLanes_frame {lanes : List Nat} (h : lanes.forM commitLane w = .ok () v) :
    v = { w with lanes := v.lanes, stationsUsed := v.stationsUsed } := by
  refine keeps_of_forM (P := fun v => v = { w with lanes := v.lanes, stationsUsed := v.stationsUsed }) h
    (fun turn before => ?_) rfl
  obtain ⟨l, th, freed, -, -, rfl⟩ := commitLane_eq_ok turn
  rw [before]

theorem commit_frame {event : Time} (h : commit w = .ok event v) :
    v = { w with lanes := v.lanes, stationsUsed := v.stationsUsed } :=
  commitLanes_frame (commit_eq_ok h)

/-- A cycle is a series of moves; then the clock goes on. -/
theorem moves_cycle {stride : Stride M} {running : Running} (h : cycle stride running w = .ok () v) :
    ∃ (x : Window M) (span : Time), Moves w x ∧ v = x.advance span := by
  obtain ⟨_, _, _, w₁, w₂, w₃, dispatched, issued, committed, rfl⟩ := stages_of_cycle h
  refine ⟨w₃, _, ?_, rfl⟩
  calc Moves w w₁ := (admits_dispatch dispatched).lift id fun _ _ => .dispatch
    Moves w₁ w₂ := (fires_issue issued).lift id fun _ _ => .issue
    Moves w₂ w₃ := moves_forM_commitLane (commit_eq_ok committed)

/-! ## Section 6: Turns -/

omit [MemorySystem M] in
/-- Every lane has a turn. -/
theorem mem_rotation_iff {first i : Nat} : i ∈ w.rotation first ↔ i < w.lanes.size := by
  unfold rotation
  rw [List.mem_map]
  constructor
  · rintro ⟨k, inside, rfl⟩
    rw [List.mem_range] at inside
    exact Nat.mod_lt _ (by omega)
  · intro inside
    have small := Nat.mod_lt first (Nat.lt_of_le_of_lt (Nat.zero_le _) inside)
    refine ⟨(i + (w.lanes.size - first % w.lanes.size)) % w.lanes.size,
      List.mem_range.mpr (Nat.mod_lt _ (by omega)), ?_⟩
    have around : first % w.lanes.size + (i + (w.lanes.size - first % w.lanes.size)) =
        i + w.lanes.size := by omega
    rw [Nat.add_mod_mod, ← Nat.mod_add_mod, around, Nat.add_mod_right, Nat.mod_eq_of_lt inside]

omit [MemorySystem M] in
/-- No lane has two turns. -/
theorem nodup_rotation (w : Window M) (first : Nat) : (w.rotation first).Nodup := by
  unfold rotation
  refine List.Nodup.map_on ?_ List.nodup_range
  intro x hx y hy same
  rw [List.mem_range] at hx hy
  have shifted : first + x ≡ first + y [MOD w.lanes.size] := same
  exact (Nat.ModEq.add_left_cancel' first shifted).eq_of_lt_of_lt hx hy

end Window

end CoreTiming
