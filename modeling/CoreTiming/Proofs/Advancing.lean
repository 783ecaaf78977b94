import CoreTiming.Proofs.Progress

/-!
# Stages that get ahead

Each stage of a cycle gets the window ahead, or lets it rest.  For each there is a condition under which it
gets ahead: some thread can dispatch and has a reservation station, the oldest micro-op of some thread can
issue, or the oldest micro-op of some thread is done.
-/

namespace CoreTiming

open Faulting

/-! ## Section 1: The dispatch stage -/

namespace Window

variable {M : Type} [MemorySystem M] {running : Running} {w v : Window M} {i : Nat} {l : Lane M}

theorem rests_modifyThread {f : Thread → Thread} (h : modifyThread i f w = .ok () v)
    (rests : ∀ th : Thread, th.Rests (f th)) : w.Rests v := by
  obtain ⟨lane, found, rfl⟩ := modifyThread_eq_ok.mp h
  exact rests_setLane found (rests _)

/-- What the present cycle is charged to makes no difference. -/
theorem rests_blame {cause : Thread → Cause}
    (h : modifyThread i (fun th => { th with cause := cause th }) w = .ok () v) : w.Rests v :=
  rests_modifyThread h fun _ => ⟨rfl, rfl, rfl, rfl, rfl, fun _ mem => mem⟩

/-- An attempt to dispatch gets the window ahead unless something holds it up. -/
theorem advances_or_rests_dispatchOne {free : Bool} {d : Thread.Dispatched}
    (h : onThread i (Thread.dispatchOne w.config.window.forwarding w.clock free) w = .ok d v) :
    w.Advances v ∨ w.Rests v ∧ ∀ ready, d ≠ .entered ready := by
  obtain ⟨lane, th, found, ran, rfl⟩ := onThread_eq_ok.mp h
  rcases (Thread.attempt_of_ok ran).advances with ahead | ⟨same, blocked⟩
  · exact .inl (advances_setLane found rfl ahead)
  · refine .inr ⟨rests_setLane found ?_, blocked⟩
    rw [same]
    exact ⟨rfl, rfl, rfl, rfl, rfl, fun _ mem => mem⟩

/-- Dispatch gets ahead, or else it gives no sign of having dispatched anything and the window rests. -/
theorem dispatchUpTo_proceeds {width : Nat} {any : Bool} {event : Time} {result : Bool × Time}
    (h : dispatchUpTo i width any event w = .ok result v) :
    w.Advances v ∨ w.Rests v ∧ result.1 = any := by
  induction width generalizing any event w with
  | zero =>
    obtain ⟨rfl, rfl⟩ := pure_eq_ok.mp h
    exact .inr ⟨.refl w, rfl⟩
  | succ width ih =>
    obtain ⟨lane, found, goes⟩ := dispatching_of_dispatchUpTo h
    cases goes with
    | nothing closed ends same =>
      rw [ends, same]
      exact .inr ⟨.refl w, rfl⟩
    | blocked room waiting tried ends =>
      rw [ends]
      exact (advances_or_rests_dispatchOne tried).imp_right fun rests => ⟨rests.1, rfl⟩
    | @entered ready w₁ room waiting tried rest =>
      -- what has entered takes a reservation station, which is no step back
      have ahead : w.Advances { w₁ with stationsUsed := w₁.stationsUsed + 1 } :=
        (advances_or_rests_dispatchOne tried).resolve_right fun rests => rests.2 ready rfl
      exact .inl (ahead.proceeds ((ih rest).imp_right And.left))

theorem dispatchLane_proceeds {event : Time} {result : Bool × Time}
    (h : dispatchLane i event w = .ok result v) : w.Advances v ∨ w.Rests v ∧ result.1 = false := by
  obtain ⟨w₁, event', lane, begun, moved, -⟩ := dispatchLane_eq_ok h
  have begins : w.Rests w₁ := rests_modifyThread begun
    fun _ => ⟨rfl, rfl, rfl, rfl, rfl, List.filter_subset_self _⟩
  exact (dispatchUpTo_proceeds moved).imp begins.advances (And.imp_left begins.trans)

theorem dispatchTurnOf_proceeds {round round' : DispatchRound}
    (h : dispatchTurnOf running round i w = .ok round' v) :
    w.Advances v ∨ w.Rests v ∧ round'.dispatcher = round.dispatcher := by
  obtain ⟨lane, found, turn⟩ := dispatchTurn_of_dispatchTurnOf h
  cases turn with
  | stalled _ blamed ends | full _ _ _ _ blamed ends | taken _ _ _ _ _ blamed ends =>
    rw [ends]
    exact .inr ⟨rests_blame blamed, rfl⟩
  | idle _ _ blamed ends =>
    refine .inr ⟨rests_blame blamed, ?_⟩
    rw [ends]
    split
    · rfl
    · rfl
  | @slot any event w₁ up runs told room free moved blamed ends =>
    rcases dispatchLane_proceeds moved with ahead | ⟨rests, idle⟩
    · exact .inl (ahead.rests (rests_blame blamed))
    · obtain rfl : any = false := idle
      rw [ends, free]
      exact .inr ⟨rests.trans (rests_blame blamed), rfl⟩

theorem foldlM_dispatchTurnOf_proceeds {lanes : List Nat} {round round' : DispatchRound}
    (h : lanes.foldlM (dispatchTurnOf running) round w = .ok round' v) : w.Proceeds v := by
  refine keeps_of_foldlM h (fun turn before => ?_) (.refl w)
  exact before.trans ((dispatchTurnOf_proceeds turn).imp_right And.left)

theorem dispatch_proceeds {event : Time} (h : dispatch running w = .ok event v) : w.Proceeds v := by
  obtain ⟨round, w₁, turns, -, rfl⟩ := dispatch_eq_ok h
  exact (foldlM_dispatchTurnOf_proceeds turns).trans (.inr (rests_dispatchTurn w₁ _))

/-- Nothing keeps thread `i`, which is on the lane `l`, from dispatching, unless another one has the
dispatch slot of the cycle. -/
structure Admissible (running : Running) (i : Nat) (l : Lane M) (w : Window M) : Prop where
  /-- This is the lane. -/
  found : w.lanes[i]? = some l
  /-- The thread runs. -/
  runs : running.getD i false = true
  /-- Its front end is up. -/
  awake : l.thread.stalledUntil ≤ w.clock.now
  /-- It is not ahead of the core. -/
  told : l.thread.now ≤ w.clock.now
  /-- It has room in the window. -/
  room : l.thread.inWindow < w.share
  /-- It has micro-ops to dispatch. -/
  waiting : 0 < l.thread.buffered
  /-- Its long loads are done. -/
  served : ∀ load ∈ l.thread.longLoads, load.done ≤ w.clock.now
  /-- A reservation station is free. -/
  station : w.stationsUsed < w.config.window.stations
  /-- The core dispatches micro-ops. -/
  width : 0 < w.config.core.dispatchWidth

omit [MemorySystem M] in
theorem Admissible.rests (h : w.Admissible running i l) (rests : w.Rests v) :
    ∃ l', v.Admissible running i l' := by
  have lanes := rests.lanes i
  rw [Array.getElem?_toList, Array.getElem?_toList] at lanes
  obtain ⟨l', found', same⟩ := rel_left lanes h.found
  refine ⟨l', found', h.runs, ?_, ?_, ?_, ?_, fun load mem => ?_, ?_, ?_⟩
  · rw [same.stalledUntil, rests.clock]
    exact h.awake
  · rw [same.now, rests.clock]
    exact h.told
  · rw [same.inWindow, rests.share]
    exact h.room
  · unfold Thread.buffered
    rw [same.ring, same.inWindow]
    exact h.waiting
  · rw [rests.clock]
    exact h.served load (same.longLoads mem)
  · rw [rests.stationsUsed, rests.config]
    exact h.station
  · rw [rests.config]
    exact h.width

theorem dispatchUpTo_advances {width : Nat} {any : Bool} {event : Time} {result : Bool × Time}
    (found : w.lanes[i]? = some l) (room : l.thread.inWindow < w.share) (waiting : 0 < l.thread.buffered)
    (few : l.thread.longLoads.length < LongLoad.maxOutstanding)
    (station : w.stationsUsed < w.config.window.stations)
    (h : dispatchUpTo i (width + 1) any event w = .ok result v) : w.Advances v := by
  obtain ⟨l₀, found₀, goes⟩ := dispatching_of_dispatchUpTo h
  obtain rfl : l = l₀ := Option.some.inj (found.symm.trans found₀)
  have ahead : ∀ {d : Thread.Dispatched} {x : Window M},
      onThread i (Thread.dispatchOne w.config.window.forwarding w.clock
        (decide (w.stationsUsed < w.config.window.stations))) w = .ok d x → w.Advances x := by
    intro d x tried
    rw [decide_eq_true station] at tried
    obtain ⟨l₁, th', found₁, ran, rfl⟩ := onThread_eq_ok.mp tried
    obtain rfl : l = l₁ := Option.some.inj (found.symm.trans found₁)
    exact advances_setLane found rfl (Thread.dispatchOne_advances waiting few ran)
  cases goes with
  | nothing closed => exact absurd ⟨room, waiting⟩ closed
  | blocked _ _ tried => exact ahead tried
  | @entered ready w₁ _ _ tried rest =>
    have entered := ahead tried
    have first : w.Advances { w₁ with stationsUsed := w₁.stationsUsed + 1 } := entered
    exact first.proceeds ((dispatchUpTo_proceeds rest).imp_right And.left)

theorem Admissible.dispatchLane {event : Time} {result : Bool × Time} (can : w.Admissible running i l)
    (h : dispatchLane i event w = .ok result v) : w.Advances v := by
  obtain ⟨w₁, event', lane, begun, moved, -⟩ := dispatchLane_eq_ok h
  have begins : w.Rests w₁ := rests_modifyThread begun
    fun _ => ⟨rfl, rfl, rfl, rfl, rfl, List.filter_subset_self _⟩
  obtain ⟨width, at_width⟩ := Nat.exists_eq_add_one.mpr can.width
  rw [at_width] at moved
  obtain ⟨l₀, found, rfl⟩ := modifyThread_eq_ok.mp begun
  obtain rfl : l = l₀ := Option.some.inj (can.found.symm.trans found)
  -- once those that are done are forgotten, no long load is in flight
  have forgotten : (l.thread.beginDispatch w.clock.now).longLoads = [] := by
    show l.thread.longLoads.filter _ = []
    rw [List.filter_eq_nil_iff]
    intro load mem
    simpa using can.served load mem
  have inside := (Array.getElem?_eq_some_iff.mp found).1
  refine begins.advances (dispatchUpTo_advances (Array.getElem?_setIfInBounds_self_of_lt inside) can.room
    can.waiting ?_ can.station moved)
  show (l.thread.beginDispatch w.clock.now).longLoads.length < _
  rw [forgotten]
  decide

theorem Admissible.dispatchTurnOf {round round' : DispatchRound} (can : w.Admissible running i l)
    (unused : round.dispatcher = none) (h : dispatchTurnOf running round i w = .ok round' v) :
    w.Advances v := by
  obtain ⟨l₀, found, turn⟩ := dispatchTurn_of_dispatchTurnOf h
  obtain rfl : l = l₀ := Option.some.inj (can.found.symm.trans found)
  cases turn with
  | stalled early => exact absurd early (not_lt_of_ge can.awake)
  | idle _ off =>
    rw [can.runs] at off
    exact absurd (off.resolve_left Bool.noConfusion) (not_lt_of_ge can.told)
  | full _ _ _ full => exact absurd full (Nat.not_le_of_lt can.room)
  | taken _ _ _ _ taken =>
    rw [unused] at taken
    cases taken
  | slot _ _ _ _ _ moved blamed => exact (can.dispatchLane moved).rests (rests_blame blamed)

/-- If nothing keeps a thread from dispatching, some thread gets ahead. -/
theorem Admissible.foldlM_dispatchTurnOf {lanes : List Nat} {round round' : DispatchRound}
    (can : w.Admissible running i l) (mem : i ∈ lanes) (unused : round.dispatcher = none)
    (h : lanes.foldlM (Window.dispatchTurnOf running) round w = .ok round' v) : w.Advances v := by
  induction lanes generalizing round w l with
  | nil => cases mem
  | cons j rest ih =>
    rw [List.foldlM_cons] at h
    obtain ⟨round₁, w₁, first, h⟩ := bind_eq_ok.mp h
    have later := foldlM_dispatchTurnOf_proceeds h
    rcases List.mem_cons.mp mem with rfl | behind
    · exact (can.dispatchTurnOf unused first).proceeds later
    · rcases dispatchTurnOf_proceeds first with ahead | ⟨rests, same⟩
      · exact ahead.proceeds later
      · obtain ⟨l', can'⟩ := can.rests rests
        exact rests.advances (ih can' behind (same.trans unused) h)

theorem Admissible.dispatch {event : Time} (can : w.Admissible running i l)
    (h : Window.dispatch running w = .ok event v) : w.Advances v := by
  obtain ⟨round, w₁, turns, -, rfl⟩ := dispatch_eq_ok h
  have inside := (Array.getElem?_eq_some_iff.mp can.found).1
  exact (can.foldlM_dispatchTurnOf (mem_rotation_iff.mpr inside) rfl turns).rests (rests_dispatchTurn w₁ _)

end Window

/-! ## Section 2: The issue stage -/

/-- What stands at position `k` or behind in the window and has issued knows when it is done. -/
def Thread.InTimeFrom (k : Nat) (th : Thread) : Prop :=
  ∀ (j : Nat) (e : Entry), k ≤ j → j < th.inWindow → th.ring.get? j = some e → e.issued ≠ .never →
    e.done ≠ .never

/-- Everything in the window that has issued knows when it is done. -/
abbrev Thread.InTime (th : Thread) : Prop := th.InTimeFrom 0

namespace Thread

variable {clock : Clock} {th th' th₁ : Thread} {e e₁ : Entry} {n : Nat}

/-- An entry that issues does not concern those behind it. -/
theorem InTimeFrom.start {now done latency : Time} (h : th.InTimeFrom n)
    (asked : th.Asked n e th₁ e₁) (started : start n e₁ now done latency th₁ = .ok () th') :
    th'.InTimeFrom (n + 1) := by
  obtain ⟨frame, -, woken, -, -⟩ := start_eq_ok started
  obtain ⟨frame₁, ring⟩ := asked.issuedAt now done
  intro j x behind inside at_j issued
  rw [ring] at woken
  rw [← Ring.getElem?_toList] at at_j
  obtain ⟨y, at_j', told⟩ := woken.right at_j
  rw [List.getElem?_set_ne (by omega), Ring.getElem?_toList] at at_j'
  have inside' : j < th.inWindow := by
    rwa [frame, frame₁] at inside
  rw [told.frame] at issued ⊢
  exact h j y (by omega) inside' at_j' issued

/-- What still waits has not issued. -/
theorem InTimeFrom.issued_eq (h : th.InTimeFrom n) (inside : n < th.inWindow) (entry : th.ring.get? n = some e)
    (waiting : e.isDone = false) : e.issued = .never := by
  by_contra before
  exact h n e (le_refl n) inside entry before (Entry.isDone_eq_false_iff.mp waiting)

end Thread

namespace Window

variable {M : Type} [MemorySystem M] {w v : Window M} {i : Nat} {l : Lane M}

/-- What is to be seen of a window beside lane `i`: its parameters, its clock and the other lanes. -/
def beside (i : Nat) (w : Window M) : Config × Clock × (Nat → Option (Lane M)) :=
  (w.config, w.clock, fun j => if j = i then none else w.lanes[j]?)

omit [MemorySystem M] in
theorem clock_of_beside (h : v.beside i = w.beside i) : v.clock = w.clock := congrArg (·.2.1) h

omit [MemorySystem M] in
theorem lanes_of_beside {j : Nat} (h : v.beside i = w.beside i) (other : j ≠ i) :
    v.lanes[j]? = w.lanes[j]? := by
  have same := congrFun (congrArg (·.2.2) h) j
  simpa only [beside, if_neg other] using same

theorem preserves_onLane {α : Type} (i : Nat) (f : Faulting (Lane M) α) :
    Preserves (beside i) (onLane i f) := by
  intro w a v h
  obtain ⟨l, l', -, -, rfl⟩ := onLane_eq_ok.mp h
  unfold beside
  congr 2
  funext j
  split
  · rfl
  · rename_i other
    rw [Array.getElem?_setIfInBounds_ne (Ne.symm other)]

theorem preserves_onThread {α : Type} (i : Nat) (f : Faulting Thread α) :
    Preserves (beside i) (onThread i f : Faulting (Window M) α) := preserves_onLane i _

theorem preserves_issueEntry (i n : Nat) :
    Preserves (beside i) (issueEntry i n : Faulting (Window M) Time) := by
  unfold issueEntry
  refine preserves_get.bind fun w => (preserves_onLane i (Lane.resolve w.clock.period n)).bind fun _ =>
    preserves_get.bind fun _ => (preserves_ofExcept _).bind fun th => ?_
  split
  · exact preserves_pure _
  · dsimp only
    refine Preserves.bind (preserves_modify fun _ => rfl) fun _ => ?_
    exact (preserves_onThread i _).bind fun _ => preserves_pure _

theorem preserves_issueFrom (i n k : Nat) (pass : IssuePass) :
    Preserves (beside i) (issueFrom i n k pass : Faulting (Window M) IssuePass) := by
  induction n generalizing k pass with
  | zero => exact preserves_pure _
  | succ n ih =>
    unfold issueFrom
    refine preserves_get.bind fun w => (preserves_ofExcept _).bind fun th => ?_
    split
    · exact preserves_pure _
    split
    · exact ih _ _
    dsimp only
    split
    · exact preserves_pure _
    · refine (preserves_issueEntry i k).bind fun done => (preserves_onThread i _).bind fun _ => ?_
      split
      · exact preserves_pure _
      · exact ih _ _
    · split
      · exact preserves_pure _
      · exact ih _ _

/-- A lane is not touched in another lane's turn to issue. -/
theorem preserves_issueLane (i : Nat) (event : Time) :
    Preserves (beside i) (issueLane i event : Faulting (Window M) (Bool × Time)) := by
  unfold issueLane
  refine preserves_get.bind fun w => (preserves_ofExcept _).bind fun th => ?_
  split
  · exact preserves_pure _
  split
  · exact preserves_pure _
  · exact (preserves_issueFrom i _ _ _).bind fun pass => (preserves_onThread i _).bind fun _ => preserves_pure _

/-- An entry that issues, and is counted if it is a long load, gets its thread ahead. -/
theorem advances_issue {n cutoff : Nat} {e : Entry} {done : Time} {x : Window M}
    (found : w.lanes[i]? = some l) (inside : n < l.thread.inWindow) (entry : l.thread.ring.get? n = some e)
    (waiting : e.isDone = false) (intime : w.clock.now ≠ .never) (known : l.thread.InTimeFrom n)
    (issued : issueEntry i n w = .ok done v)
    (counted : modifyThread i (Thread.accountLongLoad cutoff w.clock.now n) v = .ok () x) :
    w.Advances x ∧ x.clock = w.clock ∧ ∃ l', x.lanes[i]? = some l' ∧
      l'.thread.inWindow = l.thread.inWindow ∧ l'.thread.InTimeFrom (n + 1) := by
  have at_i : i < w.lanes.size := (Array.getElem?_eq_some_iff.mp found).1
  obtain ⟨th, e', l₁, asked, started, -, rfl⟩ := issueEntry_eq_ok found entry issued
  obtain ⟨l₂, found₂, rfl⟩ := modifyThread_eq_ok.mp counted
  obtain rfl : l₁ = l₂ := by simpa [at_i] using found₂
  have same := Thread.sameFlow_accountLongLoad cutoff w.clock.now n l₁.thread
  have fetching : (l₁.thread.accountLongLoad cutoff w.clock.now n).fetching = l₁.thread.fetching := by
    unfold Thread.accountLongLoad
    split
    · rfl
    · split <;> rfl
  have first := known.issued_eq inside entry waiting
  have ahead := Thread.start_advances inside entry asked first intime started
  have later := known.start asked started
  let l₂ : Lane M := { l₁ with thread := l₁.thread.accountLongLoad cutoff w.clock.now n }
  have lanes : (w.lanes.setIfInBounds i l₁).setIfInBounds i l₂ = w.lanes.setIfInBounds i l₂ := by
    simp
  refine ⟨advances_setLane found lanes ?_, rfl, l₂, by simp [at_i, l₂], ?_, ?_⟩
  · unfold Thread.Advances at ahead ⊢
    rw [Thread.chores_congr same.ring same.inWindow fetching, same.ring]
    exact ahead
  · show (l₁.thread.accountLongLoad cutoff w.clock.now n).inWindow = _
    rw [same.inWindow]
    exact (Thread.start_counts inside entry asked started).2.1
  · intro j y behind inWindow at_j
    rw [same.inWindow] at inWindow
    rw [same.ring] at at_j
    exact later j y behind inWindow at_j

/-- The pass over the window of a thread gets ahead, or it leaves the window as it was. -/
theorem issueFrom_proceeds {n k : Nat} {pass pass' : IssuePass} (found : w.lanes[i]? = some l)
    (inside : k + n ≤ l.thread.inWindow) (intime : w.clock.now ≠ .never) (known : l.thread.InTimeFrom k)
    (h : issueFrom i n k pass w = .ok pass' v) :
    w.Advances v ∨ v = w ∧ pass'.issued = pass.issued := by
  induction n generalizing k pass w l with
  | zero =>
    obtain ⟨rfl, rfl⟩ := pure_eq_ok.mp h
    exact .inr ⟨rfl, rfl⟩
  | succ n ih =>
    have next : l.thread.InTimeFrom (k + 1) := fun j x behind => known j x (by omega)
    cases looks_of_issueFrom found h with
    | nothing _ ends same =>
      rw [ends]
      exact .inr ⟨same, rfl⟩
    | done _ _ rest =>
      have goesOn := ih found (by omega) intime next rest
      exact goesOn
    | stop _ _ _ ends same =>
      rw [ends]
      exact .inr ⟨same, rfl⟩
    | issue entry waiting _ issued counted rest =>
      obtain ⟨ahead, clock, l₂, found₂, span, later⟩ :=
        advances_issue found (by omega) entry waiting intime known issued counted
      rcases rest with ⟨-, rfl⟩ | rest
      · exact .inl ahead
      · rcases ih found₂ (by omega) (clock ▸ intime) later rest with further | ⟨rfl, -⟩
        · exact .inl (ahead.trans further)
        · exact .inl ahead
    | wait _ _ _ _ rest =>
      rcases rest with ⟨rfl, rfl⟩ | rest
      · exact .inr ⟨rfl, rfl⟩
      · have goesOn := ih found (by omega) intime next rest
        exact goesOn

/-- The turn of a lane in the issue stage gets ahead, or else nothing has issued and the window rests. -/
theorem issueLane_proceeds {event : Time} {result : Bool × Time} (found : w.lanes[i]? = some l)
    (intime : w.clock.now ≠ .never) (known : l.thread.InTime) (h : issueLane i event w = .ok result v) :
    w.Advances v ∨ w.Rests v ∧ result.1 = false := by
  obtain ⟨l₁, found₁, turn⟩ := issueTurn_of_issueLane h
  obtain rfl : l = l₁ := Option.some.inj (found.symm.trans found₁)
  cases turn with
  | asleep _ ends same =>
    rw [ends, same]
    exact .inr ⟨.refl w, rfl⟩
  | empty _ ends same =>
    rw [ends, same]
    exact .inr ⟨.refl w, rfl⟩
  | @look pass w₁ _ _ looked noted ends =>
    have rests : w₁.Rests v := rests_modifyThread noted fun _ => ⟨rfl, rfl, rfl, rfl, rfl, fun _ mem => mem⟩
    rcases issueFrom_proceeds found (by omega) intime known looked with ahead | ⟨rfl, none⟩
    · exact .inl (ahead.rests rests)
    · refine .inr ⟨rests, ?_⟩
      rw [ends, decide_eq_false_iff_not]
      dsimp only at none
      omega

/-- Everything that has issued knows when it is done, and the clock is not at the end of time. -/
structure InTime (w : Window M) : Prop where
  /-- The clock can go on. -/
  clock : w.clock.now ≠ .never
  /-- Results come before the end of time. -/
  lanes : ∀ (i : Nat) (l : Lane M), w.lanes[i]? = some l → l.thread.InTime

theorem issueLanes_proceeds {lanes : List Nat} {event : Time} {result : Option Nat × Time}
    (once : lanes.Nodup) (intime : w.clock.now ≠ .never)
    (known : ∀ j ∈ lanes, ∃ l, w.lanes[j]? = some l ∧ l.thread.InTime)
    (h : issueLanes lanes event w = .ok result v) : w.Proceeds v := by
  induction lanes generalizing event w with
  | nil =>
    obtain ⟨-, rfl⟩ := pure_eq_ok.mp h
    exact .refl w
  | cons i rest ih =>
    obtain ⟨any, event', w₁, turn, goesOn⟩ := issueLanes_cons_eq_ok h
    obtain ⟨absent, once⟩ := List.nodup_cons.mp once
    obtain ⟨l, found, here⟩ := known i List.mem_cons_self
    have first : w.Proceeds w₁ := (issueLane_proceeds found intime here turn).imp_right fun rests => rests.1
    have same := preserves_issueLane i event turn
    rcases goesOn with ⟨-, -, rfl⟩ | ⟨-, onwards⟩
    · exact first
    · refine first.trans (ih once (clock_of_beside same ▸ intime) (fun j mem => ?_) onwards)
      rw [lanes_of_beside same fun here => absent (here ▸ mem)]
      exact known j (List.mem_cons_of_mem _ mem)

omit [MemorySystem M] in
theorem InTime.known {first : Nat} (h : w.InTime) :
    ∀ j ∈ w.rotation first, ∃ l, w.lanes[j]? = some l ∧ l.thread.InTime := by
  intro j mem
  have found := Array.getElem?_eq_getElem (mem_rotation_iff.mp mem)
  exact ⟨_, found, h.lanes j _ found⟩

theorem issue_proceeds {event : Time} (intime : w.InTime) (h : issue w = .ok event v) : w.Proceeds v := by
  obtain ⟨last, x, turns, rfl⟩ := issue_eq_ok h
  exact (issueLanes_proceeds (nodup_rotation _ _) intime.clock intime.known turns).trans
    (.inr (rests_issueTurn x _))

/-- Nothing keeps the oldest micro-op of the thread on the lane `l`, which is lane `i`, from issuing, unless
another thread has the issue slot of the cycle. -/
structure Issuable (i : Nat) (l : Lane M) (e : Entry) (w : Window M) : Prop where
  /-- This is the lane. -/
  found : w.lanes[i]? = some l
  /-- It is time to look at the thread. -/
  watched : l.thread.nextEvent ≤ w.clock.now
  /-- This is the oldest micro-op. -/
  oldest : l.thread.oldest? = some e
  /-- It has not issued. -/
  waiting : e.isDone = false
  /-- It is ready. -/
  ready : e.ready ≤ w.clock.now
  /-- All stores have drained. -/
  drained : w.lastStoreDone ≤ w.clock.now
  /-- The load queue has a free unit. -/
  load : w.loadQueue.hasFree w.clock.now = true
  /-- The store queue has a free unit. -/
  store : w.storeQueue.hasFree w.clock.now = true

omit [MemorySystem M] in
/-- The first micro-op that a pass comes to issues, if nothing keeps it from doing so. -/
theorem Issuable.judge {e : Entry} {event : Time} (can : w.Issuable i l e) :
    w.judge { event } e = .issue := by
  have drained : w.storesDrained = true := decide_eq_true can.drained
  unfold Window.judge
  simp [not_lt_of_ge can.ready, drained, can.load, can.store]

theorem Issuable.issueLane {e : Entry} {event : Time} {result : Bool × Time} (can : w.Issuable i l e)
    (intime : w.clock.now ≠ .never) (known : l.thread.InTime) (h : issueLane i event w = .ok result v) :
    w.Advances v := by
  obtain ⟨some, front⟩ := Thread.oldest?_eq_some can.oldest
  have entry : l.thread.ring.get? 0 = .some e := by
    rw [← Ring.getElem?_toList, front]
    rfl
  obtain ⟨l₁, found₁, turn⟩ := issueTurn_of_issueLane h
  obtain rfl : l = l₁ := Option.some.inj (can.found.symm.trans found₁)
  cases turn with
  | asleep early _ _ => exact absurd can.watched (not_le_of_gt early)
  | empty none _ _ => omega
  | look _ _ looked noted _ =>
    refine Advances.rests ?_ (rests_modifyThread noted fun _ => ⟨rfl, rfl, rfl, rfl, rfl, fun _ mem => mem⟩)
    obtain ⟨n, length⟩ := Nat.exists_eq_add_one.mpr some
    rw [length] at looked
    -- the pass begins with the oldest micro-op
    cases looks_of_issueFrom can.found looked with
    | nothing none _ _ => cases entry.symm.trans none
    | done front done _ =>
      cases entry.symm.trans front
      rw [can.waiting] at done
      cases done
    | stop front _ verdict _ _ =>
      cases entry.symm.trans front
      rw [can.judge] at verdict
      cases verdict
    | wait front _ _ waits _ =>
      cases entry.symm.trans front
      exact absurd can.judge waits
    | issue front waiting _ issued counted rest =>
      obtain ⟨ahead, clock, l₂, found₂, span, later⟩ :=
        advances_issue can.found some front waiting intime known issued counted
      rcases rest with ⟨-, rfl⟩ | rest
      · exact ahead
      · refine ahead.proceeds ?_
        rcases issueFrom_proceeds found₂ (by omega) (clock ▸ intime) later rest with further | ⟨rfl, -⟩
        · exact .inl further
        · exact .refl _

omit [MemorySystem M] in
/-- Another lane has had its turn, and the window rests. -/
theorem Issuable.rests {e : Entry} {j : Nat} (can : w.Issuable i l e) (rests : w.Rests v)
    (same : v.beside j = w.beside j) (other : i ≠ j) : v.Issuable i l e := by
  refine ⟨(lanes_of_beside same other).trans can.found, ?_, can.oldest, can.waiting, ?_, ?_, ?_, ?_⟩
  · rw [rests.clock]
    exact can.watched
  · rw [rests.clock]
    exact can.ready
  · rw [rests.clock, rests.lastStoreDone]
    exact can.drained
  · have load := can.load
    unfold UnitPool.hasFree at load ⊢
    rwa [rests.clock, rests.loadQueue]
  · have store := can.store
    unfold UnitPool.hasFree at store ⊢
    rwa [rests.clock, rests.storeQueue]

theorem Issuable.issueLanes {lanes : List Nat} {e : Entry} {event : Time} {result : Option Nat × Time}
    (can : w.Issuable i l e) (mem : i ∈ lanes) (once : lanes.Nodup) (intime : w.clock.now ≠ .never)
    (known : ∀ j ∈ lanes, ∃ l, w.lanes[j]? = some l ∧ l.thread.InTime)
    (h : issueLanes lanes event w = .ok result v) : w.Advances v := by
  induction lanes generalizing event w with
  | nil => cases mem
  | cons j rest ih =>
    obtain ⟨any, event', w₁, turn, goesOn⟩ := issueLanes_cons_eq_ok h
    obtain ⟨absent, once⟩ := List.nodup_cons.mp once
    obtain ⟨l', found, here⟩ := known j List.mem_cons_self
    have moved := issueLane_proceeds found intime here turn
    have same := preserves_issueLane j event turn
    have intime₁ : w₁.clock.now ≠ .never := clock_of_beside same ▸ intime
    have others : ∀ k ∈ rest, ∃ l, w₁.lanes[k]? = some l ∧ l.thread.InTime := by
      intro k mem
      rw [lanes_of_beside same fun here => absent (here ▸ mem)]
      exact known k (List.mem_cons_of_mem _ mem)
    have later : w₁.Proceeds v := by
      rcases goesOn with ⟨-, -, rfl⟩ | ⟨-, onwards⟩
      · exact .refl _
      · exact issueLanes_proceeds once intime₁ others onwards
    rcases List.mem_cons.mp mem with rfl | behind
    · obtain rfl : l = l' := Option.some.inj (can.found.symm.trans found)
      exact (can.issueLane intime here turn).proceeds later
    · rcases moved with ahead | ⟨rests, none⟩
      · exact ahead.proceeds later
      · -- nothing has issued, so the stage goes on
        dsimp only at none
        rcases goesOn with ⟨some, -, -⟩ | ⟨-, onwards⟩
        · rw [none] at some
          cases some
        · have can' := can.rests rests same fun here => absent (here ▸ behind)
          exact rests.advances (ih can' behind once intime₁ others onwards)

theorem Issuable.issue {e : Entry} {event : Time} (can : w.Issuable i l e) (intime : w.InTime)
    (h : Window.issue w = .ok event v) : w.Advances v := by
  obtain ⟨last, x, turns, rfl⟩ := issue_eq_ok h
  have inside := (Array.getElem?_eq_some_iff.mp can.found).1
  exact (can.issueLanes (mem_rotation_iff.mpr inside) (nodup_rotation _ _) intime.clock intime.known
    turns).rests (rests_issueTurn x _)

/-! ## Section 3: The commit stage -/

/-- The turn of a lane in the commit stage gets ahead, or it leaves the window as it was. -/
theorem commitLane_proceeds (h : commitLane i w = .ok () v) : w.Proceeds v := by
  obtain ⟨lane, th, freed, found, ran, rfl⟩ := commitLane_eq_ok h
  rcases Thread.commit_advances ran with ⟨rfl, rfl, -⟩ | shorter
  · exact .inr (rests_setLane found (.refl _))
  · exact .inl (advances_setLane found rfl (.inl shorter))

theorem forM_commitLane_proceeds {lanes : List Nat} (h : lanes.forM commitLane w = .ok () v) :
    w.Proceeds v :=
  keeps_of_forM h (fun turn before => before.trans (commitLane_proceeds turn)) (.refl w)

theorem commit_proceeds {event : Time} (h : commit w = .ok event v) : w.Proceeds v :=
  forM_commitLane_proceeds (commit_eq_ok h)

/-- The oldest micro-op of a thread can leave. -/
structure Finished (i : Nat) (e : Entry) (w : Window M) : Prop where
  /-- This is the oldest micro-op of thread `i`. -/
  oldest : ∃ l, w.lanes[i]? = some l ∧ l.thread.oldest? = some e
  /-- It is done. -/
  done : e.done ≤ w.clock.now
  /-- The core commits micro-ops. -/
  width : 0 < w.config.window.commitWidth

omit [MemorySystem M] in
theorem Finished.rests {e : Entry} (can : w.Finished i e) (rests : w.Rests v) : v.Finished i e := by
  obtain ⟨⟨l, found, oldest⟩, done, width⟩ := can
  have lanes := rests.lanes i
  rw [Array.getElem?_toList, Array.getElem?_toList] at lanes
  obtain ⟨l', found', same⟩ := rel_left lanes found
  refine ⟨⟨l', found', ?_⟩, ?_, ?_⟩
  · unfold Thread.oldest? at oldest ⊢
    rwa [same.inWindow, same.ring]
  · rwa [rests.clock]
  · rwa [rests.config]

theorem Finished.commitLane {e : Entry} (can : w.Finished i e) (h : commitLane i w = .ok () v) :
    w.Advances v := by
  obtain ⟨⟨l, found, oldest⟩, done, width⟩ := can
  obtain ⟨lane, th, freed, found', ran, rfl⟩ := commitLane_eq_ok h
  obtain rfl : l = lane := Option.some.inj (found.symm.trans found')
  rcases Thread.commit_advances ran with ⟨-, -, early⟩ | shorter
  · exact absurd (early width e oldest) (not_lt_of_ge done)
  · exact advances_setLane found rfl (.inl shorter)

theorem Finished.forM_commitLane {lanes : List Nat} {e : Entry} (can : w.Finished i e) (mem : i ∈ lanes)
    (h : lanes.forM Window.commitLane w = .ok () v) : w.Advances v := by
  induction lanes generalizing w with
  | nil => cases mem
  | cons j rest ih =>
    obtain ⟨⟨⟩, w₁, first, later⟩ := bind_eq_ok.mp h
    have onwards := forM_commitLane_proceeds later
    rcases List.mem_cons.mp mem with rfl | behind
    · exact (can.commitLane first).proceeds onwards
    · rcases commitLane_proceeds first with ahead | rests
      · exact ahead.proceeds onwards
      · exact rests.advances (ih (can.rests rests) behind later)

theorem Finished.commit {e : Entry} {event : Time} (can : w.Finished i e)
    (h : Window.commit w = .ok event v) : w.Advances v := by
  obtain ⟨l, found, -⟩ := can.oldest
  exact can.forM_commitLane (List.mem_range.mpr (Array.getElem?_eq_some_iff.mp found).1) (commit_eq_ok h)

end Window

end CoreTiming
