import CoreTiming.Proofs.Alike
import CoreTiming.Proofs.Charging

/-!
# Windows of one thread that differ only in what time was charged to

The stages of a cycle go the same way for two windows whose only threads are alike, and so do the calls
by which the owner of a window works with it.
-/

namespace CoreTiming

open Faulting

/-- The lanes have the same memory and threads that are alike. -/
inductive Lane.Alike {M : Type} (loads : List LongLoad → List LongLoad → Prop) (owed : Time)
    (l : Lane M) : Lane M → Prop
  | intro {th : Thread} (alike : l.thread.Alike loads owed th) :
      Alike loads owed l { l with thread := th }

namespace Window

variable {M : Type} {loads loads' : List LongLoad → List LongLoad → Prop} {owed owed' : Time}
  {w v : Window M}

/-- Both windows have one lane, and the lanes are alike.  All else is the same but for the time that
was jumped over. -/
inductive Alike (loads : List LongLoad → List LongLoad → Prop) (owed : Time) (w : Window M) :
    Window M → Prop
  | intro {lane lane' : Lane M} (timeSkipped : Time) (alone : w.lanes = #[lane])
      (alike : lane.Alike loads owed lane') :
      Alike loads owed w { w with lanes := #[lane'], timeSkipped }

theorem Alike.of_eq {l k : Lane M} {skipped : Time}
    (eq : v = { w with lanes := #[k], timeSkipped := skipped }) (alone : w.lanes = #[l])
    (alike : l.Alike loads owed k) : Alike loads owed w v := by
  rw [eq]
  exact .intro skipped alone alike

/-! ## Section 1: Parts of windows that are alike -/

/-- What does not look at the lanes is the same for windows that are alike. -/
theorem Alike.congr {α : Type} {f : Window M → α} (h : Alike loads owed w v)
    (hf : ∀ lanes timeSkipped, f { w with lanes, timeSkipped } = f w) : f v = f w := by
  cases h with
  | intro timeSkipped alone alike => exact hf _ _

/-- What does not look at the lanes keeps windows alike. -/
theorem Alike.map {f : Window M → Window M} (h : Alike loads owed w v)
    (hf : ∀ lanes timeSkipped, f { w with lanes, timeSkipped } = { f w with lanes, timeSkipped })
    (kept : (f w).lanes = w.lanes) : Alike loads owed (f w) (f v) := by
  cases h with
  | @intro _ lane' timeSkipped alone alike =>
    have same := hf #[lane'] timeSkipped
    rw [same]
    exact .intro (w := f w) timeSkipped (kept.trans alone) alike

theorem lockstep_modify {f : Window M → Window M} (h : Alike loads owed w v)
    (hf : ∀ lanes timeSkipped, f { w with lanes, timeSkipped } = { f w with lanes, timeSkipped })
    (kept : (f w).lanes = w.lanes) :
    Lockstep (Alike loads owed) ((modify f : Faulting (Window M) Unit) w)
      ((modify f : Faulting (Window M) Unit) v) :=
  .ok (h.map hf kept)

theorem Alike.clock_eq (h : Alike loads owed w v) : v.clock = w.clock :=
  h.congr (f := Window.clock) fun _ _ => rfl

theorem Alike.config_eq (h : Alike loads owed w v) : v.config = w.config :=
  h.congr (f := Window.config) fun _ _ => rfl

theorem Alike.share_eq (h : Alike loads owed w v) : v.share = w.share :=
  h.congr (f := Window.share) fun _ _ => rfl

theorem Alike.stationsUsed_eq (h : Alike loads owed w v) : v.stationsUsed = w.stationsUsed :=
  h.congr (f := Window.stationsUsed) fun _ _ => rfl

theorem Alike.size_eq (h : Alike loads owed w v) : w.lanes.size = 1 ∧ v.lanes.size = 1 := by
  cases h with
  | intro timeSkipped alone alike =>
    rw [alone]
    exact ⟨rfl, rfl⟩

/-- The only thread of each of the windows. -/
theorem Alike.exists_thread (h : Alike loads owed w v) :
    ∃ th th', w.thread 0 = .ok th ∧ v.thread 0 = .ok th' ∧ th.Alike loads owed th' := by
  cases h with
  | @intro lane _ timeSkipped alone alike =>
    cases alike with
    | @intro th' alike =>
      refine ⟨lane.thread, th', ?_, rfl, alike⟩
      unfold thread
      rw [alone]
      rfl

/-- The only lane of a window has every turn. -/
theorem rotation_eq (size : w.lanes.size = 1) (first : Nat) : w.rotation first = [0] := by
  unfold rotation
  rw [size]
  simp [Nat.mod_one]

theorem turnAfter_eq (size : w.lanes.size = 1) (i : Nat) : w.turnAfter i = 0 := by
  unfold turnAfter
  rw [size]
  exact Nat.mod_one _

theorem lockstep_thread {S : Window M → Window M → Prop} {α : Type} {f g : Thread → Faulting (Window M) α}
    (h : Alike loads owed w v)
    (rest : ∀ th th', th.Alike loads owed th' → Lockstep S (f th w) (g th' v)) :
    Lockstep S ((ofExcept (w.thread 0) >>= f) w) ((ofExcept (v.thread 0) >>= g) v) := by
  obtain ⟨th, th', left, right, alike⟩ := h.exists_thread
  rw [left, right]
  exact rest th th' alike

theorem Alike.of_eq_loads {time : Time} (h : Alike Eq owed w v) : Alike (SameLive time) owed w v := by
  cases h with
  | intro timeSkipped alone alike =>
    cases alike with
    | intro alike => exact .intro timeSkipped alone (.intro alike.of_eq_loads)

variable [MemorySystem M] {α : Type}

/-- An operation on the only lane of a window. -/
theorem onLane_zero {l : Lane M} (alone : w.lanes = #[l]) (x : Faulting (Lane M) α) :
    onLane 0 x w =
      match x l with
      | .ok a lane => .ok a { w with lanes := #[lane] }
      | .error f lane => .error f { w with lanes := #[lane] } := by
  cases w
  cases alone
  rfl

/-- There is no other lane. -/
theorem onLane_of_ne {l : Lane M} {i : Nat} (alone : w.lanes = #[l]) (hi : i ≠ 0)
    (x : Faulting (Lane M) α) : onLane i x w = .error .indexOutOfBounds w := by
  have outside : ¬i < w.lanes.size := by
    rw [alone]
    show ¬i < 1
    omega
  unfold onLane
  rw [dif_neg outside]

theorem lockstep_onLane {i : Nat} {x y : Faulting (Lane M) α} (h : Alike loads owed w v)
    (ran : ∀ l l', l.Alike loads owed l' → Lockstep (Lane.Alike loads' owed') (x l) (y l')) :
    Lockstep (Alike loads' owed') (onLane i x w) (onLane i y v) := by
  cases h with
  | @intro lane lane' timeSkipped alone alike =>
    by_cases hi : i = 0
    swap
    · rw [onLane_of_ne alone hi, onLane_of_ne (l := lane') rfl hi]
      exact .error
    rw [hi, onLane_zero alone, onLane_zero (l := lane') rfl]
    have same := ran _ _ alike
    generalize x lane = r at same
    generalize y lane' = r' at same
    cases same with
    | ok related => exact .ok (.intro (w := { w with lanes := _ }) timeSkipped rfl related)
    | error => exact .error

theorem lockstep_onThread {i : Nat} {x y : Faulting Thread α} (h : Alike loads owed w v)
    (ran : ∀ th th', th.Alike loads owed th' → Lockstep (Thread.Alike loads' owed') (x th) (y th')) :
    Lockstep (Alike loads' owed') (onThread i x w) (onThread i y v) := by
  refine lockstep_onLane h fun l l' alike => ?_
  cases alike with
  | intro alike => exact lockstep_zoom (ran _ _ alike) fun _ _ related => .intro related

theorem lockstep_modifyThread {i : Nat} {f : Thread → Thread} (h : Alike loads owed w v)
    (ran : ∀ th th', th.Alike loads owed th' → (f th).Alike loads' owed' (f th')) :
    Lockstep (Alike loads' owed') (modifyThread i f w) (modifyThread i f v) :=
  lockstep_onThread h fun _ _ alike => .ok (ran _ _ alike)

/-! ## Section 2: The dispatch stage -/

/-- A turn of the dispatch stage ends with the cause of the cycle. -/
theorem lockstep_setCause {causeOf : Thread → Cause} {a : α} (h : Alike loads owed w v) :
    Lockstep (Alike loads owed)
      ((modifyThread 0 (fun th => { th with cause := causeOf th }) >>= fun _ => pure a) w)
      ((modifyThread 0 (fun th => { th with cause := causeOf th }) >>= fun _ => pure a) v) := by
  refine lockstep_bind (lockstep_modifyThread h ?_) fun _ _ _ _ _ h => lockstep_pure h
  intro th th' alike
  exact alike.setCause

theorem lockstep_dispatchUpTo {width : Nat} {any : Bool} {event : Time} (h : Alike Eq owed w v) :
    Lockstep (Alike Eq owed) (dispatchUpTo 0 width any event w)
      (dispatchUpTo 0 width any event v) := by
  induction width generalizing any event w v with
  | zero => exact lockstep_pure h
  | succ width ih =>
    unfold dispatchUpTo
    rw [get_bind, get_bind, h.share_eq, h.stationsUsed_eq, h.config_eq, h.clock_eq]
    refine lockstep_thread h fun th th' alike => ?_
    rw [alike.inWindow_eq, alike.buffered_eq]
    split
    · refine lockstep_bind (lockstep_onThread h fun _ _ => Thread.lockstep_dispatchOne)
        fun d w v _ _ h => ?_
      cases d with
      | blocked blockedUntil => exact lockstep_pure h
      | entered ready =>
        exact lockstep_bind (lockstep_modify h (fun _ _ => rfl) rfl) fun _ w v _ _ h => ih h
    · exact lockstep_pure h

theorem lockstep_dispatchLane {event : Time} (h : Alike (SameLive w.clock.now) owed w v) :
    Lockstep (Alike Eq owed) (dispatchLane 0 event w) (dispatchLane 0 event v) := by
  unfold dispatchLane
  rw [get_bind, get_bind, h.clock_eq, h.config_eq]
  -- Loads that are done are dropped first.  From here on the lists are equal.
  refine lockstep_bind (lockstep_modifyThread h fun _ _ => Thread.Alike.beginDispatch)
    fun _ w₁ v₁ _ _ h => ?_
  refine lockstep_bind (lockstep_dispatchUpTo h) fun (any, event) w₂ v₂ _ _ h => ?_
  dsimp only
  rw [get_bind, get_bind, h.share_eq, h.clock_eq]
  refine lockstep_thread h fun th th' alike => ?_
  rw [alike.inWindow_eq, alike.buffered_eq, alike.stalledUntil_eq]
  split
  · exact lockstep_pure h
  · exact lockstep_pure h

theorem lockstep_dispatchTurnOf {running : Running} {round : DispatchRound}
    (h : Alike (SameLive w.clock.now) owed w v) :
    Lockstep (Alike (SameLive w.clock.now) owed) (dispatchTurnOf running round 0 w)
      (dispatchTurnOf running round 0 v) := by
  unfold dispatchTurnOf
  rw [get_bind, get_bind, h.share_eq, h.clock_eq]
  refine lockstep_thread h fun th th' alike => ?_
  have head : th'.headCause? w.clock.now = th.headCause? w.clock.now :=
    alike.congr (f := (·.headCause? w.clock.now)) fun _ => rfl
  have now : th'.now = th.now := alike.congr (f := Thread.now) fun _ => rfl
  rw [head, now, alike.inWindow_eq, alike.stalledUntil_eq]
  split
  · exact lockstep_setCause h
  · split
    · exact lockstep_setCause h
    · split
      · exact lockstep_setCause h
      · split
        · exact lockstep_setCause h
        · refine lockstep_bind (lockstep_dispatchLane h) fun (any, event) _ _ _ _ h => ?_
          exact lockstep_setCause h.of_eq_loads

theorem lockstep_dispatch {running : Running} (h : Alike (SameLive w.clock.now) owed w v) :
    Lockstep (Alike (SameLive w.clock.now) owed) (dispatch running w) (dispatch running v) := by
  unfold dispatch
  rw [get_bind, get_bind]
  obtain ⟨one, one'⟩ := h.size_eq
  rw [rotation_eq one, rotation_eq one', List.foldlM_cons, bind_assoc, bind_assoc]
  refine lockstep_bind (lockstep_dispatchTurnOf h) fun round w₁ v₁ _ _ h => ?_
  rw [List.foldlM_nil, pure_bind, pure_bind, modify_bind, modify_bind, turnAfter_eq h.size_eq.1,
    turnAfter_eq h.size_eq.2]
  exact lockstep_pure (h.map (f := fun w => { w with dispatchTurn := 0 }) (fun _ _ => rfl) rfl)

/-! ## Section 3: The issue stage -/

end Window

theorem Lane.lockstep_resolve {M : Type} [MemorySystem M]
    {loads : List LongLoad → List LongLoad → Prop} {owed : Time} {lane lane' : Lane M} {period : Period}
    {i : Nat} (h : lane.Alike loads owed lane') :
    Lockstep (Lane.Alike loads owed) (Lane.resolve period i lane) (Lane.resolve period i lane') := by
  cases h with
  | @intro th alike =>
    unfold Lane.resolve
    rw [get_bind, get_bind]
    dsimp only
    rw [alike.ring_eq]
    cases lane.thread.ring.get? i with
    | none => exact lockstep_pure (.intro alike)
    | some e =>
      dsimp only
      split
      -- memory is the same, and serves both alike
      · refine lockstep_bind (S := Lane.Alike loads owed) ?_ fun served l l' _ _ h => ?_
        · refine lockstep_zoom (Lockstep.refl (fun _ => rfl) _) ?_
          rintro m _ rfl
          exact .intro (l := { lane with memory := m }) alike
        · refine lockstep_bind (lockstep_ofExcept _ h) fun cycles l l' _ _ h => ?_
          refine lockstep_bind (lockstep_ofExcept _ h) fun u l l' _ _ h => .ok ?_
          cases h with
          | intro alike =>
            exact .intro (l := { l with thread := l.thread.setEntry i { e with u } })
              (alike.setEntry i { e with u })
      · exact lockstep_pure (.intro alike)

namespace Window

variable {M : Type} [MemorySystem M] {loads : List LongLoad → List LongLoad → Prop} {time owed : Time}
  {w v : Window M}

theorem lockstep_issueEntry {i : Nat} (h : Alike loads owed w v) :
    Lockstep (Alike loads owed) (issueEntry 0 i w) (issueEntry 0 i v) := by
  unfold issueEntry
  rw [get_bind, get_bind, h.clock_eq]
  refine lockstep_bind (lockstep_onLane h fun _ _ => Lane.lockstep_resolve) fun _ w₁ v₁ _ _ h => ?_
  rw [get_bind, get_bind]
  refine lockstep_thread h fun th th' alike => ?_
  rw [alike.ring_eq]
  cases th.ring.get? i with
  | none => exact lockstep_pure h
  | some e =>
    refine lockstep_bind (lockstep_modify h (fun _ _ => rfl) rfl) fun _ w₂ v₂ _ _ h => ?_
    exact lockstep_bind (lockstep_onThread h fun _ _ => Thread.lockstep_start)
      fun _ _ _ _ _ h => lockstep_pure h

theorem lockstep_issueFrom {n i : Nat} {pass : IssuePass} (h : Alike (SameLive time) owed w v) :
    Lockstep (Alike (SameLive time) owed) (issueFrom 0 n i pass w) (issueFrom 0 n i pass v) := by
  induction n generalizing i pass w v with
  | zero => exact lockstep_pure h
  | succ n ih =>
    unfold issueFrom
    rw [get_bind, get_bind]
    refine lockstep_thread h fun th th' alike => ?_
    have judge : ∀ pass e, v.judge pass e = w.judge pass e :=
      fun pass e => h.congr (f := (·.judge pass e)) fun _ _ => rfl
    simp only [alike.ring_eq, judge, h.clock_eq, h.config_eq]
    cases th.ring.get? i with
    | none => exact lockstep_pure h
    | some e =>
      dsimp only
      split
      · exact ih h
      -- The verdict is the same.  What follows it depends on nothing but the entry.
      · generalize w.judge _ e = verdict
        cases verdict with
        | stop => exact lockstep_pure h
        | issue =>
          refine lockstep_bind (lockstep_issueEntry h) fun done w₁ v₁ _ _ h => ?_
          refine lockstep_bind
            (lockstep_modifyThread h fun _ _ alike => alike.accountLongLoad _ _ _)
            fun _ w₂ v₂ _ _ h => ?_
          split
          · exact lockstep_pure h
          · exact ih h
        | _ =>
          dsimp only
          split
          · exact lockstep_pure h
          · exact ih h

theorem lockstep_issueLane {event : Time} (h : Alike (SameLive time) owed w v) :
    Lockstep (Alike (SameLive time) owed) (issueLane 0 event w) (issueLane 0 event v) := by
  unfold issueLane
  rw [get_bind, get_bind, h.clock_eq]
  refine lockstep_thread h fun th th' alike => ?_
  have nextEvent : th'.nextEvent = th.nextEvent := alike.congr (f := Thread.nextEvent) fun _ => rfl
  rw [alike.inWindow_eq, nextEvent]
  split
  · exact lockstep_pure h
  · split
    · exact lockstep_pure h
    · refine lockstep_bind (lockstep_issueFrom h) fun pass w₁ v₁ _ _ h => ?_
      refine lockstep_bind (lockstep_modifyThread h fun _ _ alike =>
        alike.map (f := ({ · with nextEvent := pass.event })) (fun _ => rfl) rfl rfl)
        fun _ w₂ v₂ _ _ h => lockstep_pure h

theorem lockstep_issue (h : Alike (SameLive time) owed w v) :
    Lockstep (Alike (SameLive time) owed) (issue w) (issue v) := by
  unfold issue
  rw [get_bind, get_bind]
  obtain ⟨one, one'⟩ := h.size_eq
  rw [rotation_eq one, rotation_eq one']
  unfold issueLanes
  rw [bind_assoc, bind_assoc]
  refine lockstep_bind (lockstep_issueLane h) fun (any, event) w₁ v₁ _ _ h => ?_
  dsimp only
  rw [bind_assoc, bind_assoc, get_bind, get_bind, h.config_eq]
  unfold issueLanes
  -- the next turn is that of the only lane, whichever lane ended the stage
  have moved : ∀ i j, Alike (SameLive time) owed { w₁ with issueTurn := w₁.turnAfter i }
      { v₁ with issueTurn := v₁.turnAfter j } := by
    intro i j
    rw [turnAfter_eq h.size_eq.1, turnAfter_eq h.size_eq.2]
    exact h.map (f := fun w => { w with issueTurn := 0 }) (fun _ _ => rfl) rfl
  split
  · exact .ok (moved _ _)
  · exact .ok (moved _ _)

/-! ## Section 4: The commit stage, and the end of a cycle -/

theorem lockstep_commitLane (h : Alike loads owed w v) :
    Lockstep (Alike loads owed) (commitLane 0 w) (commitLane 0 v) := by
  unfold commitLane
  rw [get_bind, get_bind, h.clock_eq, h.config_eq]
  refine lockstep_bind (lockstep_onThread h fun _ _ => Thread.lockstep_commit)
    fun freed w₁ v₁ _ _ h => ?_
  exact lockstep_modify h (fun _ _ => rfl) rfl

theorem lockstep_commit (h : Alike loads owed w v) :
    Lockstep (Alike loads owed) (commit w) (commit v) := by
  unfold commit
  rw [get_bind, get_bind, h.size_eq.1, h.size_eq.2]
  show Lockstep _ ((List.forM [0] commitLane >>= _) w) ((List.forM [0] commitLane >>= _) v)
  refine lockstep_bind (S := Alike loads owed) ?_ fun _ w₁ v₁ _ _ h => ?_
  · exact lockstep_bind (lockstep_commitLane h) fun _ _ _ _ _ h => lockstep_pure h
  -- the event is the time at which the new head is done
  · rw [get_bind, get_bind]
    cases h with
    | @intro lane lane' timeSkipped alone alike =>
      cases alike with
      | @intro th alike =>
        rw [alone]
        dsimp only
        show Lockstep _
          ((pure ((lane.thread.oldest?.map Entry.done).getD .never) : Faulting (Window M) Time) w₁)
          ((pure ((th.oldest?.map Entry.done).getD .never) : Faulting (Window M) Time) _)
        rw [alike.oldest?_eq]
        exact lockstep_pure (.intro timeSkipped alone (.intro alike))

/-- What happens in a cycle before the clock moves.  Gives the earliest time at which there may be more
to do. -/
def work (running : Running) : Faulting (Window M) Time := do
  let dispatchEvent ← dispatch running
  let issueEvent ← issue
  let commitEvent ← commit
  pure (min (min dispatchEvent issueEvent) commitEvent)

theorem cycle_eq (stride : Stride M) (running : Running) (w : Window M) :
    cycle stride running w =
      match work running w with
      | .ok event v => .ok () (v.advance (stride v event))
      | .error f v => .error f v := by
  have chain : (cycle stride running : Faulting (Window M) Unit) =
      work running >>= fun event => modify fun w => w.advance (stride w event) := by
    simp [cycle, work]
  rw [chain]
  show EStateM.bind _ _ w = _
  unfold EStateM.bind
  cases work running w with
  | ok event v => rfl
  | error f v => rfl

theorem lockstep_work {running : Running} (h : Alike (SameLive w.clock.now) owed w v) :
    Lockstep (Alike (SameLive w.clock.now) owed) (work running w) (work running v) := by
  unfold work
  refine lockstep_bind (lockstep_dispatch h) fun dispatchEvent w₁ v₁ _ _ h => ?_
  refine lockstep_bind (lockstep_issue h) fun issueEvent w₂ v₂ _ _ h => ?_
  exact lockstep_bind (lockstep_commit h) fun commitEvent w₃ v₃ _ _ h => lockstep_pure h

omit [MemorySystem M] in
theorem canExecute_alone {l : Lane M} (alone : w.lanes = #[l]) (running : Running) :
    w.canExecute running =
      (w.isSupplied running 0 l && l.thread.hasWork (running.getD 0 false)) := by
  cases w
  cases alone
  rfl

omit [MemorySystem M] in
theorem Alike.canExecute_eq (h : Alike loads owed w v) (running : Running) :
    v.canExecute running = w.canExecute running := by
  cases h with
  | @intro lane lane' timeSkipped alone alike =>
    cases alike with
    | @intro th alike =>
      have same : th.canDispatch (running.getD 0 false) w.share w.clock.now =
          lane.thread.canDispatch (running.getD 0 false) w.share w.clock.now :=
        alike.congr (f := (·.canDispatch (running.getD 0 false) w.share w.clock.now)) fun _ => rfl
      have starved : th.isStarved w.config.core.dispatchWidth =
          lane.thread.isStarved w.config.core.dispatchWidth :=
        alike.congr (f := (·.isStarved w.config.core.dispatchWidth)) fun _ => rfl
      have work : th.hasWork (running.getD 0 false) = lane.thread.hasWork (running.getD 0 false) :=
        alike.congr (f := (·.hasWork (running.getD 0 false))) fun _ => rfl
      rw [canExecute_alone alone, canExecute_alone (l := { lane with thread := th }) rfl]
      unfold isSupplied
      dsimp only
      rw [same, starved, work]

end Window

namespace Thread

variable {loads : List LongLoad → List LongLoad → Prop} {owed owed' : Time} {th th' : Thread}

/-- What one thread is charged alone, the other one owes. -/
theorem Alike.charge_left (h : th.Alike loads owed th') (histogram : Bool) (now span : Time) :
    (th.charge histogram now span).Alike loads (owed + span) th' := by
  cases h with
  | recharge c same paid =>
    refine .of_eq (c := c) rfl same ?_
    show c.cpi.total + (owed + span) = (th.stats.cpi.charge th.cause span).total
    rw [CpiStack.total_charge, ← paid, add_assoc]

/-- What the other thread owes, it may be charged later. -/
theorem Alike.charge_right {span : Time} (h : th.Alike loads owed th') (settled : span + owed' = owed)
    (histogram : Bool) (now : Time) : th.Alike loads owed' (th'.charge histogram now span) := by
  cases h with
  | recharge c same paid =>
    refine .of_eq (c := { c with cpi := c.cpi.charge c.cause span, loadHistogram := _ }) rfl same ?_
    show (c.cpi.charge c.cause span).total + owed' = _
    rw [CpiStack.total_charge, ← paid, add_assoc, settled]

end Thread

namespace Window

variable {M : Type} {loads : List LongLoad → List LongLoad → Prop} {owed owed' span : Time}
  {w v : Window M}

theorem advance_alone {l : Lane M} (alone : w.lanes = #[l]) (span : Time) :
    w.advance span =
      { w with
        lanes := #[{ l with
          thread := l.thread.charge w.config.window.loadHistogram w.clock.now span }]
        clock := w.clock.addLatency span
        timeSkipped := (w.advance span).timeSkipped } := by
  have lanes : (w.advance span).lanes = #[{ l with
      thread := l.thread.charge w.config.window.loadHistogram w.clock.now span }] := by
    show w.lanes.map _ = _
    rw [alone]
    simp
  rw [← lanes]
  rfl

/-- The first window goes ahead; its clock is set back for the comparison. -/
theorem Alike.lead (h : Alike loads owed w v) (span : Time) :
    Alike loads (owed + span) { w.advance span with clock := v.clock } v := by
  cases h with
  | @intro lane lane' timeSkipped alone alike =>
    cases alike with
    | @intro th alike =>
      have charged := alike.charge_left w.config.window.loadHistogram w.clock.now span
      rw [advance_alone alone]
      exact .of_eq rfl rfl (.intro charged)

/-- The second window follows; the clock of the first one goes with it. -/
theorem Alike.follow (h : Alike loads owed w v) (settled : span + owed' = owed) :
    Alike loads owed' { w with clock := (v.advance span).clock } (v.advance span) := by
  cases h with
  | @intro lane lane' timeSkipped alone alike =>
    cases alike with
    | @intro th alike =>
      have charged := alike.charge_right settled w.config.window.loadHistogram w.clock.now
      have moved := advance_alone
        (w := { w with lanes := #[{ lane with thread := th }], timeSkipped }) rfl span
      rw [moved]
      exact .of_eq rfl alone (.intro charged)

end Window

/-! ## Section 5: Calls that take no time -/

namespace Thread

variable {loads : List LongLoad → List LongLoad → Prop} {owed : Time} {th th' : Thread}

theorem lockstep_enqueue {i : Nat} {u : OpInstance} (h : Alike loads owed th th') :
    Lockstep (Alike loads owed) (Window.enqueue i u th) (Window.enqueue i u th') := by
  unfold Window.enqueue
  refine lockstep_bind (lockstep_modify h (fun _ => rfl) rfl rfl) fun _ s t _ _ h => ?_
  rw [get_bind, get_bind, h.ring_eq, h.nextSeq_eq]
  dsimp only
  split
  · exact .error
  · refine lockstep_bind (lockstep_ofExcept _ h) fun next s t _ _ h => .ok ?_
    dsimp only
    rw [h.ring_eq, h.nextSeq_eq]
    cases s.ring.push (.new u s.nextSeq) with
    | ok pushed =>
      exact h.map (f := ({ · with ring := pushed, nextSeq := next })) (fun _ => rfl) rfl rfl
    | error _ => exact h

end Thread

namespace Window

variable {M : Type} [MemorySystem M] {loads : List LongLoad → List LongLoad → Prop} {owed : Time}
  {w v : Window M} {lane lane' : Lane M} {i : Nat} {u : OpInstance}

theorem lockstep_fetch {period : Period} (h : lane.Alike loads owed lane') :
    Lockstep (Lane.Alike loads owed) (fetch period u lane) (fetch period u lane') := by
  unfold fetch
  split
  · refine lockstep_bind (S := Lane.Alike loads owed) ?_ fun served l l' _ _ h => ?_
    · cases h with
      | intro alike =>
        refine lockstep_zoom (Lockstep.refl (fun _ => rfl) _) ?_
        rintro m _ rfl
        exact .intro (l := { lane with memory := m }) alike
    · split
      · exact lockstep_pure h
      · exact lockstep_bind (lockstep_ofExcept _ h) fun cycles l l' _ _ h => lockstep_pure h
  · exact lockstep_pure h

theorem lockstep_pushOne {period : Period} (h : lane.Alike loads owed lane') :
    Lockstep (Lane.Alike loads owed) (pushOne period i u lane) (pushOne period i u lane') := by
  unfold pushOne
  split
  · exact lockstep_pure h
  · refine lockstep_bind (lockstep_fetch h) fun u l l' _ _ h => ?_
    cases h with
    | @intro th alike =>
      have predictor : th.predictor = l.thread.predictor :=
        alike.congr (f := Thread.predictor) fun _ => rfl
      rw [get_bind, get_bind]
      dsimp only
      rw [predictor]
      exact lockstep_zoom (Thread.lockstep_enqueue alike) fun s t related =>
        .intro (l := { l with thread := s }) related

theorem lockstep_push {us : List OpInstance} (h : Alike loads owed w v) :
    Lockstep (Alike loads owed) (push i us w) (push i us v) := by
  unfold push
  rw [get_bind, get_bind, h.clock_eq]
  refine lockstep_onLane h fun l l' alike => ?_
  induction us generalizing l l' with
  | nil => exact lockstep_pure alike
  | cons u rest ih =>
    exact lockstep_bind (lockstep_pushOne alike) fun _ l l' _ _ alike => ih l l' alike

theorem lockstep_returnLatency {inWakeup : Bool} (h : Alike loads owed w v) :
    Lockstep (Alike loads owed) (returnLatency i inWakeup w) (returnLatency i inWakeup v) := by
  unfold returnLatency
  rw [get_bind, get_bind, h.clock_eq]
  refine lockstep_onThread h fun th th' alike => ?_
  cases alike with
  | recharge c same paid => exact .ok (.of_eq (c := c) rfl same paid)

end Window

end CoreTiming
