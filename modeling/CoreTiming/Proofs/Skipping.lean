import CoreTiming.Proofs.Quiet

/-!
# Jumping over quiet time

A window of one thread may jump to the next event instead of going there cycle by cycle.  The window
that goes cycle by cycle is quiet until then, and catches up: at the event both windows are alike, and
nothing has happened that tells them apart, except that time has been charged to other causes.
-/

namespace CoreTiming

open Faulting

/-! ## Section 1: What two windows have in common -/

namespace SameLive

variable {time later : Time} {a b c : List LongLoad}

theorem trans (h : SameLive time a b) (h' : SameLive time b c) : SameLive time a c :=
  Eq.trans h' h

theorem mono (h : SameLive time a b) (le : time ≤ later) : SameLive later a b := by
  have cut : ∀ ls : List LongLoad, ls.filter (fun load => later < load.done) =
      (ls.filter fun load => time < load.done).filter fun load => later < load.done := fun ls =>
    (sameLive_filter le ls).symm
  unfold SameLive at *
  rw [cut a, cut b, h]

end SameLive

theorem Thread.Alike.trans {time owed owed' : Time} {a b c : Thread}
    (h : a.Alike (SameLive time) owed b) (h' : b.Alike (SameLive time) owed' c) :
    a.Alike (SameLive time) (owed' + owed) c := by
  cases h with
  | recharge x same paid =>
    cases h' with
    | recharge y same' paid' =>
      refine .of_eq (c := y) rfl (same.trans same') ?_
      rw [← add_assoc, paid', ← paid]
      rfl

theorem Thread.Alike.mono {time later owed : Time} {a b : Thread}
    (h : a.Alike (SameLive time) owed b) (le : time ≤ later) : a.Alike (SameLive later) owed b := by
  cases h with
  | recharge x same paid => exact .recharge x (same.mono le) paid

namespace Window

variable {M : Type} {w u v x : Window M} {l : Lane M} {running : Running} {time later owed owed' : Time}
  {grace i : Nat}

theorem Alike.trans (h : Alike (SameLive time) owed w v) (h' : Alike (SameLive time) owed' v x) :
    Alike (SameLive time) (owed' + owed) w x := by
  cases h with
  | intro skipped alone alike =>
    cases alike with
    | intro alike =>
      cases h' with
      | intro skipped' alone' alike' =>
        cases alone'
        cases alike' with
        | intro alike' => exact .of_eq rfl alone (.intro (alike.trans alike'))

theorem Alike.mono (h : Alike (SameLive time) owed w v) (le : time ≤ later) :
    Alike (SameLive later) owed w v := by
  cases h with
  | intro skipped alone alike =>
    cases alike with
    | intro alike => exact .intro skipped alone (.intro (alike.mono le))

/-- The windows are alike, and nothing is owed.  The second one acts at whole cycles. -/
structure Matched (w u : Window M) : Prop where
  /-- They differ at most in what time was charged to. -/
  alike : Alike (SameLive w.clock.now) 0 w u
  /-- The second one is regular. -/
  regular : ∃ l, Regular u l

theorem Alike.leaving_eq (h : Alike (SameLive time) owed w v) (i : Nat) : v.leaving i = w.leaving i := by
  cases h with
  | @intro lane lane' skipped alone alike =>
    cases alike with
    | @intro th alike =>
      have same : th.leaving w.clock.now w.config.window.commitWidth =
          lane.thread.leaving w.clock.now w.config.window.commitWidth :=
        alike.congr (f := (·.leaving w.clock.now w.config.window.commitWidth)) fun _ => rfl
      unfold leaving
      rw [alone]
      cases i with
      | zero => exact same
      | succ i => rfl

variable [MemorySystem M]

theorem Alike.leavingInCycle_eq (h : Alike (SameLive w.clock.now) owed w v) (running : Running) (i : Nat) :
    leavingInCycle running i v = leavingInCycle running i w := by
  have upToCommit : Lockstep (Alike (SameLive w.clock.now) owed)
      ((do let _ ← dispatch running; issue : Faulting (Window M) Time) w)
      ((do let _ ← dispatch running; issue : Faulting (Window M) Time) v) :=
    lockstep_bind (lockstep_dispatch h) fun _ _ _ _ _ h => lockstep_issue h
  unfold leavingInCycle
  generalize (do let _ ← dispatch running; issue : Faulting (Window M) Time) w = r at upToCommit
  generalize (do let _ ← dispatch running; issue : Faulting (Window M) Time) v = r' at upToCommit
  cases upToCommit with
  | ok alike => exact alike.leaving_eq i
  | error => rfl

/-! ## Section 2: Runs, one cycle at a time -/

/-- What leaves lane `i` in a run. -/
def leavingInRun (stride : Stride M) (running : Running) (grace i : Nat) (w : Window M) :
    List Retirement :=
  (cycles stride running grace w).flatMap (leavingInCycle running i)

/-- Both runs end alike, and the same leaves the window in them. -/
structure SameRun (S : Window M → Window M → Prop) (stride stride' : Stride M) (running : Running)
    (grace : Nat) (w u : Window M) : Prop where
  /-- Both end in the same way. -/
  ends : Lockstep S (run stride running grace w) (run stride' running grace u)
  /-- The same leaves in both. -/
  leaves : ∀ i, leavingInRun stride running grace i w = leavingInRun stride' running grace i u

section

variable {stride : Stride M}

theorem run_of_stop (stop : ¬w.canExecute running = true) :
    run stride running grace w = .ok () w := by
  rw [run, if_neg stop]

theorem leavingInRun_of_stop (stop : ¬w.canExecute running = true) :
    leavingInRun stride running grace i w = [] := by
  rw [leavingInRun, cycles, if_neg stop]
  rfl

variable (can : w.canExecute running = true)

include can

theorem run_of_error {f : Fault} (ran : cycle stride running w = .error f v) :
    run stride running grace w = .error f v := by
  rw [run, if_pos can, ran]

theorem leavingInRun_of_error {f : Fault} (ran : cycle stride running w = .error f v) :
    leavingInRun stride running grace i w = [] := by
  rw [leavingInRun, cycles, if_pos can, ran]
  rfl

variable (ran : cycle stride running w = .ok () v)

include ran

theorem run_of_later (later : w.clock.now < v.clock.now) :
    run stride running grace w = run stride running grace v := by
  rw [run, if_pos can, ran]
  exact if_pos later

theorem leavingInRun_of_later (later : w.clock.now < v.clock.now) :
    leavingInRun stride running grace i w =
      leavingInCycle running i w ++ leavingInRun stride running grace i v := by
  rw [leavingInRun, cycles, if_pos can, ran]
  dsimp only
  rw [if_pos later, List.flatMap_cons]
  rfl

theorem run_of_still (still : ¬w.clock.now < v.clock.now) :
    run stride running grace w =
      match grace with
      | 0 => .error .outOfTime v
      | grace + 1 => run stride running grace v := by
  rw [run, if_pos can, ran]
  exact if_neg still

theorem leavingInRun_of_still (still : ¬w.clock.now < v.clock.now) :
    leavingInRun stride running grace i w =
      match grace with
      | 0 => []
      | grace + 1 => leavingInCycle running i w ++ leavingInRun stride running grace i v := by
  rw [leavingInRun, cycles, if_pos can, ran]
  dsimp only
  rw [if_neg still]
  cases grace with
  | zero => rfl
  | succ grace => exact List.flatMap_cons

end

/-- A run that begins with `u` goes through `u'`, and nothing leaves before. -/
def GoesOn (running : Running) (u u' : Window M) : Prop :=
  ∀ grace, run onePeriod running grace u = run onePeriod running grace u' ∧
    ∀ i, leavingInRun onePeriod running grace i u = leavingInRun onePeriod running grace i u'

/-! ## Section 3: Catching up -/

/-- A cycle of a quiet window settles a period of what is owed, and nothing leaves in it. -/
theorem Quiet.step (quiet : Quiet running time u l) (early : u.clock.now < time)
    (ahead : Alike (SameLive time) owed { w with clock := u.clock } u)
    (settled : u.clock.period.length + owed' = owed) :
    ∃ v l', cycle onePeriod running u = .ok () v ∧
      v.clock = { u.clock with now := u.clock.now + u.clock.period.length } ∧
      Quiet running time v l' ∧ Alike (SameLive time) owed' { w with clock := v.clock } v ∧
      ∀ i, leavingInCycle running i u = [] := by
  obtain ⟨event, v, l', worked, clock, alike, quiet', nothing⟩ := quiet.work early
  rw [← clock] at settled ⊢
  have follows := (ahead.trans alike).follow (settled.trans (zero_add owed).symm)
  refine ⟨v.advance v.clock.period.length, _, ?_, rfl, quiet'.advance, follows, nothing⟩
  rw [cycle_eq, worked]
  rfl

/-- The window `w` has jumped to `time`.  A window that is quiet until then, and alike but for the time
that it has not been charged yet, gets there cycle by cycle. -/
theorem Quiet.exists_matched (quiet : Quiet running time u l)
    (ahead : Alike (SameLive time) owed { w with clock := u.clock } u)
    (clock : w.clock = { u.clock with now := time }) (finite : time ≠ .never)
    (grid : time.OnGrid u.clock.period) (debt : u.clock.now + owed = time) :
    ∃ u', Matched w u' ∧ GoesOn running u u' := by
  -- induction on what is owed, of which each cycle settles one period
  induction size : owed.toNat using Nat.strong_induction_on generalizing u l owed with
  | _ n ih =>
    have sum := Time.toNat_add_of_ne (debt ▸ finite)
    rw [debt] at sum
    by_cases early : u.clock.now < time
    swap
    -- everything is settled, so the windows stand at the same time
    · have reached : u.clock.now = time := by
        refine le_antisymm ?_ (le_of_not_gt early)
        rw [← debt]
        exact Time.le_add_right _ _
      have settled : owed = 0 := by
        apply Time.ext_toNat
        rw [reached] at sum
        rw [Time.toNat_zero]
        omega
      have same : u.clock = w.clock := by rw [clock, ← reached]
      rw [settled, same] at ahead
      refine ⟨u, ⟨?_, l, quiet.regular⟩, fun _ => ⟨rfl, fun _ => rfl⟩⟩
      rw [clock]
      exact ahead
    · have period := u.clock.period.length_pos
      have room := quiet.regular.grid.add_length_le grid early
      rw [Time.le_iff_toNat_le, Time.toNat_add] at room
      have bound := Time.toNat_lt_limit finite
      have settled : u.clock.period.length + (owed - u.clock.period.length) = owed := by
        apply Time.ext_toNat
        rw [Time.toNat_add, Time.toNat_sub]
        omega
      obtain ⟨v, l', ran, clock', quiet', follows, nothing⟩ := quiet.step early ahead settled
      have moved : u.clock.now < v.clock.now := by
        rw [clock', Time.lt_iff_toNat_lt, Time.toNat_add]
        omega
      have less : (owed - u.clock.period.length).toNat < n := by
        rw [Time.toNat_sub]
        omega
      have debt' : v.clock.now + (owed - u.clock.period.length) = time := by
        rw [clock', add_assoc, settled]
        exact debt
      have jumped : w.clock = { v.clock with now := time } := by rw [clock, clock']
      have grid' : time.OnGrid v.clock.period := by
        rw [clock']
        exact grid
      obtain ⟨u', matched, goesOn⟩ := ih _ less quiet' follows jumped grid' debt' rfl
      refine ⟨u', matched, fun grace => ?_⟩
      obtain ⟨ends, leaves⟩ := goesOn grace
      have can := quiet.canExecute early
      refine ⟨(run_of_later can ran moved).trans ends, fun i => ?_⟩
      rw [leavingInRun_of_later can ran moved, nothing, List.nil_append]
      exact leaves i

/-! ## Section 4: Runs -/

omit [MemorySystem M] in
theorem Alike.advance (h : Alike (SameLive time) 0 w u) (span : Time) :
    Alike (SameLive time) 0 (w.advance span) (u.advance span) := by
  have moved := (h.lead span).follow ((add_zero span).trans (zero_add span).symm)
  have clock : (u.advance span).clock = (w.advance span).clock := by
    show u.clock.addLatency span = w.clock.addLatency span
    rw [h.clock_eq]
  rw [clock] at moved
  exact moved

omit [MemorySystem M] in
theorem toEvent_eq {event : Time} (one : w.lanes.size ≤ 1) :
    toEvent w event = if event ≠ .never ∧ w.clock.next < event then event - w.clock.now
      else w.clock.period.length := by
  unfold toEvent
  by_cases skips : event ≠ .never ∧ w.clock.next < event
  · rw [if_pos skips, if_pos]
    simp [one, skips.2, Time.isNever_eq_false_iff.mpr skips.1]
  · rw [if_neg skips, if_neg]
    intro all
    simp only [Bool.and_eq_true, Bool.not_eq_true', decide_eq_true_iff] at all
    exact skips ⟨Time.isNever_eq_false_iff.mp all.1.2, all.2⟩

omit [MemorySystem M] in
theorem clock_advance_sub {event : Time} (before : w.clock.now ≤ event) :
    (w.advance (event - w.clock.now)).clock = { w.clock with now := event } := by
  rw [Time.le_iff_toNat_le] at before
  have bound := event.toNat_le_limit
  have reached : w.clock.now + (event - w.clock.now) = event := by
    apply Time.ext_toNat
    rw [Time.toNat_add, Time.toNat_sub]
    omega
  exact congrArg (Clock.mk w.clock.period) reached

/-- What is due at `event` is not due before, so it does not matter how the windows get there. -/
theorem Quiet.exists_matched_of_skip {event : Time} (quiet : Quiet running event u l)
    (alike : Alike (SameLive w.clock.now) 0 w u) (finite : event ≠ .never)
    (skips : w.clock.next < event) (grid : event.OnGrid u.clock.period) :
    ∃ u', Matched (w.advance (event - w.clock.now)) u' ∧
      GoesOn running (u.advance u.clock.period.length) u' := by
  have bound := Time.toNat_lt_limit finite
  have next := Clock.toNat_next (ne_of_lt (lt_of_lt_of_le skips (Time.le_never event)))
  have before : w.clock.now ≤ event := le_trans w.clock.le_next (le_of_lt skips)
  have clock := alike.clock_eq
  rw [Time.lt_iff_toNat_lt, next] at skips
  have settled : u.clock.period.length + (event - w.clock.now - u.clock.period.length) =
      0 + (event - w.clock.now) := by
    apply Time.ext_toNat
    rw [zero_add, clock, Time.toNat_add, Time.toNat_sub, Time.toNat_sub]
    omega
  have ahead := ((alike.mono before).lead (event - w.clock.now)).follow settled
  refine quiet.advance.exists_matched ahead ?_ finite grid ?_
  · rw [clock_advance_sub before, ← clock]
    rfl
  · show u.clock.now + u.clock.period.length + _ = event
    rw [add_assoc, settled, zero_add, clock]
    exact congrArg Clock.now (clock_advance_sub before)

/-- A cycle of `w` may be several of `u`, but both windows stand still in the same cycles. -/
theorem Matched.cycle (h : Matched w u) (can : w.canExecute running = true) :
    (∃ f v v', cycle toEvent running w = .error f v ∧ cycle onePeriod running u = .error f v') ∨
      ∃ v u₁ u', cycle toEvent running w = .ok () v ∧ cycle onePeriod running u = .ok () u₁ ∧
        (w.clock.now < v.clock.now ↔ u.clock.now < u₁.clock.now) ∧ Matched v u' ∧
        GoesOn running u₁ u' := by
  obtain ⟨l, regular⟩ := h.regular
  have can' : u.canExecute running = true := (h.alike.canExecute_eq running).trans can
  have works : Lockstep _ (work running w) (work running u) := lockstep_work h.alike
  rw [cycle_eq, cycle_eq]
  generalize worked : work running w = r at works
  generalize worked' : work running u = r' at works
  cases works with
  | error => exact .inl ⟨_, _, _, rfl, rfl⟩
  | @ok event x y alike =>
    obtain ⟨l', regular', clock', grid, quiet⟩ := regular.work can' worked'
    have sameClock : x.clock = w.clock := alike.clock_eq.symm.trans (clock'.trans h.alike.clock_eq)
    have stride : toEvent x event = _ := toEvent_eq (le_of_eq alike.size_eq.1)
    rw [← sameClock] at alike
    have sameClock' : x.clock = u.clock := sameClock.trans h.alike.clock_eq.symm
    by_cases skips : event ≠ .never ∧ x.clock.next < event
    -- the first window jumps, and the second one, which is quiet until the event, catches up
    · rw [if_pos skips] at stride
      obtain ⟨finite, skips⟩ := skips
      have forward := Clock.lt_next (ne_of_lt (lt_of_lt_of_le skips (Time.le_never event)))
      have later : u.clock.next < event := sameClock' ▸ skips
      obtain ⟨u', matched, goesOn⟩ :=
        (quiet later).exists_matched_of_skip alike finite skips (clock' ▸ grid)
      refine .inr ⟨x.advance (event - x.clock.now), y.advance y.clock.period.length, u', ?_, rfl,
        iff_of_true ?_ ?_, matched, goesOn⟩
      · dsimp only
        rw [stride]
      · rw [clock_advance_sub (le_trans x.clock.le_next (le_of_lt skips)), ← sameClock]
        exact lt_trans forward skips
      · show u.clock.now < y.clock.next
        rw [clock', ← sameClock']
        exact forward
    -- both move by a period
    · rw [if_neg skips] at stride
      have advanced := alike.advance x.clock.period.length
      refine .inr ⟨x.advance x.clock.period.length, y.advance y.clock.period.length,
        y.advance y.clock.period.length, ?_, rfl, ?_, ?_, fun _ => ⟨rfl, fun _ => rfl⟩⟩
      · dsimp only
        rw [stride]
      · show w.clock.now < x.clock.now + _ ↔ u.clock.now < y.clock.now + _
        rw [alike.clock_eq, sameClock, h.alike.clock_eq]
      · refine ⟨?_, _, regular'.advance⟩
        rw [alike.clock_eq]
        exact advanced.mono (Time.le_add_right _ _)

/-- Runs that begin with windows that match end with windows that match. -/
theorem Matched.sameRun {w u : Window M} {grace : Nat} (h : Matched w u) :
    SameRun Matched toEvent onePeriod running grace w u := by
  by_cases can : w.canExecute running = true
  swap
  · have stop : ¬u.canExecute running = true := by rwa [h.alike.canExecute_eq running]
    refine ⟨?_, fun i => ?_⟩
    · rw [run_of_stop can, run_of_stop stop]
      exact .ok h
    · rw [leavingInRun_of_stop can, leavingInRun_of_stop stop]
  have can' : u.canExecute running = true := (h.alike.canExecute_eq running).trans can
  rcases h.cycle can with ⟨f, v, v', ran, ran'⟩ | ⟨v, u₁, u', ran, ran', moves, matched, goesOn⟩
  · refine ⟨?_, fun i => ?_⟩
    · rw [run_of_error can ran, run_of_error can' ran']
      exact .error
    · rw [leavingInRun_of_error can ran, leavingInRun_of_error can' ran']
  have leaves := h.alike.leavingInCycle_eq running
  -- either clock moves, or both stand at the end of time, and use up the cycles that are granted there
  by_cases moved : w.clock.now < v.clock.now
  · have rest : SameRun Matched toEvent onePeriod running grace v u' := matched.sameRun
    obtain ⟨ends, leaves'⟩ := goesOn grace
    have moved' := moves.mp moved
    refine ⟨?_, fun i => ?_⟩
    · rw [run_of_later can ran moved, run_of_later can' ran' moved', ends]
      exact rest.ends
    · rw [leavingInRun_of_later can ran moved, leavingInRun_of_later can' ran' moved', leaves,
        leaves', rest.leaves]
  · have still := fun later => moved (moves.mpr later)
    cases grace with
    | zero =>
      refine ⟨?_, fun i => ?_⟩
      · rw [run_of_still can ran moved, run_of_still can' ran' still]
        exact .error
      · rw [leavingInRun_of_still can ran moved, leavingInRun_of_still can' ran' still]
    | succ grace =>
      have rest : SameRun Matched toEvent onePeriod running grace v u' := matched.sameRun
      obtain ⟨ends, leaves'⟩ := goesOn grace
      refine ⟨?_, fun i => ?_⟩
      · rw [run_of_still can ran moved, run_of_still can' ran' still]
        dsimp only
        rw [ends]
        exact rest.ends
      · rw [leavingInRun_of_still can ran moved, leavingInRun_of_still can' ran' still]
        dsimp only
        rw [leaves, leaves', rest.leaves]
termination_by (grace, Time.limit - w.clock.now.toNat)
decreasing_by
  · have := Time.toNat_le_limit v.clock.now
    rw [Time.lt_iff_toNat_lt] at moved
    apply Prod.Lex.right
    omega
  · apply Prod.Lex.left
    omega

end Window

end CoreTiming
