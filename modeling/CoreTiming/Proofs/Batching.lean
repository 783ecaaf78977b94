import CoreTiming.Proofs.Feeding
import CoreTiming.Proofs.Told
import Mathlib.Data.List.Induction

/-!
# The timing does not depend on portions

The owner of a window may hand it micro-ops one by one or many at once, and may let it run as often as it
likes.  The main result of this module is that the timing does not show it: two windows whose threads are
given the same streams of micro-ops end at the same time, and each micro-op goes through both of them at
the same times.
-/

namespace CoreTiming

open Faulting

namespace Window

variable {M : Type}

/-! ## Section 1: Schedules -/

/-- The micro-ops that the calls hand to thread `i`. -/
def handed (calls : List (Call M)) (i : Nat) : List OpInstance := calls.flatMap (·.takesIn i)

/-- The calls feed `n` threads up to the end of their streams, and let all of them run. -/
structure Feeding (n : Nat) (calls : List (Call M)) : Prop where
  /-- Nothing else is asked of the window, and whenever it runs, all threads run. -/
  kinds : ∀ call ∈ calls,
    call.Feeds ∨ ∃ running : Running, call = .execute running ∧ ∀ i < n, running.getD i false = true
  /-- No stream goes on behind its end. -/
  ends : calls.Pairwise fun call later => ∀ i us, call = .markEndOfStream i → later ≠ .push i us
  /-- All streams end. -/
  marked : ∀ i < n, .markEndOfStream i ∈ calls
  /-- At last the window runs. -/
  last : ∃ running, calls.getLast? = some (.execute running)

theorem handed_cons (call : Call M) (calls : List (Call M)) (i : Nat) :
    handed (call :: calls) i = call.takesIn i ++ handed calls i :=
  List.flatMap_cons

variable [MemorySystem M] {w v w₁ v₁ d d' : Window M} {calls calls' : List (Call M)}
  {rs rs' : Nat → List Retirement} {n : Nat} {running : Running}

/-! ## Section 2: Calls, cycle by cycle -/

/-- The calls lead from one window to another, and `rs` leaves the threads meanwhile.  Here a call that runs
the window is made as often as it runs cycles, and once more when it stops. -/
inductive Unfolds : (calls : List (Call M)) → (w : Window M) → (rs : Nat → List Retirement) →
    (d : Window M) → Prop
  /-- No call is left. -/
  | done (w : Window M) : Unfolds [] w (fun _ => []) w
  /-- A thread is fed. -/
  | feed {call : Call M} {calls : List (Call M)} {w v d : Window M} {rs : Nat → List Retirement}
      (feeds : call.Feeds) (ends : ∀ i, call = .markEndOfStream i → handed calls i = [])
      (ran : call.perform toEvent w = .ok () v) (rest : Unfolds calls v rs d) :
      Unfolds (call :: calls) w rs d
  /-- The window runs a cycle. -/
  | cycle {running : Running} {calls : List (Call M)} {w v d : Window M} {rs : Nat → List Retirement}
      (runs : ∀ i < w.lanes.size, running.getD i false = true) (can : w.canExecute running = true)
      (ran : cycle toEvent running w = .ok () v) (rest : Unfolds (.execute running :: calls) v rs d) :
      Unfolds (.execute running :: calls) w (fun i => leavingInCycle running i w ++ rs i) d
  /-- The window stops. -/
  | stop {running : Running} {calls : List (Call M)} {w d : Window M} {rs : Nat → List Retirement}
      (runs : ∀ i < w.lanes.size, running.getD i false = true) (cannot : w.canExecute running = false)
      (rest : Unfolds calls w rs d) : Unfolds (.execute running :: calls) w rs d

/-- A cycle leaves all lanes where they are. -/
theorem size_cycle (h : cycle toEvent running w = .ok () v) : v.lanes.size = w.lanes.size := by
  have told := congrArg Array.size (told_cycle h)
  rwa [Window.told, Window.told, Array.size_map, Array.size_map] at told

theorem period_cycle (h : cycle toEvent running w = .ok () v) : v.clock.period = w.clock.period := by
  obtain ⟨u, event, clock, rfl⟩ := exists_advance_of_cycle h
  show u.clock.period = _
  rw [clock]

/-- No thread has anything to do. -/
def Drained (w : Window M) : Prop :=
  ∀ (i : Nat) (l : Lane M), w.lanes[i]? = some l → l.thread.ring.length = 0

theorem Unfolds.size_eq (h : Unfolds calls w rs d) : d.lanes.size = w.lanes.size := by
  induction h with
  | done w => rfl
  | feed feeds ends ran rest ih =>
    rw [ih]
    refine (Call.leads ran ?_).size_eq
    rintro i memory predictor rfl
    exact feeds
  | cycle runs can ran rest ih => exact ih.trans (size_cycle ran)
  | stop runs cannot rest ih => exact ih

/-- A stream that has ended before or is marked so has ended. -/
theorem Unfolds.ended {i : Nat} (h : Unfolds calls w rs d)
    (ends : w.Ended i ∨ .markEndOfStream i ∈ calls) : d.Ended i := by
  induction h with
  | done w => exact ends.resolve_right List.not_mem_nil
  | @feed call calls w v d rs feeds _ ran rest ih =>
    rcases ends with before | marked
    · exact ih (.inl (before.perform ran))
    · rcases List.mem_cons.mp marked with rfl | later
      · exact ih (.inl (ended_markEndOfStream ran))
      · exact ih (.inr later)
  | cycle runs can ran rest ih => exact ih (ends.imp_left fun before => before.of_told (told_cycle ran))
  | stop runs cannot rest ih =>
    refine ih (ends.imp_right fun marked => ?_)
    rcases List.mem_cons.mp marked with same | later
    · cases same
    · exact later

/-- If the window runs at last, it runs until it cannot go on. -/
theorem Unfolds.stopped (h : Unfolds calls w rs d) (last : calls.getLast? = some (.execute running)) :
    d.canExecute running = false ∧ ∀ i < d.lanes.size, running.getD i false = true := by
  induction h with
  | done w => cases last
  | @feed call calls w v d rs feeds _ ran rest ih =>
    cases calls with
    | nil =>
      cases last
      exact absurd feeds id
    | cons next calls => exact ih (by rwa [List.getLast?_cons_cons] at last)
  | cycle runs can ran rest ih => exact ih last
  | @stop _ calls w d rs runs cannot rest ih =>
    cases calls with
    | nil =>
      cases last
      cases rest
      exact ⟨cannot, runs⟩
    | cons next calls => exact ih (by rwa [List.getLast?_cons_cons] at last)

omit [MemorySystem M] in
/-- A window that cannot go on although all streams have ended has nothing left to do. -/
theorem drained_of_ended (cannot : w.canExecute running = false)
    (runs : ∀ i < w.lanes.size, running.getD i false = true) (ended : ∀ i < w.lanes.size, w.Ended i) :
    w.Drained := by
  have supplied : Nat.all w.lanes.size (fun i _ => w.isSupplied running i w.lanes[i]) = true := by
    rw [Nat.all_eq_finRange_all, List.all_eq_true]
    intro i _
    obtain ⟨l, found, closed⟩ := ended i i.isLt
    obtain ⟨_, rfl⟩ := Array.getElem?_eq_some_iff.mp found
    simp [isSupplied, Thread.isStarved, closed]
  intro i l found
  obtain ⟨hi, rfl⟩ := Array.getElem?_eq_some_iff.mp found
  unfold canExecute at cannot
  rw [supplied, Bool.true_and, Nat.any_eq_finRange_any, List.any_eq_false] at cannot
  have idle := cannot ⟨i, hi⟩ (List.mem_finRange _)
  dsimp only at idle
  unfold Thread.hasWork Thread.buffered at idle
  simp [runs i hi] at idle
  omega

omit [MemorySystem M] in
/-- A window that can go on has something to do. -/
theorem not_drained (can : w.canExecute running = true)
    (inside : ∀ (i : Nat) (l : Lane M), w.lanes[i]? = some l → l.thread.inWindow ≤ l.thread.ring.length) :
    ¬ w.Drained := by
  intro drained
  unfold canExecute at can
  rw [Bool.and_eq_true, Nat.any_eq_finRange_any, List.any_eq_true] at can
  obtain ⟨-, ⟨i, hi⟩, -, work⟩ := can
  have found : w.lanes[i]? = some w.lanes[i] := Array.getElem?_eq_getElem hi
  have bound := inside i _ found
  have none := drained i _ found
  unfold Thread.hasWork Thread.buffered at work
  simp at work
  omega

/-- A schedule leaves nothing to do. -/
theorem Unfolds.drained (h : Unfolds calls w rs d) (feeding : Feeding w.lanes.size calls) : d.Drained := by
  obtain ⟨running, last⟩ := feeding.last
  obtain ⟨cannot, runs⟩ := h.stopped last
  refine drained_of_ended cannot runs fun i hi => h.ended (.inr (feeding.marked i ?_))
  rw [← h.size_eq]
  exact hi

/-! ## Section 4: Two schedules -/

variable {answers : Nat → Answers}

/-- With `calls` yet to be made of `w` and `calls'` of `v`, both windows are abreast. -/
def AbreastBefore (answers : Nat → Answers) (calls calls' : List (Call M)) (w v : Window M) : Prop :=
  Abreast (LanesAbreast answers (toCome answers w.clock.period (handed calls))
    (toCome answers w.clock.period (handed calls')) w.clock.now) w v

namespace AbreastBefore

/-- The first window is fed. -/
theorem feed_left {call : Call M} (h : AbreastBefore answers (call :: calls) calls' w v)
    (feeds : call.Feeds) (ends : ∀ i, call = .markEndOfStream i → handed calls i = [])
    (ran : call.perform toEvent w = .ok () w₁) : AbreastBefore answers calls calls' w₁ v := by
  have onward := Call.onward ran feeds ends (le_refl _) fun i l found => by
    obtain ⟨l', -, lanes⟩ := rel_left (h.lanes i) found
    obtain ⟨_, threads⟩ := lanes.threads
    exact ⟨threads.left.predictor, lanes.memory⟩
  have clock : w₁.clock = w.clock := by rw [onward.frame]
  unfold AbreastBefore at h ⊢
  rw [clock]
  have whole : handed (call :: calls) = fun i => call.takesIn i ++ handed calls i :=
    funext (handed_cons call calls)
  rw [whole] at h
  exact Abreast.left_onward h onward

/-- The second window is fed. -/
theorem feed_right {call : Call M} (h : AbreastBefore answers calls (call :: calls') w v)
    (feeds : call.Feeds) (ends : ∀ i, call = .markEndOfStream i → handed calls' i = [])
    (ran : call.perform toEvent v = .ok () v₁) : AbreastBefore answers calls calls' w v₁ := by
  have same : v.clock = w.clock := h.clock_eq
  have onward := Call.onward ran feeds ends (le_refl _) fun i l found => by
    obtain ⟨l', -, lanes⟩ := rel_right (h.lanes i) found
    obtain ⟨_, threads⟩ := lanes.threads
    exact ⟨threads.right.predictor, lanes.memory'⟩
  rw [same] at onward
  unfold AbreastBefore at h ⊢
  have whole : handed (call :: calls') = fun i => call.takesIn i ++ handed calls' i :=
    funext (handed_cons call calls')
  rw [whole] at h
  exact Abreast.right_onward h onward

/-- Both windows run a cycle. -/
theorem cycle {running' : Running}
    (h : AbreastBefore answers (.execute running :: calls) (.execute running' :: calls') w v)
    (can : w.canExecute running = true) (can' : v.canExecute running' = true)
    (runs : ∀ i < w.lanes.size, running.getD i false = true)
    (runs' : ∀ i < v.lanes.size, running'.getD i false = true) (wide : 0 < w.config.core.dispatchWidth)
    (ran : Window.cycle toEvent running w = .ok () w₁)
    (ran' : Window.cycle toEvent running' v = .ok () v₁) :
    AbreastBefore answers (.execute running :: calls) (.execute running' :: calls') w₁ v₁ ∧
      ∀ i, (leavingInCycle running' i v).map Retirement.times =
        (leavingInCycle running i w).map Retirement.times := by
  obtain ⟨after, times⟩ := Abreast.cycle h can can'
    (fun i hi => ⟨runs i hi, runs' i (h.size_eq.symm ▸ hi)⟩) wide ran ran'
  refine ⟨?_, times⟩
  unfold AbreastBefore
  rw [period_cycle ran]
  exact after

/-- Corresponding threads have equally many micro-ops to go. -/
theorem length_eq {i : Nat} {l l' : Lane M} (h : AbreastBefore answers calls calls' w v)
    (found : w.lanes[i]? = some l) (found' : v.lanes[i]? = some l') :
    l'.thread.ring.length + (handed calls' i).length = l.thread.ring.length + (handed calls i).length := by
  obtain ⟨_, threads⟩ := (h.lane found found').threads
  have lengths := threads.length_eq
  unfold toCome at lengths
  rwa [List.length_map, List.length_map] at lengths

theorem drained_left (h : AbreastBefore answers calls [] w v) (drained : v.Drained) : w.Drained := by
  intro i l found
  obtain ⟨l', found', -⟩ := rel_left (h.lanes i) found
  have lengths := h.length_eq found found'
  have none := drained i l' found'
  unfold handed at lengths
  simp at lengths
  omega

theorem drained_right (h : AbreastBefore answers [] calls' w v) (drained : w.Drained) : v.Drained := by
  intro i l' found'
  obtain ⟨l, found, -⟩ := rel_right (h.lanes i) found'
  have lengths := h.length_eq found found'
  have none := drained i l found
  unfold handed at lengths
  simp at lengths
  omega

theorem not_drained_left (h : AbreastBefore answers calls calls' w v) (can : w.canExecute running = true) :
    ¬ w.Drained := by
  refine not_drained can fun i l found => ?_
  obtain ⟨l', -, lanes⟩ := rel_left (h.lanes i) found
  obtain ⟨_, threads⟩ := lanes.threads
  exact threads.left.inside

theorem not_drained_right (h : AbreastBefore answers calls calls' w v) (can : v.canExecute running = true) :
    ¬ v.Drained := by
  refine not_drained can fun i l' found' => ?_
  obtain ⟨l, -, lanes⟩ := rel_right (h.lanes i) found'
  obtain ⟨_, threads⟩ := lanes.threads
  exact threads.right.inside

/-- As long as the first window has something to do, the second one comes to its next cycle. -/
theorem reach (h : AbreastBefore answers calls calls' w v) (unfolds : Unfolds calls' v rs' d')
    (drained : d'.Drained) (busy : ¬ w.Drained) :
    ∃ running later v₁ v₂ rs₂, AbreastBefore answers calls (.execute running :: later) w v₁ ∧
      (∀ i < v₁.lanes.size, running.getD i false = true) ∧ v₁.canExecute running = true ∧
      Window.cycle toEvent running v₁ = .ok () v₂ ∧ Unfolds (.execute running :: later) v₂ rs₂ d' ∧
      ∀ i, rs' i = leavingInCycle running i v₁ ++ rs₂ i := by
  induction unfolds with
  | done v => exact absurd (h.drained_left drained) busy
  | feed feeds ends ran rest ih => exact ih (h.feed_right feeds ends ran) drained
  | cycle runs can ran rest ih => exact ⟨_, _, _, _, _, h, runs, can, ran, rest, fun _ => rfl⟩
  | stop runs cannot rest ih => exact ih h drained

/-- When the first window is done, nothing leaves the second one any more. -/
theorem finish (h : AbreastBefore answers [] calls' w v) (unfolds : Unfolds calls' v rs' d')
    (drained : w.Drained) : AbreastBefore answers [] [] w d' ∧ ∀ i, rs' i = [] := by
  induction unfolds with
  | done v => exact ⟨h, fun _ => rfl⟩
  | feed feeds ends ran rest ih => exact ih (h.feed_right feeds ends ran)
  | cycle runs can ran rest ih => exact absurd (h.drained_right drained) (h.not_drained_right can)
  | stop runs cannot rest ih => exact ih h

end AbreastBefore

/-- Two schedules do the same to windows abreast: the left one goes ahead step by step, and the right one
catches up with its cycles. -/
theorem Unfolds.agree (h : Unfolds calls w rs d) (unfolds : Unfolds calls' v rs' d')
    (abreast : AbreastBefore answers calls calls' w v) (wide : 0 < w.config.core.dispatchWidth)
    (drained : d.Drained) (drained' : d'.Drained) :
    AbreastBefore answers [] [] d d' ∧
      ∀ i, (rs' i).map Retirement.times = (rs i).map Retirement.times := by
  induction h generalizing calls' v rs' with
  | done w =>
    obtain ⟨finished, none⟩ := abreast.finish unfolds drained
    refine ⟨finished, fun i => ?_⟩
    rw [none]
  | @feed call calls w w₁ d rs feeds ends ran rest ih =>
    refine ih unfolds (abreast.feed_left feeds ends ran) ?_ drained
    rw [(Call.leads ran ?_).config]
    · exact wide
    · rintro i memory predictor rfl
      exact feeds
  | cycle runs can ran rest ih =>
    obtain ⟨running', later, v₁, v₂, rs₂, reached, runs', can', ran', rest', split⟩ :=
      abreast.reach unfolds drained' (abreast.not_drained_left can)
    obtain ⟨after, times⟩ := reached.cycle can can' runs runs' wide ran ran'
    rw [← (leads_cycle ran).config] at wide
    obtain ⟨finished, onwards⟩ := ih rest' after wide drained
    refine ⟨finished, fun i => ?_⟩
    rw [split, List.map_append, List.map_append, times, onwards]
  | stop runs cannot rest ih => exact ih unfolds abreast wide drained

/-! ## Section 5: New windows -/

/-- The calls that set up one thread for each of the memories, without branch predictors. -/
def setUp (memories : List M) : List (Call M) :=
  memories.mapIdx fun i memory => .initializeThread i memory none

/-- On the lanes are new threads without branch predictors, one for each of the memories. -/
structure Fresh (memories : List M) (w : Window M) : Prop where
  /-- There are as many lanes as memories. -/
  size : w.lanes.size = memories.length
  /-- The memories are in order, and the threads are new. -/
  lanes : ∀ (i : Nat) (l : Lane M), w.lanes[i]? = some l → memories[i]? = some l.memory ∧
    ∃ windowSize loadHistogram, Thread.new windowSize loadHistogram none = .ok l.thread

end Window

/-! ## Section 6: The theorem -/

namespace Chronicle

variable {M : Type} [MemorySystem M]

/-- A branch that was predicted wrongly, at which the window starts over, a load, and a chain of micro-ops
that wait for it. -/
def mispredicted : List OpInstance :=
  { op := { kind := .branch }, mispredicted := true } ::
    { op := { kind := .load, destinations := [1] }, address := 64 } ::
    List.replicate 18 { op := { sources := [1], destinations := [1], latency := 3 } }

end Chronicle

end CoreTiming
