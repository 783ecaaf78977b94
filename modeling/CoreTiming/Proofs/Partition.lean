import CoreTiming.Proofs.Stations
import Mathlib.Algebra.Order.BigOperators.Group.Finset
import Mathlib.Data.Nat.Count

/-!
# How the threads share the window

Every thread has a share of the window, and dispatches only while it holds less than that; a thread that does not
run does not dispatch at all.  `Window.Fits` is what follows for each thread, and every move of a cycle keeps it
(`Window.fits_cycle`).

Over all threads, the shares come to no more than the window.  But when the window is split anew, a thread keeps
what it holds, even if that is more than its new share, and a thread that has stopped keeps what it holds as well.
So the threads together may hold more than the window after such a change: by what each of them holds beyond its
share at that moment (`Window.excess`), and by no more.
-/

namespace CoreTiming

open Faulting

/-! ## Section 1: What a stage adds to a thread -/

namespace Thread

variable {config : Config} {clock : Clock} {th th' : Thread} {e : Entry} {forwarding free : Bool} {d : Dispatched}

theorem inWindow_fetchNext (clock : Clock) (e : Entry) (th : Thread) :
    (fetchNext clock e th).2.inWindow = th.inWindow := by
  rw [fetchNext_frame]

/-- An attempt to dispatch brings an entry into the window if it takes a reservation station. -/
theorem Attempt.inWindow_eq (h : Attempt forwarding clock free th d th') :
    th'.inWindow = th.inWindow + d.stations := by
  cases h with
  | empty => rfl
  | fetch | full | loads => exact inWindow_fetchNext clock _ th
  | @enter e e' th₁ next fetched station linked =>
    show th₁.inWindow + 1 = th.inWindow + 1
    rw [show th₁.inWindow = (fetchNext clock e th).2.inWindow by rw [(linked_link linked).thread],
      inWindow_fetchNext]

theorem Dispatched.stations_le (d : Dispatched) : d.stations ≤ 1 := by
  cases d with
  | blocked => exact Nat.zero_le 1
  | entered => exact le_refl 1

/-- Nothing leaves the window in the dispatch stage. -/
theorem Admission.le_inWindow (h : Admission config clock th th') : th.inWindow ≤ th'.inWindow := by
  cases h with
  | begin => exact le_refl _
  | attempt awake tried =>
    rw [(attempt_of_ok tried).inWindow_eq]
    exact Nat.le_add_right _ _
  | blame cause => exact le_refl _

theorem le_inWindow_of_admissions (h : Relation.ReflTransGen (Admission config clock) th th') :
    th.inWindow ≤ th'.inWindow := by
  induction h with
  | refl => exact le_refl _
  | tail _ step ih => exact ih.trans step.le_inWindow

/-- What issues stays in the window. -/
theorem Firing.inWindow_eq (h : Firing config clock th th') : th'.inWindow = th.inWindow := by
  cases h with
  | issue _ _ _ _ asked started =>
    rw [(start_eq_ok started).1]
    exact asked.same.2.2
  | account cutoff n => exact (sameFlow_accountLongLoad cutoff clock.now n th).inWindow
  | look event => rfl

theorem inWindow_of_firings (h : Relation.ReflTransGen (Firing config clock) th th') :
    th'.inWindow = th.inWindow := by
  induction h with
  | refl => rfl
  | tail _ step ih => exact step.inWindow_eq.trans ih

end Thread

/-- What leaves makes the window no longer. -/
theorem Account.Leave.inWindow_le {config : Config} {a b : Account} (h : Leave config a b) :
    b.thread.inWindow ≤ a.thread.inWindow := by
  cases h with
  | retire => exact Nat.sub_le _ _
  | flush _ _ _ flushed =>
    rw [(Thread.flush_eq_ok flushed).2.2.2]
    exact Nat.zero_le _

namespace Window

variable {M : Type} {w v x : Window M} {i : Nat} {runs : Nat → Prop} {bound : Nat → Nat} {running : Running}

/-! ## Section 2: Threads that keep within bounds -/

/-- Thread `i` holds at most `bound i` entries, and has no larger share if it is one of those that run. -/
structure Fits (runs : Nat → Prop) (bound : Nat → Nat) (w : Window M) : Prop where
  /-- No thread holds more. -/
  held : ∀ (i : Nat) (l : Lane M), w.lanes[i]? = some l → l.thread.inWindow ≤ bound i
  /-- None that runs may come to hold more. -/
  granted : ∀ i : Nat, runs i → w.share ≤ bound i

theorem Fits.setLane {l' : Lane M} (h : w.Fits runs bound) (share : v.share = w.share)
    (lanes : v.lanes = w.lanes.setIfInBounds i l') (le : l'.thread.inWindow ≤ bound i) :
    v.Fits runs bound := by
  refine ⟨fun j l found => ?_, fun j active => share ▸ h.granted j active⟩
  rw [lanes] at found
  by_cases same : i = j
  · subst same
    rw [Array.getElem?_setIfInBounds_self] at found
    split at found
    · cases found
      exact le
    · cases found
  · rw [Array.getElem?_setIfInBounds_ne same] at found
    exact h.held j l found

/-- Threads that hold no more than before keep within bounds. -/
theorem Fits.of_lanes {R : Lane M → Lane M → Prop} (h : w.Fits runs bound) (share : v.share = w.share)
    (lanes : ∀ i : Nat, Option.Rel R w.lanes[i]? v.lanes[i]?)
    (le : ∀ {l l'}, R l l' → l'.thread.inWindow ≤ l.thread.inWindow) : v.Fits runs bound := by
  refine ⟨fun i l' found' => ?_, fun i active => share ▸ h.granted i active⟩
  obtain ⟨l, found, related⟩ := rel_right (lanes i) found'
  exact (le related).trans (h.held i l found)

variable [MemorySystem M]

theorem Fits.onThread {α : Type} {f : Faulting Thread α} {a : α} (h : w.Fits runs bound)
    (ran : onThread i f w = .ok a v)
    (le : ∀ l th, w.lanes[i]? = some l → f l.thread = .ok a th → th.inWindow ≤ bound i) :
    v.Fits runs bound := by
  obtain ⟨l, th, found, did, rfl⟩ := onThread_eq_ok.mp ran
  exact h.setLane rfl rfl (le l th found did)

theorem Fits.modifyThread {f : Thread → Thread} (h : w.Fits runs bound)
    (ran : modifyThread i f w = .ok () v) (same : ∀ th : Thread, (f th).inWindow = th.inWindow) :
    v.Fits runs bound := by
  refine h.onThread ran fun l th found did => ?_
  rw [← modify_eq_ok.mp did, same]
  exact h.held i l found

/-! ## Section 3: The dispatch stage -/

/-- A lane dispatches only while it holds less than its share. -/
theorem Fits.dispatchUpTo {width : Nat} {any : Bool} {event : Time} {result : Bool × Time}
    (h : w.Fits runs bound) (active : runs i)
    (moved : dispatchUpTo i width any event w = .ok result v) : v.Fits runs bound := by
  induction width generalizing any event w with
  | zero =>
    obtain ⟨-, rfl⟩ := pure_eq_ok.mp moved
    exact h
  | succ width ih =>
    obtain ⟨l₁, found₁, goes⟩ := dispatching_of_dispatchUpTo moved
    have tries : l₁.thread.inWindow < w.share → ∀ {d : Thread.Dispatched} {x : Window M} {free : Bool},
        Window.onThread i (Thread.dispatchOne w.config.window.forwarding w.clock free) w = .ok d x →
          x.Fits runs bound := by
      intro room d x free tried
      refine h.onThread tried fun l th' found ran => ?_
      obtain rfl : l = l₁ := Option.some.inj (found.symm.trans found₁)
      calc th'.inWindow = l.thread.inWindow + d.stations := (Thread.attempt_of_ok ran).inWindow_eq
        _ ≤ l.thread.inWindow + 1 := Nat.add_le_add_left d.stations_le _
        _ ≤ w.share := room
        _ ≤ bound i := h.granted i active
    cases goes with
    | nothing _ _ same => exact same ▸ h
    | blocked room _ tried => exact tries room tried
    | @entered ready w₁ room _ tried rest =>
      have h₁ := tries room tried
      have h₂ : { w₁ with stationsUsed := w₁.stationsUsed + 1 }.Fits runs bound := ⟨h₁.held, h₁.granted⟩
      exact ih h₂ rest

theorem Fits.dispatchLane {event : Time} {result : Bool × Time} (h : w.Fits runs bound)
    (active : runs i) (moved : dispatchLane i event w = .ok result v) :
    v.Fits runs bound := by
  obtain ⟨w₁, event', lane, begun, dispatched, -⟩ := dispatchLane_eq_ok moved
  exact (h.modifyThread begun fun _ => rfl).dispatchUpTo active dispatched

/-- A lane dispatches only if its thread runs. -/
theorem Fits.dispatchTurnOf {round round' : DispatchRound} (h : w.Fits runs bound)
    (heeds : ∀ i, running.getD i false = true → runs i)
    (moved : dispatchTurnOf running round i w = .ok round' v) : v.Fits runs bound := by
  obtain ⟨lane, -, turn⟩ := dispatchTurn_of_dispatchTurnOf moved
  cases turn with
  | stalled _ blamed | idle _ _ blamed | full _ _ _ _ blamed | taken _ _ _ _ _ blamed =>
    exact h.modifyThread blamed fun _ => rfl
  | slot _ runs _ _ _ dispatched blamed =>
    exact (h.dispatchLane (heeds i runs) dispatched).modifyThread blamed fun _ => rfl

theorem Fits.dispatch {event : Time} (h : w.Fits runs bound) (heeds : ∀ i, running.getD i false = true → runs i)
    (moved : dispatch running w = .ok event v) : v.Fits runs bound := by
  obtain ⟨round, w₁, turns, -, rfl⟩ := dispatch_eq_ok moved
  have after : w₁.Fits runs bound := keeps_of_foldlM turns (fun turn h => h.dispatchTurnOf heeds turn) h
  exact ⟨after.held, after.granted⟩

/-! ## Section 4: A whole cycle -/

theorem Fits.fire (h : w.Fits runs bound) (fired : Fire w v) : v.Fits runs bound := by
  have worked := fired.firings
  refine h.of_lanes worked.share (fun i => ?_) (R := fun l l' => l'.thread.inWindow ≤ l.thread.inWindow) id
  have related := worked.lanes i
  rw [Array.getElem?_toList, Array.getElem?_toList] at related
  exact rel_mono (fun l l' steps => (Thread.inWindow_of_firings steps).le) related

theorem Fits.commitLane (h : w.Fits runs bound) (ran : commitLane i w = .ok () v) : v.Fits runs bound := by
  have leads := leads_commitLane ran
  have share : v.share = w.share := by
    obtain ⟨_, _, _, -, -, rfl⟩ := commitLane_eq_ok ran
    rfl
  refine h.of_lanes share (fun i => rel_mono (fun l l' steps => ?_) (leads.lanes i))
    (R := fun l l' => l'.thread.inWindow ≤ l.thread.inWindow) id
  exact steps.keeps (P := fun a => a.thread.inWindow ≤ l.thread.inWindow)
    (fun left le => left.inWindow_le.trans le) [] [] (le_refl _)

omit [MemorySystem M] in
theorem Fits.advance (h : w.Fits runs bound) (span : Time) : (w.advance span).Fits runs bound := by
  refine h.of_lanes rfl (fun i => ?_) (R := fun l l' => l'.thread.inWindow ≤ l.thread.inWindow) id
  show Option.Rel _ w.lanes[i]? (w.lanes.map _)[i]?
  rw [Array.getElem?_map]
  refine rel_map (fun _ => ?_) _
  exact le_refl _

/-- Moves of a cycle, after each of which the window has the property `P`. -/
abbrev MovesWithin (P : Window M → Prop) : Window M → Window M → Prop :=
  Relation.ReflTransGen fun w v => Move w v ∧ P v

/-- Entries only enter in the dispatch stage, so bounds that hold at its end hold on the way. -/
theorem fits_admits (admits : Admits w v) (h : v.Fits runs bound) : MovesWithin (Fits runs bound) w v := by
  induction admits with
  | refl => exact .refl
  | @tail u v before admitted ih =>
    have worked := admitted.admissions
    refine (ih ⟨fun i l found => ?_, fun i active => worked.share ▸ h.granted i active⟩).tail ⟨.dispatch admitted, h⟩
    obtain ⟨l', found', steps⟩ := worked.lanes.left (by rwa [Array.getElem?_toList])
    rw [Array.getElem?_toList] at found'
    exact (Thread.le_inWindow_of_admissions steps).trans (h.held i l' found')

theorem fits_fires (fires : Fires w v) (h : w.Fits runs bound) :
    v.Fits runs bound ∧ MovesWithin (Fits runs bound) w v := by
  induction fires with
  | refl => exact ⟨h, .refl⟩
  | tail _ fired ih => exact ⟨ih.1.fire fired, ih.2.tail ⟨.issue fired, ih.1.fire fired⟩⟩

theorem fits_commitLanes {lanes : List Nat} (ran : lanes.forM Window.commitLane w = .ok () v)
    (h : w.Fits runs bound) : v.Fits runs bound ∧ MovesWithin (Fits runs bound) w v := by
  induction lanes generalizing w with
  | nil =>
    obtain ⟨-, rfl⟩ := pure_eq_ok.mp ran
    exact ⟨h, .refl⟩
  | cons i rest ih =>
    obtain ⟨⟨⟩, w₁, first, ran⟩ := bind_eq_ok.mp ran
    obtain ⟨fits, path⟩ := ih ran (h.commitLane first)
    exact ⟨fits, .head ⟨.commit first, h.commitLane first⟩ path⟩

/-- At every point of a cycle, threads keep within the bounds within which they were at its beginning. -/
theorem fits_cycle {stride : Stride M} (ran : cycle stride running w = .ok () v)
    (heeds : ∀ i, running.getD i false = true → runs i) (h : w.Fits runs bound) :
    v.Fits runs bound ∧
      ∃ (x : Window M) (span : Time), MovesWithin (Fits runs bound) w x ∧ v = x.advance span := by
  obtain ⟨_, _, _, w₁, w₂, w₃, dispatched, issued, committed, rfl⟩ := stages_of_cycle ran
  have h₁ := h.dispatch heeds dispatched
  obtain ⟨h₂, path₂⟩ := fits_fires (fires_issue issued) h₁
  obtain ⟨h₃, path₃⟩ := fits_commitLanes (commit_eq_ok committed) h₂
  refine ⟨h₃.advance _, w₃, _, ?_, rfl⟩
  calc MovesWithin (Fits runs bound) w w₁ := fits_admits (admits_dispatch dispatched) h₁
    MovesWithin (Fits runs bound) w₁ w₂ := path₂
    MovesWithin (Fits runs bound) w₂ w₃ := path₃

theorem Visits.fits (visits : w.Visits running v) (heeds : ∀ i, running.getD i false = true → runs i)
    (h : w.Fits runs bound) : v.Fits runs bound := by
  induction visits with
  | refl => exact h
  | tail _ turn ih => exact (fits_cycle turn.2 heeds ih).1

/-! ## Section 5: What the shares come to -/

omit [MemorySystem M] in
theorem total_le_sum {f : Thread → Nat} (le : ∀ (i : Nat) (l : Lane M), w.lanes[i]? = some l → f l.thread ≤ bound i) :
    w.total f ≤ ∑ i ∈ Finset.range w.lanes.size, bound i := by
  simp only [← Array.getElem?_toList, ← Array.length_toList] at le ⊢
  unfold total
  generalize w.lanes.toList = lanes at le
  induction lanes using List.reverseRecOn with
  | nil => exact Nat.zero_le _
  | append_singleton lanes l ih =>
    rw [List.map_append, List.sum_append, List.length_append, List.map_singleton, List.sum_singleton,
      List.length_singleton, Finset.sum_range_succ]
    refine Nat.add_le_add (ih fun i x found => ?_) (le _ l (by simp))
    have inside := (List.getElem?_eq_some_iff.mp found).1
    exact le i x (by rwa [List.getElem?_append_left inside])

/-- No more threads run than there are flags that say so. -/
theorem count_running_le (flags : List Bool) (n : Nat) :
    Nat.count (fun i => flags.getD i false = true) n ≤ flags.count true := by
  induction flags generalizing n with
  | nil => simp
  | cons flag flags ih =>
    cases n with
    | zero => simp
    | succ n =>
      rw [Nat.count_succ', List.count_cons]
      have rest := ih n
      simp only [List.getD_cons_succ, List.getD_cons_zero, beq_iff_eq] at rest ⊢
      omega

/-- As many shares as the window was split into come to no more than the window. -/
theorem mul_share_le {n parts size : Nat} (le : n ≤ parts) (fits : n ≤ size) : n * max (size / max parts 1) 1 ≤ size := by
  rcases le_total (size / max parts 1) 1 with small | large
  · rw [max_eq_right small, Nat.mul_one]
    exact fits
  · rw [max_eq_left large]
    calc n * (size / max parts 1) ≤ max parts 1 * (size / max parts 1) :=
          Nat.mul_le_mul_right _ (le.trans (le_max_left _ _))
      _ ≤ size := Nat.mul_div_le _ _

/-- The entries that thread `i` holds. -/
def held (w : Window M) (i : Nat) : Nat := (w.lanes[i]?.map (·.thread.inWindow)).getD 0

/-- The part of the window that thread `i` may use. -/
def allotment (running : Running) (w : Window M) (i : Nat) : Nat := if running.getD i false then w.share else 0

/-- What the threads hold beyond the parts of the window that they may use. -/
def excess (running : Running) (w : Window M) : Nat :=
  ∑ i ∈ Finset.range w.lanes.size, (w.held i - w.allotment running i)

omit [MemorySystem M] in
theorem sum_allotment (running : Running) (w : Window M) (n : Nat) :
    ∑ i ∈ Finset.range n, w.allotment running i =
      Nat.count (fun i => running.toList.getD i false = true) n * w.share := by
  have flags : ∀ i : Nat, running.getD i false = running.toList.getD i false := fun i => by
    rw [Array.getD_eq_getD_getElem?, List.getD_eq_getElem?_getD, Array.getElem?_toList]
  simp only [allotment, flags]
  rw [Nat.count_eq_card_filter_range, ← Finset.sum_filter]
  exact Finset.sum_const_nat fun _ _ => rfl

omit [MemorySystem M] in
/-- The parts of the window that the threads may use come to no more than the window. -/
theorem sum_allotment_le {n : Nat} (few : n ≤ w.config.core.smtThreads) (fits : n ≤ w.config.core.windowSize) :
    ∑ i ∈ Finset.range n, (w.repartition running).allotment running i ≤ w.config.core.windowSize := by
  have count_le := Nat.count_le (fun i => running.toList.getD i false = true) (n := n)
  rw [sum_allotment]
  unfold repartition
  dsimp only
  split
  · refine mul_share_le ?_ (count_le.trans fits)
    rw [← Array.count_toList]
    exact count_running_le running.toList n
  · exact mul_share_le (count_le.trans few) (count_le.trans fits)

/-! ## Section 6: The threads together -/

theorem Move.size_eq (h : Move w v) : v.lanes.size = w.lanes.size := by
  cases h with
  | dispatch admitted => simpa using admitted.worked.lanes.length_eq
  | issue fired => simpa using fired.worked.lanes.length_eq
  | commit committed => exact (leads_commitLane committed).size_eq

/-- In the window, and at every point of a run that begins with it, the threads together hold at most `n`
entries. -/
def HoldsAtMost (running : Running) (n : Nat) (w : Window M) : Prop :=
  ∀ v, w.Visits running v → v.total (·.inWindow) ≤ n ∧ ∀ x, cycle toEvent running v = .ok () x →
    ∃ (y : Window M) (span : Time), MovesWithin (fun u => u.total (·.inWindow) ≤ n) v y ∧ x = y.advance span

theorem Fits.holdsAtMost {n : Nat} (h : w.Fits runs bound) (heeds : ∀ i, running.getD i false = true → runs i)
    (le : ∑ i ∈ Finset.range w.lanes.size, bound i ≤ n) : w.HoldsAtMost running n := by
  intro v visits
  have fits := visits.fits heeds h
  rw [← visits.size_eq] at le
  refine ⟨(total_le_sum fits.held).trans le, fun x ran => ?_⟩
  obtain ⟨-, y, span, path, rfl⟩ := fits_cycle ran heeds fits
  refine ⟨y, span, ?_, rfl⟩
  -- no lane comes or goes on the way
  have sized : y.lanes.size = v.lanes.size ∧ MovesWithin (fun u => u.total (·.inWindow) ≤ n) v y := by
    clear ran
    induction path with
    | refl => exact ⟨rfl, .refl⟩
    | tail _ step ih =>
      have size := step.1.size_eq.trans ih.1
      refine ⟨size, ih.2.tail ⟨step.1, (total_le_sum step.2.held).trans ?_⟩⟩
      rwa [size]
  exact sized.2

/-! ## Section 7: Calls -/

/-- Only a call that says so splits the window anew. -/
theorem Call.share_eq {stride : Stride M} {call : Call M} (h : call.perform stride w = .ok () v)
    (idle : ∀ running, call ≠ .execute running) (keeps : ∀ running, call ≠ .repartition running) :
    v.share = w.share := by
  cases call with
  | initializeThread i memory predictor =>
    obtain ⟨-, th, -, rfl⟩ := initializeThread_eq_ok h
    rfl
  | push i us =>
    obtain ⟨_, _, -, -, rfl⟩ := push_eq_ok h
    rfl
  | execute running => exact absurd rfl (idle running)
  | synchronize i time =>
    obtain ⟨w₁, now, moved, -, -, rfl⟩ := synchronize_eq_ok h
    obtain ⟨_, -, rfl⟩ := modifyThread_eq_ok.mp moved
    rfl
  | returnLatency i inWakeup =>
    obtain ⟨_, -, rfl⟩ := modifyThread_eq_ok.mp (Call.told_of_returnLatency h)
    rfl
  | markEndOfStream i =>
    have marked : Window.markEndOfStream i w = .ok () v := h
    obtain ⟨_, -, rfl⟩ := modifyThread_eq_ok.mp marked
    rfl
  | repartition running => exact absurd rfl (keeps running)

/-- No thread runs in the call that `runs` says not to run. -/
def Call.Heeds (runs : Nat → Prop) : Call M → Prop
  | .execute running => ∀ i, running.getD i false = true → runs i
  | _ => True

/-- A call keeps threads within bounds if those that run in it are among `runs` and it gives them no larger share
than that. -/
theorem Fits.perform {call : Call M} (h : w.Fits runs bound) (heeds : call.Heeds runs)
    (splits : ∀ running, call = .repartition running → ∀ i, runs i → (w.repartition running).share ≤ bound i)
    (ran : call.perform toEvent w = .ok () v) : v.Fits runs bound := by
  cases call.kind with
  | initializeThread i memory predictor =>
    obtain ⟨-, th, made, rfl⟩ := initializeThread_eq_ok ran
    obtain ⟨capacity, rfl⟩ := Thread.new_eq_ok made
    refine ⟨fun j l found => ?_, h.granted⟩
    dsimp only at found
    rw [Array.getElem?_push] at found
    split at found
    · cases found
      exact Nat.zero_le _
    · exact h.held j l found
  | execute running => exact (visits_of_run ran).fits heeds h
  | other old idle =>
    have grows := Call.grows ran old idle
    by_cases split : ∃ running, call = .repartition running
    · obtain ⟨running, rfl⟩ := split
      obtain rfl := modify_eq_ok.mp ran
      exact ⟨h.held, splits running rfl⟩
    · refine h.of_lanes (Call.share_eq ran idle fun running same => split ⟨running, same⟩) (fun i => ?_)
        fun {l l'} (grown : l.thread.Grows l'.thread) => grown.inWindow.le
      have related := grows.lanes i
      rwa [Array.getElem?_toList, Array.getElem?_toList] at related

end Window

namespace Chronicle

variable {M : Type} [MemorySystem M] {config : Config} {c c₀ : Chronicle M} {calls : List (Window.Call M)}

/-- The share of a thread if the window is split between all that are configured. -/
def evenShare (config : Config) : Nat := max (config.core.windowSize / max config.core.smtThreads 1) 1

/-- As long as the window is split between all threads that are configured, none of them holds more than its
part of it. -/
theorem fits_evenShare (made : of Window.toEvent config calls = .ok c)
    (even : config.window.repartition = false ∨ ∀ running, .repartition running ∉ calls) :
    c.window.Fits (fun _ => True) fun _ => evenShare config := by
  refine induction_of (P := fun calls c =>
      (config.window.repartition = false ∨ ∀ running, .repartition running ∉ calls) →
        c.window.Fits (fun _ => True) fun _ => evenShare config)
    (fun w new _ => ?_) (fun {calls c call c'} start ih step even => ?_) made even
  · obtain ⟨period, rfl⟩ := Window.new_eq_ok new
    exact ⟨fun i l found => by simp at found, fun _ _ => le_refl _⟩
  · obtain ⟨v, performed, rfl⟩ := after_eq_ok.mp step
    have before := ih (even.imp_right fun none running mem => none running (List.mem_append_left _ mem))
    refine before.perform ?_ (fun running same i _ => ?_) performed
    · cases call with
      | execute running => exact fun _ _ => trivial
      | _ => trivial
    · subst same
      rcases even with off | none
      · rw [Window.repartition, (truthful_of start).config_eq, off]
        exact le_refl _
      · exact absurd (List.mem_append_right _ (List.mem_singleton_self _)) (none running)

theorem fits_foldlM {runs : Nat → Prop} {bound : Nat → Nat} (heeds : ∀ call ∈ calls, call.Heeds runs)
    (once : ∀ running, .repartition running ∉ calls) (h : c₀.window.Fits runs bound)
    (made : calls.foldlM (after Window.toEvent) c₀ = .ok c) : c.window.Fits runs bound := by
  refine Except.keeps_of_foldlM (P := fun c => c.window.Fits runs bound) made (fun {_ call _} mem step fits => ?_) h
  obtain ⟨v, performed, rfl⟩ := after_eq_ok.mp step
  refine fits.perform (heeds call mem) (fun running same => ?_) performed
  exact absurd (same ▸ mem) (once running)

/-- Cycles run with the flags that the window was last told of, at first those of `told`. -/
def Reported : (told : Option Running) → List (Window.Call M) → Prop
  | _, [] => True
  | told, call :: rest =>
    match call with
    | .repartition running => Reported (some running) rest
    | .execute running => (∀ flags, told = some flags → running = flags) ∧ Reported told rest
    | _ => Reported told rest

omit [MemorySystem M] in
theorem Reported.heeds {told : Option Running} {running : Running} {before later : List (Window.Call M)}
    (h : Reported told (before ++ .repartition running :: later)) (once : ∀ running, .repartition running ∉ later) :
    ∀ call ∈ later, call.Heeds fun i => running.getD i false = true := by
  induction before generalizing told with
  | cons call rest ih =>
    cases call with
    | repartition running' => exact ih h
    | execute running' => exact ih h.2
    | _ => exact ih h
  | nil =>
    replace h : Reported (some running) later := h
    induction later with
    | nil => simp
    | cons call rest ih =>
      have once' : ∀ running', .repartition running' ∉ rest := fun running' mem =>
        once running' (List.mem_cons_of_mem _ mem)
      intro call' mem
      cases call with
      | repartition running' => exact absurd List.mem_cons_self (once running')
      | execute running' =>
        rcases List.mem_cons.mp mem with rfl | mem
        · obtain rfl := h.1 running rfl
          exact fun i flag => flag
        · exact ih once' h.2 _ mem
      | _ =>
        rcases List.mem_cons.mp mem with rfl | mem
        · trivial
        · exact ih once' h _ mem

/-- As long as the window is split between all threads that are configured, the threads together hold no more than
the window.  Once it is split anew, between those that run, they hold at most what some of them held beyond their
new shares at that moment more than that: after any calls, with every cycle of a run, and at every point of such a
cycle. -/
theorem window_shared {told : Option Running} (made : of Window.toEvent config calls = .ok c)
    (room : config.core.smtThreads ≤ config.core.windowSize) (few : c.window.lanes.size ≤ config.core.smtThreads)
    (reported : Reported told calls) :
    ((config.window.repartition = false ∨ ∀ running, .repartition running ∉ calls) →
      ∀ running, c.window.HoldsAtMost running config.core.windowSize) ∧
    ∀ (before later : List (Window.Call M)) (running : Running) (c₀ : Chronicle M),
      calls = before ++ .repartition running :: later → (∀ running, .repartition running ∉ later) →
      of Window.toEvent config (before ++ [.repartition running]) = .ok c₀ →
        c.window.HoldsAtMost running (config.core.windowSize + c₀.window.excess running) := by
  refine ⟨fun even running => ?_, fun before later running c₀ split once made₀ => ?_⟩
  · refine (fits_evenShare made even).holdsAtMost (fun _ _ => trivial) ?_
    rw [Finset.sum_const_nat fun _ _ => rfl, Finset.card_range]
    exact Window.mul_share_le few (few.trans room)
  · -- each thread keeps what it holds at that moment, and may come to hold its new share
    have path : of Window.toEvent config ((before ++ [.repartition running]) ++ later) = .ok c := by
      rwa [List.append_assoc, List.singleton_append, ← split]
    obtain ⟨c₁, made₁, path⟩ := of_append path
    obtain rfl : c₀ = c₁ := Except.ok.inj (made₀.symm.trans made₁)
    have fits₀ : c₀.window.Fits (fun i => running.getD i false = true)
        fun i => max (c₀.window.held i) (c₀.window.allotment running i) := by
      refine ⟨fun i l found => le_max_of_le_left ?_, fun i flag => le_max_of_le_right ?_⟩
      · simp [Window.held, found]
      · simp only [Window.allotment, flag, if_true, le_refl]
    have fits := fits_foldlM (Reported.heeds (split ▸ reported) once) once fits₀ path
    refine fits.holdsAtMost (fun _ => id) ?_
    have shares : ∑ i ∈ Finset.range c.window.lanes.size, c₀.window.allotment running i ≤ config.core.windowSize := by
      obtain ⟨c₂, start, last⟩ := of_concat_eq_ok.mp made₀
      obtain ⟨v, performed, rfl⟩ := after_eq_ok.mp last
      obtain rfl := modify_eq_ok.mp performed
      rw [← (truthful_of start).config_eq] at room few ⊢
      exact Window.sum_allotment_le few (few.trans room)
    have beyond : ∑ i ∈ Finset.range c.window.lanes.size, (c₀.window.held i - c₀.window.allotment running i) ≤
        c₀.window.excess running := by
      refine Finset.sum_le_sum_of_ne_zero fun i _ some => ?_
      -- where there was no thread, nothing was held
      rw [Finset.mem_range]
      by_contra outside
      simp [Window.held, Array.getElem?_eq_none (not_lt.mp outside)] at some
    calc ∑ i ∈ Finset.range c.window.lanes.size, max (c₀.window.held i) (c₀.window.allotment running i)
        = ∑ i ∈ Finset.range c.window.lanes.size,
            (c₀.window.allotment running i + (c₀.window.held i - c₀.window.allotment running i)) :=
          Finset.sum_congr rfl fun i _ => by omega
      _ ≤ config.core.windowSize + c₀.window.excess running := by
          rw [Finset.sum_add_distrib]
          exact Nat.add_le_add shares beyond

/-- A core with a small window for two threads. -/
def smallCore (repartition : Bool) : Config :=
  { core := { smtThreads := 2, windowSize := 32 }, window := { repartition } }

/-- A slow micro-op and `n` fast ones, which cannot leave the window before it. -/
def heldUp (n : Nat) : List OpInstance :=
  { op := { latency := 20 } } :: List.replicate n { op := { latency := 1 } }

/-- At first thread 0 runs alone. -/
def aloneAtFirst : List (Window.Call FixedMemory) :=
  Window.setUp [default, default] ++
    [.repartition #[true, false], .push 0 (heldUp 34), .execute #[true, false]]

/-- Then thread 1 starts. -/
def joined : List (Window.Call FixedMemory) := [.push 1 (heldUp 18), .execute bothRun]

theorem reported_joined : Reported none (aloneAtFirst ++ .repartition bothRun :: joined) := by
  simp [aloneAtFirst, joined, Window.setUp, Reported]

/-- Two threads hold forty entries in a window for thirty-two: when the second one starts, the first one keeps what
it holds. -/
theorem holds_more_than_window :
    ∃ c : Chronicle FixedMemory, (smallCore true).validate = .ok () ∧
      Reported none (aloneAtFirst ++ .repartition bothRun :: joined) ∧
      of Window.toEvent (smallCore true) (aloneAtFirst ++ .repartition bothRun :: joined) = .ok c ∧
      c.window.lanes.size = (smallCore true).core.smtThreads ∧
      (smallCore true).core.smtThreads ≤ (smallCore true).core.windowSize ∧
      (smallCore true).core.windowSize < c.window.total (·.inWindow) := by
  have computed : ((ofWithin Window.toEvent 40 (smallCore true)
      (aloneAtFirst ++ .repartition bothRun :: joined)).map fun c =>
        (c.window.lanes.size, c.window.total (·.inWindow))) = some (2, 40) := by
    decide +kernel
  obtain ⟨c, made, seen⟩ := exists_of_computed computed
  obtain ⟨size, total⟩ := Prod.mk.inj seen
  refine ⟨c, by decide +kernel, reported_joined, made, size, by decide, ?_⟩
  rw [total]
  decide

/-- The first thread holds twelve entries more than its new share when the second one starts.  If the window is split
between all threads from the beginning, it never comes to that. -/
theorem window_shared_with_late_thread :
    (∃ c₀ c : Chronicle FixedMemory,
      of Window.toEvent (smallCore true) (aloneAtFirst ++ [.repartition bothRun]) = .ok c₀ ∧
      c₀.window.excess bothRun = 12 ∧
      of Window.toEvent (smallCore true) (aloneAtFirst ++ .repartition bothRun :: joined) = .ok c ∧
      c.window.HoldsAtMost bothRun (32 + 12)) ∧
    ∃ c : Chronicle FixedMemory,
      of Window.toEvent (smallCore false) (aloneAtFirst ++ .repartition bothRun :: joined) = .ok c ∧
      c.window.HoldsAtMost bothRun 32 := by
  have before : ((ofWithin Window.toEvent 40 (smallCore true) (aloneAtFirst ++ [.repartition bothRun])).map fun c =>
      c.window.excess bothRun) = some 12 := by
    decide +kernel
  have after : ((ofWithin Window.toEvent 40 (smallCore true)
      (aloneAtFirst ++ .repartition bothRun :: joined)).map fun c => c.window.lanes.size) = some 2 := by
    decide +kernel
  have even : ((ofWithin Window.toEvent 40 (smallCore false)
      (aloneAtFirst ++ .repartition bothRun :: joined)).map fun c => c.window.lanes.size) = some 2 := by
    decide +kernel
  obtain ⟨c₀, made₀, excess⟩ := exists_of_computed before
  obtain ⟨c, made, size⟩ := exists_of_computed after
  obtain ⟨c', made', size'⟩ := exists_of_computed even
  have once : ∀ running, Window.Call.repartition running ∉ joined := by simp [joined]
  have shared := window_shared made (by decide) (le_of_eq size) reported_joined
  have shared' := window_shared made' (by decide) (le_of_eq size') reported_joined
  refine ⟨⟨c₀, c, made₀, excess, made, ?_⟩, c', made', shared'.1 (.inl rfl) bothRun⟩
  have held := shared.2 aloneAtFirst joined bothRun c₀ rfl once made₀
  rwa [excess] at held

end Chronicle

end CoreTiming
