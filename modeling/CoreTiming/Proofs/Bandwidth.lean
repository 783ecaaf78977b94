import CoreTiming.Proofs.Completion
import CoreTiming.Proofs.Stamping

/-!
# Bandwidth and order

What has left the threads of a window is on record with the times of its passage.  The records show the limits
of the pipeline: how many micro-ops are dispatched, issue and commit at a time, and in which threads; and they
show its order: in each thread, micro-ops are dispatched and commit in program order, and each of them issues,
is done and commits in this order.

A stage only stamps the present time, and only so often (`Window.Entered`, `Window.Issued`), and every cycle
moves the clock.  So what holds of the stamps of one cycle holds of all stamps that show its time.
-/

namespace CoreTiming

open Faulting

/-! ## Section 1: Stamps of several lanes -/

/-- Of the stamps of each lane, all of which are older than `now`, no more than `width` show the same time; and if
`alone` holds, only those of one lane do. -/
structure Rate (now : Time) (width : Nat) (alone : Prop) (ts : Nat → List Time) : Prop where
  /-- The stamps are old. -/
  past : ∀ j, ∀ t ∈ ts j, t ≠ .never → t < now
  /-- Not too many of a lane show the same time. -/
  width : ∀ j t, t ≠ .never → (ts j).count t ≤ width
  /-- No two lanes show the same time. -/
  alone : alone → ∀ t, t ≠ .never → ∃ i, ∀ j, j ≠ i → t ∉ ts j

namespace Rate

variable {now later : Time} {width : Nat} {alone : Prop} {ts us : Nat → List Time}

theorem mono (h : Rate now width alone ts) (le : now ≤ later) : Rate later width alone ts :=
  ⟨fun j t mem some => lt_of_lt_of_le (h.past j t mem some) le, h.width, h.alone⟩

theorem nil : Rate now width alone fun _ => [] := by
  refine ⟨fun j t mem => ?_, fun j t _ => Nat.zero_le _, fun _ t _ => ⟨0, fun j _ mem => ?_⟩⟩
  · cases mem
  · cases mem

/-- The present time is not among the old stamps, so only new ones show it. -/
theorem gains {m : Nat → Nat} (h : Rate now width alone ts) (lt : now < later)
    (gains : ∀ j, Gains now (m j) (ts j) (us j)) (bound : ∀ j, m j ≤ width)
    (one : alone → ∃ i, ∀ j, j ≠ i → m j = 0) : Rate later width alone us := by
  have intime : now ≠ .never := by
    rintro rfl
    exact absurd lt (not_lt_of_ge (Time.le_never _))
  have new : ∀ j, (us j).count now ≤ m j := by
    intro j
    have more := gains j now intime
    have none : (ts j).count now = 0 :=
      List.count_eq_zero.mpr fun mem => lt_irrefl now (h.past j now mem intime)
    rw [if_pos rfl, none, Nat.zero_add] at more
    exact more
  have old : ∀ j t, t ≠ .never → t ≠ now → (us j).count t ≤ (ts j).count t := by
    intro j t some other
    have more := gains j t some
    rwa [if_neg other, Nat.add_zero] at more
  refine ⟨fun j t mem some => ?_, fun j t some => ?_, fun only t some => ?_⟩
  · by_cases here : t = now
    · exact here ▸ lt
    · have count := old j t some here
      have pos := List.count_pos_iff.mpr mem
      exact lt_trans (h.past j t (List.count_pos_iff.mp (by omega)) some) lt
  · by_cases here : t = now
    · exact here ▸ le_trans (new j) (bound j)
    · exact le_trans (old j t some here) (h.width j t some)
  · by_cases here : t = now
    · obtain ⟨i, none⟩ := one only
      refine ⟨i, fun j other => List.count_eq_zero.mp ?_⟩
      have count := new j
      rw [none j other] at count
      rw [here]
      omega
    · obtain ⟨i, none⟩ := h.alone only t some
      refine ⟨i, fun j other => List.count_eq_zero.mp ?_⟩
      have count := old j t some here
      have absent := List.count_eq_zero.mpr (none j other)
      omega

theorem sublist (h : Rate now width alone ts) (fewer : ∀ j, (us j).Sublist (ts j)) : Rate now width alone us := by
  refine ⟨fun j t mem => h.past j t ((fewer j).subset mem), fun j t some => ?_, fun only t some => ?_⟩
  · exact le_trans ((fewer j).count_le t) (h.width j t some)
  · obtain ⟨i, none⟩ := h.alone only t some
    exact ⟨i, fun j other mem => none j other ((fewer j).subset mem)⟩

/-- Where every stamp shows a time, what is said of times holds in general. -/
theorem count_le (h : Rate now width alone ts) (stamped : ∀ j, .never ∉ ts j) (j : Nat) (t : Time) :
    (ts j).count t ≤ width := by
  by_cases some : t = .never
  · rw [some, List.count_eq_zero.mpr (stamped j)]
    exact Nat.zero_le _
  · exact h.width j t some

theorem exists_lane (h : Rate now width alone ts) (stamped : ∀ j, .never ∉ ts j) (only : alone) (t : Time) :
    ∃ i, ∀ j, j ≠ i → t ∉ ts j := by
  by_cases some : t = .never
  · exact ⟨0, fun j _ => some ▸ stamped j⟩
  · exact h.alone only t some

end Rate

/-- The stamps are in order, and all of them are older than `now`. -/
structure Rising (now : Time) (ts : List Time) : Prop where
  /-- None is followed by an older one. -/
  sorted : ts.Pairwise (· ≤ ·)
  /-- The stamps are old. -/
  past : ∀ t ∈ ts, t < now

namespace Rising

variable {now later : Time} {ts us : List Time}

theorem mono (h : Rising now ts) (le : now ≤ later) : Rising later ts :=
  ⟨h.sorted, fun t mem => lt_of_lt_of_le (h.past t mem) le⟩

theorem never_not_mem (h : Rising now ts) : .never ∉ ts :=
  fun mem => absurd (h.past _ mem) (not_lt_of_ge (Time.le_never _))

theorem nil : Rising now [] := ⟨.nil, fun t mem => by cases mem⟩

theorem of_front (h : Rising now ts) (front : us <+: ts) : Rising now us :=
  ⟨h.sorted.sublist front.sublist, fun t mem => h.past t (front.subset mem)⟩

/-- The present time comes behind the old stamps. -/
theorem stamp (h : Rising now ts) (lt : now < later) (n : Nat) :
    Rising later (ts ++ List.replicate n now) := by
  refine ⟨List.pairwise_append.mpr ⟨h.sorted, ?_, fun t old u new => ?_⟩, fun t mem => ?_⟩
  · exact List.pairwise_replicate.mpr (.inr (le_refl now))
  · rw [List.eq_of_mem_replicate new]
    exact (h.past t old).le
  · rcases List.mem_append.mp mem with old | new
    · exact lt_trans (h.past t old) lt
    · rw [List.eq_of_mem_replicate new]
      exact lt

end Rising

/-! ## Section 2: What has left was done -/

/-- What has left a thread was done when it left. -/
theorem Account.Reachable.done_le {config : Config} {a : Account} (h : Reachable config a) :
    ∀ r ∈ a.retired, r.entry.done ≤ r.time := by
  induction h with
  | new made =>
    intro r mem
    cases mem
  | step reached step ih =>
    cases step with
    | work | push | tick => exact ih
    | retire oldest done | flush oldest done =>
      intro r mem
      rcases List.mem_append.mp mem with before | last
      · exact ih r before
      · rw [List.mem_singleton.mp last]
        exact done

/-! ## Section 3: Every cycle keeps the pace -/

namespace Chronicle

variable {M : Type} {config : Config} {c c' : Chronicle M}

/-- What has entered the window of lane `i` and has not been sent back since. -/
def entered (c : Chronicle M) (i : Nat) : List Entry := (c.retired i).map (·.entry) ++ c.window.inFlight i

/-- The stamps on what has entered the windows, and the times at which some of it has left, keep to the limits and
to the order of the pipeline. -/
structure Paced (c : Chronicle M) : Prop where
  /-- As many entries as may are dispatched at a time, all in one lane. -/
  dispatches : Rate c.window.clock.now c.window.config.core.dispatchWidth True
    fun i => (c.entered i).map (·.dispatched)
  /-- In each lane, as many entries as may issue at a time; or all in one lane. -/
  issues : Rate c.window.clock.now c.window.config.core.dispatchWidth
    (c.window.config.window.simultaneousIssue = false) fun i => (c.entered i).map (·.issued)
  /-- In each lane, as many entries as may leave at a time. -/
  commits : Rate c.window.clock.now c.window.config.window.commitWidth False
    fun i => (c.retired i).map (·.time)
  /-- Entries are dispatched one after the other. -/
  enters : ∀ i, Rising c.window.clock.now ((c.entered i).map (·.dispatched))
  /-- They leave one after the other. -/
  leaves : ∀ i, Rising c.window.clock.now ((c.retired i).map (·.time))

/-- Where nothing enters or leaves a window, the stamps are as they were. -/
theorem Paced.unmoved {w : Window M} {us : Nat → List OpInstance} (h : c.Paced)
    (config : w.config = c.window.config) (later : c.window.clock.now ≤ w.clock.now)
    (inFlight : ∀ i, w.inFlight i = c.window.inFlight i) :
    Paced { window := w, pushed := us, retired := c.retired } := by
  have entered : ∀ i, Chronicle.entered { window := w, pushed := us, retired := c.retired } i = c.entered i := by
    intro i
    unfold Chronicle.entered
    rw [inFlight]
  refine ⟨?_, ?_, ?_, fun i => ?_, fun i => ?_⟩
  · simp only [entered, config]
    exact h.dispatches.mono later
  · simp only [entered, config]
    exact h.issues.mono later
  · simp only [config]
    exact h.commits.mono later
  · rw [entered]
    exact (h.enters i).mono later
  · exact (h.leaves i).mono later

variable [MemorySystem M]

omit [MemorySystem M] in
/-- A lane in which something issues has a window, so something has been dispatched there, if only in this cycle. -/
theorem Paced.width_of_stamped {k m : Nat → Nat} {w : Window M} (h : c.Paced) (stamped : c.window.Stamped k m w)
    (j : Nat) : m j ≤ c.window.config.core.dispatchWidth := by
  have le := stamped.allowed.width j
  rw [stamped.config] at le
  by_cases wide : 1 ≤ c.window.config.core.dispatchWidth
  · omega
  -- nothing has ever been dispatched
  have none : w.inFlight j = [] := by
    have dispatched := stamped.dispatched j
    have zero := stamped.width j
    rw [Nat.le_zero.mp (show k j ≤ 0 by omega), List.replicate_zero, List.append_nil] at dispatched
    have before : (c.window.inFlight j).map (·.dispatched) = [] := by
      rw [List.eq_nil_iff_forall_not_mem]
      intro t mem
      have among : t ∈ (c.entered j).map (·.dispatched) := by
        unfold Chronicle.entered
        rw [List.map_append]
        exact List.mem_append_right _ mem
      have some : t ≠ .never := by
        rintro rfl
        exact (h.enters j).never_not_mem among
      have count := h.dispatches.width j t some
      have pos := List.count_pos_iff.mpr among
      omega
    rw [before] at dispatched
    exact List.map_eq_nil_iff.mp dispatched
  rw [stamped.allowed.empty j none]
  exact Nat.zero_le _

theorem Paced.cycle {stride : Window.Stride M} {running : Running} {v : Window M} (h : c.Paced)
    (reached : c.window.Reached) (striding : Window.Striding stride) (intime : c.window.clock.now ≠ .never)
    (ran : Window.cycle stride running c.window = .ok () v) :
    Paced { c with
      window := v
      retired := fun i => c.retired i ++ Window.leavingInCycle running i c.window } := by
  have later := Window.later_cycle striding intime ran
  obtain ⟨dispatchEvent, issueEvent, commitEvent, w₁, w₂, w₃, dispatched, issued, committed, rfl⟩ :=
    Window.stages_of_cycle ran
  obtain ⟨k, m, stamped⟩ := Window.stamped_of_stages reached dispatched issued
  simp only [Window.leavingInCycle_eq dispatched issued]
  have config : w₃.config = c.window.config := by
    rw [Window.commit_frame committed]
    exact stamped.config
  generalize stride w₃ (min (min dispatchEvent issueEvent) commitEvent) = span at later ⊢
  -- what has entered, before the commit stage
  let before : Nat → List Entry := fun j => (c.retired j).map (·.entry) ++ w₂.inFlight j
  have kept : ∀ j, (c.retired j ++ w₂.leaving j).map (·.entry) ++ (w₃.advance span).inFlight j <+: before j := by
    intro j
    rw [Window.inFlight_advance, List.map_append, List.append_assoc]
    exact (List.prefix_append_right_inj _).mpr (Window.leaves_isPrefix (Window.leads_commit committed) j)
  have enters : ∀ j, (before j).map (·.dispatched) =
      (c.entered j).map (·.dispatched) ++ List.replicate (k j) c.window.clock.now := by
    intro j
    unfold before Chronicle.entered
    rw [List.map_append, List.map_append, stamped.dispatched, List.append_assoc]
  have starts : ∀ j, Gains c.window.clock.now (m j) ((c.entered j).map (·.issued)) ((before j).map (·.issued)) := by
    intro j
    unfold before Chronicle.entered
    rw [List.map_append, List.map_append]
    exact (stamped.issued j).append_left _
  have leaves : ∀ j, ∃ n ≤ c.window.config.window.commitWidth, (c.retired j ++ w₂.leaving j).map (·.time) =
      (c.retired j).map (·.time) ++ List.replicate n c.window.clock.now := by
    intro j
    obtain ⟨n, le, times⟩ := w₂.leaving_times j
    rw [stamped.config] at le
    rw [stamped.clock] at times
    exact ⟨n, le, by rw [List.map_append, times]⟩
  choose n width times using leaves
  have config' : (w₃.advance span).config = c.window.config := config
  refine ⟨?_, ?_, ?_, fun j => ?_, fun j => ?_⟩
  · simp only [config']
    refine h.dispatches.gains (m := k) later (fun j => ?_) stamped.width fun _ => stamped.alone
    have more : Gains c.window.clock.now (k j) _ _ := .stamp ((c.entered j).map (·.dispatched)) (k j)
    rw [← enters j] at more
    exact more.sublist ((kept j).sublist.map _)
  · simp only [config']
    refine h.issues.gains (m := m) later (fun j => ?_) (h.width_of_stamped stamped) fun alone => ?_
    · exact (starts j).sublist ((kept j).sublist.map _)
    · refine stamped.allowed.alone ?_
      rw [stamped.config]
      exact alone
  · simp only [config']
    refine h.commits.gains (m := n) later (fun j => ?_) width False.elim
    rw [times]
    exact .stamp _ _
  · have all := (h.enters j).stamp later (k j)
    rw [← enters j] at all
    exact all.of_front ((kept j).map _)
  · show Rising _ ((c.retired j ++ w₂.leaving j).map _)
    rw [times]
    exact (h.leaves j).stamp later _

/-! ## Section 4: Runs and calls -/

/-- A run keeps the pace unless it comes to the end of time. -/
theorem paced_run {stride : Window.Stride M} {running : Running} {grace : Nat} {w v : Window M}
    {us : Nat → List OpInstance} {rs : Nat → List Retirement}
    (h : w.clock.now ≠ .never → Paced { window := w, pushed := us, retired := rs }) (reached : w.Reached)
    (striding : Window.Striding stride) (ran : Window.run stride running grace w = .ok () v)
    (intime : v.clock.now ≠ .never) :
    Paced
      { window := v
        pushed := us
        retired := fun i =>
          rs i ++ (Window.cycles stride running grace w).flatMap (Window.leavingInCycle running i) } := by
  refine (Window.induction_run (P := fun ws x => x.Reached ∧ (x.clock.now ≠ .never → Paced
    { window := x, pushed := us, retired := fun i => rs i ++ ws.flatMap (Window.leavingInCycle running i) }))
    ran ⟨reached, by simpa using h⟩ fun before _ cycled => ?_).2 intime
  obtain ⟨reached, paced⟩ := before
  refine ⟨reached.leads Account.Beat.steps (Window.leads_cycle cycled), fun intime => ?_⟩
  have before := Window.intime_of_cycle cycled intime
  simpa [List.flatMap_append] using (paced before).cycle reached striding before cycled

omit [MemorySystem M] in
/-- Between runs, nothing enters or leaves a window. -/
theorem inFlight_grows {w v : Window M} (grows : w.Grows v) (reached : w.Reached) (i : Nat) :
    v.inFlight i = w.inFlight i := by
  cases found' : v.lanes[i]? with
  | none =>
    refine Window.inFlight_congr ?_
    have size := grows.lanes.length_eq
    rw [Array.length_toList, Array.length_toList] at size
    rw [Array.getElem?_eq_none_iff] at found'
    rw [Array.getElem?_eq_none (by omega), Array.getElem?_eq_none (by omega)]
  | some l' =>
    obtain ⟨l, found, window, -⟩ := grows.window_eq reached (i := i) (by rwa [Array.getElem?_toList])
    rw [Array.getElem?_toList] at found
    rw [Window.inFlight_of_found found', Window.inFlight_of_found found, window]

omit [MemorySystem M] in
/-- The window of a thread that has just been set up is empty. -/
theorem inFlight_initializeThread {i : Nat} {memory : M} {predictor : Option Predictor} {w v : Window M}
    (made : Window.initializeThread i memory predictor w = .ok () v) (j : Nat) : v.inFlight j = w.inFlight j := by
  obtain ⟨-, th, new, rfl⟩ := Window.initializeThread_eq_ok made
  obtain ⟨capacity, rfl⟩ := Thread.new_eq_ok new
  by_cases last : j = w.lanes.size
  · subst last
    unfold Window.inFlight
    dsimp only
    rw [Array.getElem?_push_size, Array.getElem?_eq_none (Nat.le_refl _)]
    rfl
  · refine Window.inFlight_congr ?_
    dsimp only
    rw [Array.getElem?_push, if_neg last]

theorem paced_after {stride : Window.Stride M} {call : Window.Call M} (h : c.window.clock.now ≠ .never → c.Paced)
    (truthful : Truthful config c) (truthful' : Truthful config c') (striding : Window.Striding stride)
    (made : c.after stride call = .ok c') (intime : c'.window.clock.now ≠ .never) : c'.Paced := by
  have config : c'.window.config = c.window.config := truthful'.config_eq.trans truthful.config_eq.symm
  have reached := truthful.reached
  obtain ⟨v, performed, rfl⟩ := after_eq_ok.mp made
  cases call.kind with
  | initializeThread i memory predictor =>
    have clock : v.clock = c.window.clock := by
      obtain ⟨-, th, -, rfl⟩ := Window.initializeThread_eq_ok performed
      rfl
    simp only [Window.Call.letsOut, List.append_nil]
    exact (h (clock ▸ intime)).unmoved config (le_of_eq (by rw [clock])) (inFlight_initializeThread performed)
  | execute running =>
    have ran := paced_run h reached striding performed intime
    simpa [Window.Call.takesIn, Window.Call.letsOut] using ran
  | other old idle =>
    have nothing : ∀ i, call.letsOut stride c.window i = [] := by
      intro i
      cases call with
      | execute running => exact absurd rfl (idle running)
      | _ => rfl
    simp only [nothing, List.append_nil]
    have grows := Window.Call.grows performed old idle
    have before : c.window.clock.now ≠ .never := Time.ne_never_of_le grows.later intime
    exact (h before).unmoved config grows.later (inFlight_grows grows reached)

/-- Whatever is asked of a window keeps the pace, unless its clock comes to the end of time. -/
theorem paced_of {stride : Window.Stride M} {calls : List (Window.Call M)} (striding : Window.Striding stride)
    (made : of stride config calls = .ok c) (intime : c.window.clock.now ≠ .never) : c.Paced := by
  refine induction_of (P := fun _ c => c.window.clock.now ≠ .never → c.Paced)
    (fun w new _ => ?_) (fun start ih step intime => ?_) made intime
  · obtain ⟨period, rfl⟩ := Window.new_eq_ok new
    exact ⟨.nil, .nil, .nil, fun _ => .nil, fun _ => .nil⟩
  · have truthful := truthful_of start
    exact paced_after ih truthful (truthful_after truthful step) striding step intime

/-! ## Section 5: The theorem -/

/-- What the records of several threads show of a pipeline. -/
structure Pipelined (config : Config) (records : Nat → List CommitRecord) : Prop where
  /-- At any time, no more micro-ops are dispatched than may, and all of them in one thread. -/
  dispatched : ∀ t, ∃ i, ((records i).map (·.dispatched)).count t ≤ config.core.dispatchWidth ∧
    ∀ j, j ≠ i → t ∉ (records j).map (·.dispatched)
  /-- In each thread, no more issue than may. -/
  issued : ∀ t i, ((records i).map (·.issued)).count t ≤ config.core.dispatchWidth
  /-- Unless several threads may issue at a time, only one does. -/
  alone : config.window.simultaneousIssue = false → ∀ t, ∃ i, ∀ j, j ≠ i → t ∉ (records j).map (·.issued)
  /-- In each thread, no more commit than may. -/
  committed : ∀ t i, ((records i).map (·.committed)).count t ≤ config.window.commitWidth
  /-- In each thread, micro-ops are dispatched one after the other. -/
  dispatched_le : ∀ i, ((records i).map (·.dispatched)).Pairwise (· ≤ ·)
  /-- They commit one after the other. -/
  committed_le : ∀ i, ((records i).map (·.committed)).Pairwise (· ≤ ·)
  /-- Each of them issues, is done and commits in this order. -/
  passage : ∀ i, ∀ r ∈ records i, r.issued ≤ r.done ∧ r.done ≤ r.committed

omit [MemorySystem M] in
/-- What has left was dispatched, has issued and was done before the present time. -/
theorem Paced.pipelined (h : c.Paced) (truthful : Truthful config c) :
    Pipelined config fun i => (c.retired i).map Retirement.record := by
  have records : ∀ i, ((c.retired i).map Retirement.record).map (·.dispatched) <+: (c.entered i).map (·.dispatched) ∧
      ((c.retired i).map Retirement.record).map (·.issued) <+: (c.entered i).map (·.issued) ∧
      ((c.retired i).map Retirement.record).map (·.committed) = (c.retired i).map (·.time) := by
    intro i
    unfold entered
    simp only [List.map_append, List.map_map]
    exact ⟨List.prefix_append _ _, List.prefix_append _ _, rfl⟩
  have passage : ∀ i, ∀ r ∈ (c.retired i).map Retirement.record, r.issued ≤ r.done ∧ r.done ≤ r.committed := by
    intro i r among
    obtain ⟨r, mem, rfl⟩ := List.mem_map.mp among
    cases found : c.window.lanes[i]? with
    | none =>
      rw [(truthful.absent i found).2] at mem
      cases mem
    | some l =>
      have reached := truthful.reachable i l found
      obtain ⟨k, at_k⟩ := List.getElem?_of_mem mem
      exact ⟨reached.timed.issued_le k _ (Account.entries_of_retired at_k), reached.done_le r mem⟩
  have dispatches := h.dispatches.sublist fun j => (records j).1.sublist
  have issues := h.issues.sublist fun j => (records j).2.1.sublist
  have commits : Rate c.window.clock.now c.window.config.window.commitWidth False
      fun j => ((c.retired j).map Retirement.record).map (·.committed) := by
    refine h.commits.sublist fun j => ?_
    rw [(records j).2.2]
  have left : ∀ j, .never ∉ ((c.retired j).map Retirement.record).map (·.committed) := by
    intro j
    rw [(records j).2.2]
    exact (h.leaves j).never_not_mem
  have entered : ∀ j, .never ∉ ((c.retired j).map Retirement.record).map (·.dispatched) :=
    fun j mem => (h.enters j).never_not_mem ((records j).1.subset mem)
  have started : ∀ j, .never ∉ ((c.retired j).map Retirement.record).map (·.issued) := by
    intro j mem
    obtain ⟨r, mem, never⟩ := List.mem_map.mp mem
    obtain ⟨le, le'⟩ := passage j r mem
    -- it would never have left
    rw [never, Time.never_le_iff] at le
    rw [le, Time.never_le_iff] at le'
    exact left j (List.mem_map.mpr ⟨r, mem, le'⟩)
  rw [truthful.config_eq] at dispatches issues commits
  refine ⟨fun t => ?_, fun t i => issues.count_le started i t, fun only t => issues.exists_lane started only t,
    fun t i => commits.count_le left i t, fun i => ?_, fun i => ?_, passage⟩
  · obtain ⟨i, none⟩ := dispatches.exists_lane entered trivial t
    exact ⟨i, dispatches.count_le entered i t, none⟩
  · exact ((h.enters i).of_front (records i).1).sorted
  · rw [(records i).2.2]
    exact (h.leaves i).sorted

/-- In every series of calls whose clock does not come to the end of time, the records of what has left the threads
show the limits and the order of the pipeline.  They are in program order, and they are what a commit log shows. -/
theorem records_pipelined {calls : List (Window.Call M)} (made : of Window.toEvent config calls = .ok c)
    (intime : c.window.clock.now ≠ .never) :
    Pipelined config (fun i => (c.retired i).map Retirement.record) ∧
      ∀ i l, c.window.lanes[i]? = some l →
        (c.retired i).map (·.entry.inProgram) <+: (c.pushed i).map OpInstance.inProgram ∧
          (config.window.commitLog = true →
            l.thread.stats.commitLog.toList = (c.retired i).map Retirement.record) := by
  have truthful := truthful_of made
  refine ⟨(paced_of Window.striding_toEvent made intime).pipelined truthful, fun i l found => ?_⟩
  have order := (truthful.reachable i l found).inOrder.inProgramOrder
  refine ⟨?_, order.logged⟩
  have program : (c.pushed i).map OpInstance.inProgram = _ := order.complete
  rw [program, List.map_append, List.map_map]
  exact List.prefix_append _ _

/-- The default configuration with a commit log. -/
def logging : Config := { (default : Config) with window := { (default : Config).window with commitLog := true } }

/-- Both threads are dispatched four micro-ops at a time, again after their windows have started over. -/
theorem records_pipelined_two_threads :
    ∃ c : Chronicle FixedMemory, of Window.toEvent logging (entangledCalls ++ [.execute bothRun]) = .ok c ∧
      c.window.clock.now ≠ .never ∧ Pipelined logging (fun i => (c.retired i).map Retirement.record) ∧
      (c.retired 0).map (·.record.dispatched.toNat) =
        List.replicate 3 0 ++ List.replicate 4 4135340 ++ List.replicate 3 4887220 ∧
      (c.retired 1).map (·.record.dispatched.toNat) =
        List.replicate 3 375940 ++ List.replicate 4 4511280 ++ List.replicate 3 5263160 ∧
      ∃ l, c.window.lanes[1]? = some l ∧ l.thread.stats.commitLog.toList = (c.retired 1).map Retirement.record := by
  have computed : ((ofWithin Window.toEvent 200 logging (entangledCalls ++ [.execute bothRun])).map fun c =>
      (decide (c.window.clock.now ≠ .never ∧ c.window.lanes.size = 2),
        (c.retired 0).map (·.record.dispatched.toNat), (c.retired 1).map (·.record.dispatched.toNat))) =
      some (true, List.replicate 3 0 ++ List.replicate 4 4135340 ++ List.replicate 3 4887220,
        List.replicate 3 375940 ++ List.replicate 4 4511280 ++ List.replicate 3 5263160) := by
    decide +kernel
  obtain ⟨c, made, same⟩ := exists_of_computed computed
  simp only [Prod.mk.injEq, decide_eq_true_eq] at same
  obtain ⟨⟨intime, size⟩, first, second⟩ := same
  obtain ⟨pipelined, logs⟩ := records_pipelined made intime
  have found : c.window.lanes[1]? = some c.window.lanes[1] := Array.getElem?_eq_getElem (by omega)
  exact ⟨c, made, intime, pipelined, first, second, _, found, (logs 1 _ found).2 rfl⟩

end Chronicle

end CoreTiming
