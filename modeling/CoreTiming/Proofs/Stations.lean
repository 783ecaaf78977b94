import CoreTiming.Proofs.Completion

/-!
# Reservation stations

The threads of a window share its reservation stations, and one counter says how many are in use.  It goes up
when an entry is dispatched and down when one issues; and when a window starts over, the entries that wait in
it are counted and taken off at once.  `Window.Counted` says that the counter is exact.

Both operations that lower the counter stop at zero, which would hide a station that is given back twice.
`Window.Tally` is a move of a cycle in which this does not happen, and every cycle is a series of such moves
(`Window.tallies_cycle`), as long as what has issued knows when it is done: an entry that does not would issue
once more.
-/

namespace CoreTiming

open Faulting

namespace Window

variable {M : Type} {w v x : Window M} {i : Nat} {l : Lane M}

/-! ## Section 1: The counter -/

/-- The counter of reservation stations is exact. -/
structure Counted (w : Window M) : Prop where
  /-- As many are in use as entries, over all threads, have been dispatched and have not issued. -/
  exact : w.stationsUsed = w.total (·.stationsHeld)
  /-- No more are in use than there are. -/
  bounded : w.stationsUsed ≤ w.config.window.stations

/-- Whatever takes and gives back as many as it has to keeps the counter exact. -/
theorem Counted.squares (h : w.Counted) (squares : w.Squares v) (config : v.config = w.config)
    (bounded : v.stationsUsed ≤ w.config.window.stations) : v.Counted := by
  refine ⟨?_, config ▸ bounded⟩
  have exact := h.exact
  unfold Squares at squares
  omega

/-- Whatever does not concern the counter keeps it exact. -/
theorem Counted.keep (h : w.Counted) (squares : w.Squares v) (config : v.config = w.config)
    (same : v.stationsUsed = w.stationsUsed) : v.Counted :=
  h.squares squares config (same ▸ h.bounded)

variable [MemorySystem M]

/-- A move of a cycle that takes no more from the counter of reservation stations than is there. -/
inductive Tally : Window M → Window M → Prop
  /-- A move of the dispatch stage only adds to it. -/
  | dispatch {w v : Window M} (admitted : Admit w v) : Tally w v
  /-- An entry in the window of a lane issues, and gives its station back. -/
  | issue {w v : Window M} {i n : Nat} {lane : Lane M} {e : Entry} {pass : IssuePass} {done : Time}
      (found : w.lanes[i]? = some lane) (inside : n < lane.thread.inWindow)
      (entry : lane.thread.ring.get? n = some e) (waiting : e.isDone = false)
      (verdict : w.judge pass e = .issue) (covered : 1 ≤ w.stationsUsed)
      (issued : issueEntry i n w = .ok done v) : Tally w v
  /-- Something is noted in the issue stage. -/
  | note {w v : Window M} (noted : Note w v) : Tally w v
  /-- A lane has its turn in the commit stage.  If its window starts over, it gives back what its entries hold. -/
  | commit {w : Window M} {i freed : Nat} {lane : Lane M} {th : Thread} (found : w.lanes[i]? = some lane)
      (ran : Thread.commit w.clock w.config.predictor.penalty w.config.window.commitLog
        w.config.window.commitWidth lane.thread = .ok freed th)
      (covered : freed ≤ w.stationsUsed) :
      Tally w { w with
        lanes := w.lanes.setIfInBounds i { lane with thread := th }
        stationsUsed := w.stationsUsed - freed }

/-- Any number of such moves, after each of which the counter is exact. -/
abbrev Tallies : Window M → Window M → Prop :=
  Relation.ReflTransGen fun w v => Tally w v ∧ v.Counted

/-- The counter is exact on the way as well as at the end. -/
theorem Tallies.counted (h : Tallies w v) (counted : w.Counted) : v.Counted := by
  cases h with
  | refl => exact counted
  | tail _ last => exact last.2

/-! ## Section 2: The dispatch stage -/

/-- An entry only enters while a station is free. -/
theorem tallies_dispatches {n : Nat} (h : Dispatches i n w v) (reached : w.Reached) (counted : w.Counted) :
    Tallies w v := by
  induction h with
  | refl => exact .refl
  | @idle n w v x before admitted same ih =>
    have path := ih reached counted
    have reached' := reached.worked (.of_moves Admit.worked before.admits)
    have worked := admitted.worked
    exact path.tail ⟨.dispatch admitted, (path.counted counted).keep (admitted.squares reached') worked.config same⟩
  | @enter n w v x ready before spare awake tried ih =>
    have path := ih reached counted
    have reached' := reached.worked (.of_moves Admit.worked before.admits)
    have admitted : Admit v { x with stationsUsed := x.stationsUsed + 1 } := .enter awake tried
    have used : x.stationsUsed = v.stationsUsed := by
      obtain ⟨lane, th, -, -, rfl⟩ := onThread_eq_ok.mp tried
      rfl
    refine path.tail ⟨.dispatch admitted, ?_⟩
    refine (path.counted counted).squares (admitted.squares reached') admitted.worked.config ?_
    show x.stationsUsed + 1 ≤ _
    omega

/-! ## Section 3: The issue stage -/

theorem tallies_note (noted : Note w v) (counted : w.Counted) : Tallies w v := by
  have same : v.stationsUsed = w.stationsUsed := by
    cases noted with
    | account ran | look ran =>
      obtain ⟨lane, -, rfl⟩ := modifyThread_eq_ok.mp ran
      rfl
    | turn => rfl
  exact .single ⟨.note noted, counted.keep noted.squares noted.firings.config same⟩

/-- An entry that has not issued holds a station. -/
theorem tallies_issueEntry {n : Nat} {e : Entry} {pass : IssuePass} {done : Time}
    (found : w.lanes[i]? = some l) (inside : n < l.thread.inWindow) (entry : l.thread.ring.get? n = some e)
    (waiting : e.isDone = false) (verdict : w.judge pass e = .issue) (first : e.issued = .never)
    (intime : w.clock.now ≠ .never) (counted : w.Counted) (issued : issueEntry i n w = .ok done v) :
    Tallies w v := by
  obtain ⟨left, held⟩ := total_issueEntry intime found inside entry issued
  rw [first, if_pos (Time.isNever_iff.mpr rfl)] at held
  have exact := counted.exact
  have bounded := counted.bounded
  have config : v.config = w.config := (Fire.issue found inside entry waiting verdict issued).firings.config
  refine .single ⟨.issue found inside entry waiting verdict (by omega) issued, ⟨by omega, ?_⟩⟩
  rw [config]
  omega

/-- In a pass over the window of a thread, no entry issues that has issued before. -/
theorem tallies_issueFrom {n k : Nat} {pass pass' : IssuePass} (found : w.lanes[i]? = some l)
    (inside : k + n ≤ l.thread.inWindow) (intime : w.clock.now ≠ .never) (known : l.thread.InTimeFrom k)
    (counted : w.Counted) (h : issueFrom i n k pass w = .ok pass' v) : Tallies w v := by
  induction n generalizing k pass w l with
  | zero =>
    obtain ⟨-, rfl⟩ := pure_eq_ok.mp h
    exact .refl
  | succ n ih =>
    have next : l.thread.InTimeFrom (k + 1) := fun j x behind => known j x (by omega)
    cases looks_of_issueFrom found h with
    | nothing _ _ same =>
      rw [same]
    | done _ _ rest => exact ih found (by omega) intime next counted rest
    | stop _ _ _ _ same =>
      rw [same]
    | @issue e done w₁ w₂ entry waiting verdict issued noted rest =>
      have inside' : k < l.thread.inWindow := by omega
      have first := known.issued_eq inside' entry waiting
      have given := tallies_issueEntry found inside' entry waiting verdict first intime counted issued
      have clock : w₁.clock = w.clock := by
        obtain ⟨_, _, _, -, -, -, rfl⟩ := issueEntry_eq_ok found entry issued
        rfl
      have moves : Tallies w w₂ :=
        given.trans (tallies_note (.account (clock ▸ noted)) (given.counted counted))
      rcases rest with ⟨-, rfl⟩ | rest
      · exact moves
      · -- those behind are as they were
        obtain ⟨-, clock₂, l₂, found₂, span, later⟩ :=
          advances_issue found inside' entry waiting intime known issued noted
        exact moves.trans (ih found₂ (by omega) (clock₂ ▸ intime) later (moves.counted counted) rest)
    | wait _ _ _ _ rest =>
      rcases rest with ⟨-, rfl⟩ | rest
      · exact .refl
      · exact ih found (by omega) intime next counted rest

theorem tallies_issueLane {event : Time} {result : Bool × Time} (found : w.lanes[i]? = some l)
    (intime : w.clock.now ≠ .never) (known : l.thread.InTime) (counted : w.Counted)
    (h : issueLane i event w = .ok result v) : Tallies w v := by
  obtain ⟨l₁, found₁, turn⟩ := issueTurn_of_issueLane h
  obtain rfl : l = l₁ := Option.some.inj (found.symm.trans found₁)
  cases turn with
  | asleep _ _ same => rw [same]
  | empty _ _ same => rw [same]
  | look _ _ looked noted =>
    have path := tallies_issueFrom found (by omega) intime known counted looked
    exact path.trans (tallies_note (.look noted) (path.counted counted))

theorem tallies_issueLanes {lanes : List Nat} {event : Time} {result : Option Nat × Time} (once : lanes.Nodup)
    (intime : w.clock.now ≠ .never) (known : ∀ j ∈ lanes, ∃ l, w.lanes[j]? = some l ∧ l.thread.InTime)
    (counted : w.Counted) (h : issueLanes lanes event w = .ok result v) : Tallies w v := by
  induction lanes generalizing event w with
  | nil =>
    obtain ⟨-, rfl⟩ := pure_eq_ok.mp h
    exact .refl
  | cons j rest ih =>
    obtain ⟨any, event', w₁, turn, goesOn⟩ := issueLanes_cons_eq_ok h
    obtain ⟨absent, once⟩ := List.nodup_cons.mp once
    obtain ⟨l, found, here⟩ := known j List.mem_cons_self
    have first := tallies_issueLane found intime here counted turn
    rcases goesOn with ⟨-, -, rfl⟩ | ⟨-, onwards⟩
    · exact first
    · -- the lanes that follow have not been touched
      have same := preserves_issueLane j event turn
      refine first.trans (ih once (clock_of_beside same ▸ intime) (fun k mem => ?_) (first.counted counted) onwards)
      rw [lanes_of_beside same fun here => absent (here ▸ mem)]
      exact known k (List.mem_cons_of_mem _ mem)

theorem tallies_issue {event : Time} (intime : w.InTime) (counted : w.Counted) (h : issue w = .ok event v) :
    Tallies w v := by
  obtain ⟨last, x, turns, rfl⟩ := issue_eq_ok h
  have path := tallies_issueLanes (nodup_rotation _ _) intime.clock intime.known counted turns
  exact path.trans (tallies_note (.turn _) (path.counted counted))

/-! ## Section 4: The commit stage, and a whole cycle -/

/-- A window that starts over gives back no more than is in use. -/
theorem tallies_commitLane (intime : w.clock.now ≠ .never) (reached : w.Reached) (counted : w.Counted)
    (h : commitLane i w = .ok () v) : Tallies w v := by
  obtain ⟨l, th, freed, found, ran, rfl, held⟩ := total_commitLane intime reached h
  have exact := counted.exact
  have bounded := counted.bounded
  refine .single ⟨.commit found ran (by omega), ⟨?_, ?_⟩⟩
  · show w.stationsUsed - freed = _
    omega
  · show w.stationsUsed - freed ≤ w.config.window.stations
    omega

theorem tallies_commitLanes {lanes : List Nat} (intime : w.clock.now ≠ .never) (reached : w.Reached)
    (counted : w.Counted) (h : lanes.forM commitLane w = .ok () v) : Tallies w v := by
  induction lanes generalizing w with
  | nil =>
    obtain ⟨-, rfl⟩ := pure_eq_ok.mp h
    exact .refl
  | cons i rest ih =>
    obtain ⟨⟨⟩, w₁, first, h⟩ := bind_eq_ok.mp h
    have path := tallies_commitLane intime reached counted first
    have reached₁ := reached.leads (fun left => .single left.drift.step) (leads_commitLane first)
    have clock : w₁.clock = w.clock := by
      obtain ⟨_, _, _, -, -, rfl⟩ := commitLane_eq_ok first
      rfl
    exact path.trans (ih (clock ▸ intime) reached₁ (path.counted counted) h)

/-- A cycle never takes more from the counter than is there, and the counter is exact throughout. -/
theorem tallies_cycle {stride : Stride M} {running : Running} (reached : w.Reached) (intime : w.InTime)
    (counted : w.Counted) (h : cycle stride running w = .ok () v) :
    ∃ (x : Window M) (span : Time), Tallies w x ∧ v = x.advance span := by
  obtain ⟨_, _, _, w₁, w₂, w₃, dispatched, issued, committed, rfl⟩ := stages_of_cycle h
  have reached₁ := reached.worked ((worked_dispatch dispatched).mono Thread.Intake.work)
  have reached₂ := reached₁.worked (worked_issue issued)
  have intime₁ := intime.dispatch reached dispatched
  have intime₂ : w₂.clock.now ≠ .never := (worked_issue issued).clock ▸ intime₁.clock
  obtain ⟨i, n, -, entered⟩ := dispatches_dispatch dispatched
  have path₁ := tallies_dispatches entered reached counted
  have path₂ := tallies_issue intime₁ (path₁.counted counted) issued
  have path₃ := tallies_commitLanes intime₂ reached₂ (path₂.counted (path₁.counted counted))
    (commit_eq_ok committed)
  refine ⟨w₃, _, ?_, rfl⟩
  calc Tallies w w₁ := path₁
    Tallies w₁ w₂ := path₂
    Tallies w₂ w₃ := path₃

theorem Counted.cycle {stride : Stride M} {running : Running} (h : w.Counted) (reached : w.Reached)
    (intime : w.InTime) (ran : Window.cycle stride running w = .ok () v) : v.Counted := by
  obtain ⟨x, span, path, rfl⟩ := tallies_cycle reached intime h ran
  exact (path.counted h).keep (squares_advance x span) rfl rfl

/-! ## Section 5: Runs -/

theorem Visits.reached {running : Running} (visits : w.Visits running v) (reached : w.Reached) : v.Reached := by
  induction visits with
  | refl => exact reached
  | tail _ turn ih => exact ih.leads Account.Beat.steps (leads_cycle turn.2)

/-- The counter is exact in every window that a run comes to in time. -/
theorem Visits.counted {running : Running} (visits : w.Visits running v) (reached : w.Reached)
    (counted : w.Counted) (intime : ∀ x, w.Visits running x → x.Visits running v → x.InTime) : v.Counted := by
  induction visits with
  | refl => exact counted
  | @tail u v before turn ih =>
    have counted' := ih fun x visits rest => intime x visits (rest.tail turn)
    exact counted'.cycle (Visits.reached before reached) (intime u before (.single turn)) turn.2

/-- A run ends with a window that it comes to. -/
theorem visits_of_run {running : Running} {grace : Nat} (ran : run toEvent running grace w = .ok () v) :
    w.Visits running v :=
  induction_run (P := fun _ x => w.Visits running x) ran (.refl running w) fun before can cycled =>
    before.tail ⟨can, cycled⟩

end Window

/-! ## Section 6: The theorem -/

namespace Chronicle

variable {M : Type} [MemorySystem M] {config : Config} {c c' : Chronicle M} {calls : List (Window.Call M)}
  {call : Window.Call M}

/-- No run among the calls comes to the end of time. -/
def Timely (config : Config) (calls : List (Window.Call M)) : Prop :=
  ∀ (before : List (Window.Call M)) (running : Running) (c : Chronicle M),
    before ++ [.execute running] <+: calls → of Window.toEvent config before = .ok c →
      ∀ w, c.window.Visits running w → w.InTime

theorem Timely.of_append (h : Timely config (calls ++ [call])) : Timely config calls :=
  fun before running c among => h before running c (among.trans (List.prefix_append _ _))

/-- One more call may be a run. -/
theorem Timely.append (h : Timely config calls)
    (last : ∀ running c, call = .execute running → of Window.toEvent config calls = .ok c →
      ∀ w, c.window.Visits running w → w.InTime) : Timely config (calls ++ [call]) := by
  intro before running c among made
  rcases List.prefix_concat_iff.mp among with whole | among
  · obtain ⟨rfl, same⟩ := List.append_inj' whole rfl
    cases same
    exact last running c rfl made
  · exact h before running c among made

theorem counted_after (truthful : Truthful config c) (truthful' : Truthful config c')
    (counted : c.window.Counted)
    (intime : ∀ running, call = .execute running → ∀ w, c.window.Visits running w → w.InTime)
    (h : c.after Window.toEvent call = .ok c') : c'.window.Counted := by
  have config : c'.window.config = c.window.config := truthful'.config_eq.trans truthful.config_eq.symm
  obtain ⟨v, performed, rfl⟩ := after_eq_ok.mp h
  cases call.kind with
  | initializeThread i memory predictor =>
    refine counted.keep (Window.squares_initializeThread performed) config ?_
    obtain ⟨-, th, -, rfl⟩ := Window.initializeThread_eq_ok performed
    rfl
  | execute running =>
    exact (Window.visits_of_run performed).counted truthful.reached counted fun w visits _ =>
      intime running rfl w visits
  | other old idle =>
    have grows := Window.Call.grows performed old idle
    exact counted.keep (grows.squares truthful.reached) config grows.stations

/-- The counter is exact after any calls that stay in time. -/
theorem counted_of (made : of Window.toEvent config calls = .ok c) (timely : Timely config calls) :
    c.window.Counted := by
  refine induction_of (P := fun calls c => Timely config calls → c.window.Counted)
    (fun w new _ => ?_) (fun {calls c call c'} start ih step timely => ?_) made timely
  · obtain ⟨period, rfl⟩ := Window.new_eq_ok new
    exact ⟨rfl, Nat.zero_le _⟩
  · have truthful := truthful_of start
    refine counted_after truthful (truthful_after truthful step) (ih timely.of_append) ?_ step
    rintro running rfl
    exact timely calls running c (List.prefix_refl _) start

/-- As long as times do not end, the number of reservation stations in use is the number of entries of all threads
that have been dispatched and have not issued, and no more than there are: after any calls, with every cycle of
a run, and after every move of such a cycle; and no move takes more from it than is there. -/
theorem stations_exact (made : of Window.toEvent config calls = .ok c) (timely : Timely config calls) :
    c.window.Counted ∧ ∀ (running : Running) (w : Window M), c.window.Visits running w →
      (∀ x, c.window.Visits running x → x.Visits running w → x.InTime) →
        w.Counted ∧ ∀ v, Window.cycle Window.toEvent running w = .ok () v →
          v.Counted ∧ ∃ (x : Window M) (span : Time), Window.Tallies w x ∧ v = x.advance span := by
  have counted := counted_of made timely
  have reached := (truthful_of made).reached
  refine ⟨counted, fun running w visits intime => ?_⟩
  have counted' := visits.counted reached counted intime
  have reached' := visits.reached reached
  have now := intime w visits (.refl running w)
  exact ⟨counted', fun v ran => ⟨counted'.cycle reached' now ran, Window.tallies_cycle reached' now counted' ran⟩⟩

/-- Two threads are given `entangled` twice. -/
def entangledTwice : List (Window.Call FixedMemory) :=
  Window.setUp [default, default] ++ [.push 0 (entangled ++ entangled), .push 1 (entangled ++ entangled)]

/-- Both windows start over once before the run has to wait for more micro-ops. -/
theorem stations_exact_entangled_twice :
    ∃ c c' : Chronicle FixedMemory, of Window.toEvent default entangledTwice = .ok c ∧
      (∀ w, c.window.Visits bothRun w → w.InTime) ∧ (∀ w, c.window.Visits bothRun w → w.Counted) ∧
      of Window.toEvent default (entangledTwice ++ [.execute bothRun]) = .ok c' ∧
      Timely default (entangledTwice ++ [.execute bothRun]) ∧
      c'.window.lanes.toList.map (·.thread.stats.mispredictions) = [1, 1] ∧
      c'.window.stationsUsed = 15 ∧ c'.window.total (·.stationsHeld) = 15 := by
  have computed : ((ofWithin Window.toEvent 200 default entangledTwice).map fun c =>
      (Window.runWithin Window.toEvent bothRun 200 c.window).map fun (ws, x) =>
        (ws ++ [x]).all fun w => decide w.InTime) = some (some true) := by
    decide +kernel
  have computed' : ((ofWithin Window.toEvent 200 default (entangledTwice ++ [.execute bothRun])).map fun c =>
      (c.window.stationsUsed, c.window.lanes.toList.map (·.thread.stats.mispredictions))) =
      some (15, [1, 1]) := by
    decide +kernel
  obtain ⟨c, made, ran⟩ := exists_of_computed computed
  obtain ⟨c', made', seen⟩ := exists_of_computed computed'
  obtain ⟨⟨ws, x⟩, ran, inTime⟩ := Option.map_eq_some_iff.mp ran
  obtain ⟨used, mispredictions⟩ := Prod.mk.inj seen
  have intime : ∀ w, c.window.Visits bothRun w → w.InTime := by
    intro w visits
    have mem := Window.mem_of_runWithin ran visits
    simpa using List.all_eq_true.mp inTime w mem
  -- the only run is the last call
  have idle : Timely (M := FixedMemory) default entangledTwice := by
    intro before running c₁ among
    have runs : Window.Call.execute running ∈ entangledTwice :=
      among.subset (List.mem_append_right _ (List.mem_singleton_self _))
    simp [entangledTwice, Window.setUp] at runs
  have timely : Timely default (entangledTwice ++ [.execute bothRun]) := by
    refine idle.append fun running c₁ same start => ?_
    cases same
    cases made.symm.trans start
    exact intime
  obtain ⟨-, onTheWay⟩ := stations_exact made idle
  obtain ⟨atTheEnd, -⟩ := stations_exact made' timely
  refine ⟨c, c', made, intime, fun w visits => ?_, made', timely, mispredictions, used, ?_⟩
  · exact (onTheWay bothRun w visits fun x visits _ => intime x visits).1
  · rw [← atTheEnd.exact, used]

end Chronicle

end CoreTiming
