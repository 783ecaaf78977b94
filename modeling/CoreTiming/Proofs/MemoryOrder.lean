import CoreTiming.Proofs.IssuePass
import CoreTiming.Proofs.ReadAfterWrite

/-!
# Memory order

Stores issue in program order and behind all older micro-ops, barriers behind all older ones whose stores
have drained, and loads behind all older barriers.  The order is that of `Account.Ordered`; here it is
carried through the cycles of a run and read off what has left a window.
-/

namespace CoreTiming

open Faulting

/-- At the end of a cycle the clock moves by a period at least. -/
def Window.Striding {M : Type} (stride : Window.Stride M) : Prop :=
  ∀ (w : Window M) (event : Time), w.clock.period.length ≤ stride w event

namespace Chronicle

variable {M : Type} {config : Config} {rest rest' : Account → Prop} {c : Chronicle M}

/-! ## Section 1: All threads of a window -/

/-- All threads have kept memory order, and `rest` holds of them. -/
structure Disciplined (config : Config) (rest : Account → Prop) (c : Chronicle M) : Prop where
  /-- The parameters are those that the window was made with. -/
  config_eq : c.window.config = config
  /-- Every thread has kept order with the stores of the core. -/
  lanes : ∀ (i : Nat) (lane : Lane M), c.window.lanes[i]? = some lane →
    (c.account i lane).Disciplined config c.window.lastStoreDone rest

theorem Disciplined.mono (h : c.Disciplined config rest)
    (weaker : ∀ {a : Account}, a.clock.now ≠ .never → rest a → rest' a) : c.Disciplined config rest' :=
  ⟨h.config_eq, fun i lane found => (h.lanes i lane found).mono (le_refl _) weaker⟩

/-- One thread has done something. -/
theorem Disciplined.setLane {v : Window M} {i : Nat} {lane lane' : Lane M} (h : c.Disciplined config rest)
    (found : c.window.lanes[i]? = some lane) (config_eq : v.config = c.window.config)
    (clock : v.clock = c.window.clock) (drains : c.window.lastStoreDone ≤ v.lastStoreDone)
    (lanes : v.lanes = c.window.lanes.setIfInBounds i lane')
    (new : ((c.account i lane).withThread lane'.thread).Disciplined config v.lastStoreDone rest) :
    Disciplined config rest { c with window := v } := by
  refine ⟨config_eq.trans h.config_eq, fun j lane₁ found₁ => ?_⟩
  have at_i : i < c.window.lanes.size := (Array.getElem?_eq_some_iff.mp found).1
  have account : ({ c with window := v } : Chronicle M).account j lane₁ =
      { c.account j lane₁ with clock := c.window.clock } := by
    unfold Chronicle.account
    rw [clock]
  rw [account]
  dsimp only at found₁
  rw [lanes] at found₁
  by_cases same : i = j
  · subst same
    rw [Array.getElem?_setIfInBounds_self_of_lt at_i] at found₁
    cases found₁
    exact new
  · rw [Array.getElem?_setIfInBounds_ne same] at found₁
    exact (h.lanes j lane₁ found₁).mono drains fun _ holds => holds

/-- Steps lead every thread from one account that has kept order to another. -/
theorem Disciplined.leads {R : Config → Account → Account → Prop} {us : Nat → List OpInstance}
    {rs : Nat → List Retirement} {v : Window M} (h : c.Disciplined config rest)
    (step : ∀ {drained : Time} {a b : Account}, a.Disciplined config drained rest → R config a b →
      b.Disciplined config drained rest)
    (leads : Window.Leads R us rs c.window v) :
    Disciplined config rest
      { window := v
        pushed := fun i => c.pushed i ++ us i
        retired := fun i => c.retired i ++ rs i } := by
  refine ⟨leads.config.trans h.config_eq, fun i lane found => ?_⟩
  obtain ⟨lane₀, found₀, steps⟩ := rel_right (leads.lanes i) found
  have run := steps (c.pushed i) (c.retired i)
  rw [h.config_eq] at run
  exact ((h.lanes i lane₀ found₀).run step run).mono leads.drains fun _ holds => holds

theorem Disciplined.worked {v : Window M} (h : c.Disciplined config Account.Primed)
    (worked : Window.Worked Thread.Intake c.window v) :
    Disciplined config Account.Primed { c with window := v } := by
  refine ⟨worked.config.trans h.config_eq, fun i lane found => ?_⟩
  obtain ⟨lane₀, found₀, steps⟩ := worked.exists_lane found
  have account : ({ c with window := v } : Chronicle M).account i lane =
      (c.account i lane₀).withThread lane.thread := by
    unfold Chronicle.account
    rw [worked.clock]
  rw [account]
  rw [h.config_eq] at steps
  exact ((h.lanes i lane₀ found₀).intakes steps).mono worked.drains fun _ holds => holds

theorem Disciplined.kept {v : Window M} (h : c.Disciplined config Account.Primed)
    (kept : Window.Worked (fun _ _ => Thread.SameFlow) c.window v) :
    Disciplined config Account.Primed { c with window := v } :=
  h.worked (kept.mono .keep)

/-! ## Section 2: The issue stage -/

variable [MemorySystem M]

/-- The pass lets an entry issue, and counts it. -/
theorem Disciplined.issued {v x : Window M} {i k cutoff : Nat} {lane : Lane M} {pass : Window.IssuePass}
    {e : Entry} {done : Time} (h : c.Disciplined config Account.Primed)
    (found : c.window.lanes[i]? = some lane) (inside : k < lane.thread.inWindow)
    (entry : lane.thread.ring.get? k = some e) (waiting : e.isDone = false)
    (verdict : c.window.judge pass e = .issue)
    (looked : c.window.clock.now ≠ .never → Unlinked (c.pushed i) →
      Account.Looked pass k (c.account i lane))
    (issued : Window.issueEntry i k c.window = .ok done v)
    (accounted : Window.modifyThread i (Thread.accountLongLoad cutoff c.window.clock.now k) v = .ok () x) :
    ∃ lane', x.lanes[i]? = some lane' ∧ Disciplined config Account.Primed { c with window := x } ∧
      (x.clock.now ≠ .never → Unlinked (c.pushed i) →
        Account.Looked pass (k + 1) (({ c with window := x } : Chronicle M).account i lane')) ∧
      lane'.thread.inWindow = lane.thread.inWindow := by
  have at_i : i < c.window.lanes.size := (Array.getElem?_eq_some_iff.mp found).1
  have here := h.lanes i lane found
  obtain ⟨th, e', lane₁, asked, started, -, rfl⟩ := Window.issueEntry_eq_ok found entry issued
  obtain ⟨lane₂, found₂, rfl⟩ := Window.modifyThread_eq_ok.mp accounted
  obtain rfl : lane₁ = lane₂ := by
    simpa [at_i] using found₂
  obtain ⟨waiting', ready', span⟩ := asked.same
  obtain ⟨kept, quiet⟩ := here.asked inside entry waiting asked
  have entry' := asked.entry entry
  have op : e'.u.op = e.u.op := asked.op_eq
  have ready : e'.ready ≤ c.window.clock.now := ready' ▸ (Window.judge_eq_issue verdict).1
  have inside' : k < th.inWindow := span ▸ inside
  -- asking memory comes first and changes nothing that the pass has looked at
  have may : c.window.clock.now ≠ .never → Unlinked (c.pushed i) →
      Account.MayIssue c.window.lastStoreDone ((c.account i lane).withThread th)
        ((c.retired i).length + k) e'.u.op := by
    intro intime unlinked
    obtain ⟨-, fenced, -⟩ := here.keeps intime unlinked
    rw [op]
    exact ((looked intime unlinked).mayIssue (w := c.window) rfl here.reachable.timed fenced intime inside
      entry verdict).quiet quiet
  have started' := kept.issue inside' entry' (waiting' ▸ waiting) ready started may
  have issues := Account.issues_of_start (a := (c.account i lane).withThread th) inside' entry'
    (waiting' ▸ waiting) ready started
  have same := Thread.sameFlow_accountLongLoad cutoff c.window.clock.now k lane₁.thread
  have counted := started'.quiet (.keep same) (Account.quiet_of_sameFlow same)
  have drains : c.window.lastStoreDone ≤ e'.drainedFrom c.window.lastStoreDone c.window.clock :=
    e'.le_drainedFrom _ _
  let counter : Lane M := { lane₁ with thread := lane₁.thread.accountLongLoad cutoff c.window.clock.now k }
  have lanes : (c.window.lanes.setIfInBounds i lane₁).setIfInBounds i counter = c.window.lanes.setIfInBounds i counter := by
    simp
  refine ⟨counter, by simp [at_i, counter], h.setLane found rfl rfl drains lanes counted,
    fun intime unlinked => ?_, ?_⟩
  · exact (((looked intime unlinked).quiet quiet).issue intime issues).quiet (Account.quiet_of_sameFlow same)
  · show (lane₁.thread.accountLongLoad cutoff c.window.clock.now k).inWindow = lane.thread.inWindow
    rw [same.inWindow, (Thread.start_eq_ok started).1, span]

/-- The turn of a thread in the issue stage, once the pass has come to position `k`. -/
theorem Disciplined.issueFrom {v : Window M} {i n k : Nat} {lane : Lane M}
    {pass pass' : Window.IssuePass} (h : c.Disciplined config Account.Primed)
    (found : c.window.lanes[i]? = some lane) (inside : k + n ≤ lane.thread.inWindow)
    (looked : c.window.clock.now ≠ .never → Unlinked (c.pushed i) →
      Account.Looked pass k (c.account i lane))
    (ran : Window.issueFrom i n k pass c.window = .ok pass' v) :
    Disciplined config Account.Primed { c with window := v } := by
  induction n generalizing c k pass lane with
  | zero =>
    obtain ⟨-, rfl⟩ := pure_eq_ok.mp ran
    exact h
  | succ n ih =>
    have here := h.lanes i lane found
    have timed := here.reachable.timed
    cases Window.looks_of_issueFrom found ran with
    | nothing _ _ same =>
      rw [same]
      exact h
    | done entry waiting rest =>
      refine ih h found (by omega) (fun intime unlinked => ?_) rest
      exact ((looked intime unlinked).skip timed entry waiting).congr rfl rfl
    | stop _ _ _ _ same =>
      rw [same]
      exact h
    | @issue e done w₁ w₂ entry waiting verdict issued accounted rest =>
      obtain ⟨lane₂, found₂, h₂, looked₂, span₂⟩ := h.issued found (by omega) entry waiting verdict
        (fun intime unlinked => (looked intime unlinked).congr rfl rfl) issued accounted
      rcases rest with ⟨-, rfl⟩ | rest
      · exact h₂
      · refine ih (c := { c with window := w₂ }) h₂ found₂ (by omega) (fun intime unlinked => ?_) rest
        exact (looked₂ intime unlinked).congr rfl rfl
    | @wait e entry waiting goesOn waits rest =>
      rcases rest with ⟨-, rfl⟩ | rest
      · exact h
      · refine ih h found (by omega) (fun intime unlinked => ?_) rest
        obtain ⟨-, -, primed⟩ := here.keeps intime unlinked
        -- that the entry is ready at some time makes no difference to what the pass has seen
        have noted : Account.Looked (pass.noting e.ready) k (c.account i lane) :=
          (looked intime unlinked).congr rfl rfl
        exact noted.hold (w := c.window) rfl (here.reachable.attuned unlinked intime) timed primed
          (show k < lane.thread.inWindow by omega) entry waits goesOn

theorem Disciplined.issueLane {v : Window M} {i : Nat} {event : Time} {result : Bool × Time}
    (h : c.Disciplined config Account.Primed) (ran : Window.issueLane i event c.window = .ok result v) :
    Disciplined config Account.Primed { c with window := v } := by
  obtain ⟨lane, found, turn⟩ := Window.issueTurn_of_issueLane ran
  cases turn with
  | asleep _ _ same =>
    rw [same]
    exact h
  | empty _ _ same =>
    rw [same]
    exact h
  | look _ _ looked noted _ =>
    have passed := h.issueFrom found (by omega) (fun _ _ => Account.looked_start _) looked
    exact passed.kept (.modifyThread noted fun _ => ⟨rfl, rfl, rfl, rfl, rfl, rfl, rfl⟩)

theorem Disciplined.issueLanes {v : Window M} {lanes : List Nat} {event : Time}
    {result : Option Nat × Time} (h : c.Disciplined config Account.Primed)
    (ran : Window.issueLanes lanes event c.window = .ok result v) :
    Disciplined config Account.Primed { c with window := v } := by
  induction lanes generalizing c event with
  | nil =>
    obtain ⟨-, rfl⟩ := pure_eq_ok.mp ran
    exact h
  | cons i others ih =>
    obtain ⟨any, event', w₁, turn, ⟨-, -, rfl⟩ | ⟨-, onwards⟩⟩ := Window.issueLanes_cons_eq_ok ran
    · exact h.issueLane turn
    · exact ih (c := { c with window := w₁ }) (h.issueLane turn) onwards

theorem Disciplined.issue {v : Window M} {event : Time} (h : c.Disciplined config Account.Primed)
    (ran : Window.issue c.window = .ok event v) :
    Disciplined config Account.Primed { c with window := v } := by
  obtain ⟨last, w₁, turns, rfl⟩ := Window.issue_eq_ok ran
  have done := h.issueLanes turns
  exact ⟨done.config_eq, done.lanes⟩

/-! ## Section 3: Cycles, runs and calls -/

omit [MemorySystem M] in
theorem Disciplined.advance {span : Time} (h : c.Disciplined config fun _ => True)
    (long : c.window.clock.period.length ≤ span) :
    Disciplined config Account.Rested { c with window := c.window.advance span } := by
  refine ⟨h.config_eq, fun i lane found => ?_⟩
  obtain ⟨lane₀, found₀, rfl⟩ : ∃ lane₀, c.window.lanes[i]? = some lane₀ ∧ _ := by
    simpa [Window.advance] using found
  let charged := lane₀.thread.charge c.window.config.window.loadHistogram c.window.clock.now span
  have same : lane₀.thread.SameFlow charged := ⟨rfl, rfl, rfl, rfl, rfl, rfl, rfl⟩
  have ticks : Account.Drift config ((c.account i lane₀).withThread charged)
      { (c.account i lane₀).withThread charged with clock := c.window.clock.addLatency span } :=
    .tick rfl (Time.le_add_right _ _)
  have kept := (h.lanes i lane₀ found₀).drift (.keep same) fun _ holds => holds
  have ticked := kept.drift ticks fun _ holds => holds
  refine ⟨ticked.reachable, fun intime unlinked => ?_⟩
  obtain ⟨ordered, fenced, -⟩ := ticked.keeps intime unlinked
  have timed := (h.lanes i lane₀ found₀).reachable.timed
  exact ⟨ordered, fenced, timed.rested long⟩

theorem Disciplined.cycle {stride : Window.Stride M} {running : Running} {v : Window M}
    (h : c.Disciplined config Account.Rested) (striding : Window.Striding stride)
    (ran : Window.cycle stride running c.window = .ok () v) :
    Disciplined config Account.Rested
      { c with
        window := v
        retired := fun i => c.retired i ++ Window.leavingInCycle running i c.window } := by
  obtain ⟨_, _, event, w₁, w₂, w₃, dispatched, issued, committed, rfl⟩ := Window.cycle_eq_ok ran
  have entered := (h.mono fun _ rested => rested.primed).worked (Window.worked_dispatch dispatched)
  have started := entered.issue issued
  have ordered : Disciplined config (fun _ => True) { c with window := w₂ } := started.mono fun _ _ => trivial
  have left := ordered.leads (fun done left => done.drift left.drift fun _ holds => holds) committed
  have passed := left.advance (striding w₃ event)
  simpa using passed

theorem Disciplined.run {stride : Window.Stride M} {running : Running} {grace : Nat} {w v : Window M}
    {us : Nat → List OpInstance} {rs : Nat → List Retirement}
    (h : Disciplined config Account.Rested { window := w, pushed := us, retired := rs })
    (striding : Window.Striding stride) (ran : Window.run stride running grace w = .ok () v) :
    Disciplined config Account.Rested
      { window := v
        pushed := us
        retired := fun i =>
          rs i ++ (Window.cycles stride running grace w).flatMap (Window.leavingInCycle running i) } := by
  refine Window.induction_run (P := fun ws x => Disciplined config Account.Rested
    { window := x, pushed := us, retired := fun i => rs i ++ ws.flatMap (Window.leavingInCycle running i) })
    ran (by simpa using h) fun before _ cycled => ?_
  simpa [List.flatMap_append] using before.cycle striding cycled

omit [MemorySystem M] in
/-- The thread that is set up has done nothing, and the others go on as they were. -/
theorem Disciplined.initializeThread {i : Nat} {memory : M} {predictor : Option Predictor} {w : Window M}
    (h : c.Disciplined config Account.Rested) (truthful : Truthful config c)
    (ran : Window.initializeThread i memory predictor c.window = .ok () w) :
    Disciplined config Account.Rested { c with window := w } := by
  obtain ⟨-, th, made, rfl⟩ := Window.initializeThread_eq_ok ran
  rw [h.config_eq] at made
  refine ⟨h.config_eq, fun j lane found => ?_⟩
  rcases truthful.setUp found with ⟨rfl, pushed, retired⟩ | old
  · show Account.Disciplined _ _ _ { pushed := c.pushed j, retired := c.retired j, .. }
    rw [pushed, retired]
    refine .new _ made fun k x hx => ?_
    rw [Account.entries_new made] at hx
    cases hx
  · exact h.lanes j lane old

theorem Disciplined.after {stride : Window.Stride M} {call : Window.Call M} {c' : Chronicle M}
    (h : c.Disciplined config Account.Rested) (truthful : Truthful config c)
    (striding : Window.Striding stride) (made : c.after stride call = .ok c') :
    c'.Disciplined config Account.Rested := by
  obtain ⟨v, performed, rfl⟩ := after_eq_ok.mp made
  cases call.kind with
  | initializeThread i memory predictor =>
    have set := h.initializeThread truthful performed
    simpa [Window.Call.takesIn, Window.Call.letsOut] using set
  | execute running =>
    have ran := h.run striding performed
    simpa [Window.Call.takesIn, Window.Call.letsOut] using ran
  | other old idle =>
    exact h.leads (fun done drift => done.drift drift fun persists rested => rested.persist persists)
      (Window.Call.drifts performed old idle)

omit [MemorySystem M] in
/-- What has left has issued in order. -/
theorem Disciplined.ordered {i : Nat} {r : Retirement} (h : c.Disciplined config Account.Rested)
    (truthful : Truthful config c) (unlinked : Unlinked (c.pushed i)) (intime : c.window.clock.now ≠ .never)
    (mem : r ∈ c.retired i) :
    ∃ a : Account, a.clock = c.window.clock ∧ a.retired = c.retired i ∧ Account.Timed a ∧
      Account.Ordered c.window.lastStoreDone a := by
  cases found : c.window.lanes[i]? with
  | none =>
    rw [(truthful.absent i found).2] at mem
    cases mem
  | some lane =>
    have kept := h.lanes i lane found
    exact ⟨c.account i lane, rfl, rfl, kept.reachable.timed, (kept.keeps intime unlinked).1⟩

end Chronicle

/-! ## Section 5: The theorem -/

namespace Account

variable {a : Account} {drained : Time} {y x : Retirement} {j k : Nat}

end Account

/-- The clock of the engine moves by a cycle at least. -/
theorem Window.striding_toEvent {M : Type} : Striding (M := M) Window.toEvent := by
  intro w event
  unfold toEvent
  split
  · rename_i jumps
    simp only [Bool.and_eq_true, decide_eq_true_iff] at jumps
    have later := jumps.2
    rw [Time.lt_iff_toNat_lt, Clock.next, Time.toNat_add] at later
    have := event.toNat_le_limit
    rw [Time.le_iff_toNat_le, Time.toNat_sub]
    omega
  · exact le_refl _

namespace Chronicle

end Chronicle

end CoreTiming
