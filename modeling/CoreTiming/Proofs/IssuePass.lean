import CoreTiming.Proofs.IssueOrder

/-!
# The pass over the window

The issue stage looks at the entries of a thread from the oldest one on.  It allows a store or a barrier
only behind entries that have issued, and no load once it has passed a barrier that is ready.  The oldest
entry is ready by the cycle after it entered the window, so a barrier there does not go unnoticed:
`Account.Primed` says that where the oldest entry has just entered, nothing else is ready either.

`Window.Disciplined` is what holds of all threads of a window on the way through a cycle.
-/

namespace CoreTiming

open Faulting

namespace Account

variable {config : Config} {a b : Account} {e : Entry} {drained drained' : Time}

/-! ## Section 1: The oldest entry -/

/-- Nothing in the window is ready. -/
def Calm (a : Account) : Prop :=
  ∀ (k : Nat) (x : Entry), a.entries[k]? = some x → a.retired.length ≤ k → k < a.edge →
    a.clock.now < x.ready

/-- All that is in the window has been there for a cycle. -/
def Rested (a : Account) : Prop :=
  ∀ (k : Nat) (x : Entry), a.entries[k]? = some x → a.retired.length ≤ k → k < a.edge →
    x.dispatched + a.clock.period.length ≤ a.clock.now

/-- The oldest entry has been in the window for a cycle, or nothing there is ready. -/
def Primed (a : Account) : Prop :=
  ∀ x : Entry, a.entries[a.retired.length]? = some x → a.retired.length < a.edge →
    x.dispatched + a.clock.period.length ≤ a.clock.now ∨ Calm a

theorem Rested.primed (h : Rested a) : Primed a :=
  fun x oldest inside => .inl (h _ x oldest (Nat.le_refl _) inside)

theorem Rested.persist (h : Rested a) (persists : Persists a b) : Rested b := by
  intro k x hx inRing within
  have left := persists.left
  have edge := persists.edge
  obtain ⟨y, hy, point, -⟩ := rel_right (persists.kept k within) hx
  rw [point, persists.period]
  exact le_trans (h k y hy (by omega) (by omega)) persists.later

theorem Primed.enter {e' : Entry} {th : Thread} (h : Primed a) (intime : a.clock.now ≠ .never)
    (enters : Enters config a b e e' th) : Primed b := by
  have edge := enters.edge_eq
  have later : a.clock.now < a.clock.next := by
    by_cases last : a.clock.next = .never
    · rw [last]
      exact lt_of_le_of_ne (Time.le_never _) intime
    · exact a.clock.lt_next last
  have calm : Calm a → Calm b := by
    intro calm k x hx inRing within
    rw [enters.retired] at inRing
    rw [enters.clock]
    rcases enters.entry_before hx with ⟨rfl, rfl⟩ | ⟨hne, y, hy, listed⟩
    · exact lt_of_lt_of_le later (le_max_right _ _)
    · rw [listed.frame]
      exact calm k y hy inRing (by omega)
  intro x oldest inside
  rw [enters.retired] at oldest inside
  rw [enters.clock]
  by_cases empty : a.retired.length = a.edge
  · exact .inr (calm fun k y _ inRing within => by omega)
  · obtain ⟨y, hy, listed⟩ := enters.entry_elsewhere oldest empty
    rw [listed.frame]
    exact (h y hy (by omega)).imp_right calm

theorem Primed.quiet (h : Primed a) (quiet : Quiet a b) : Primed b := by
  obtain ⟨same, entries, -⟩ := quiet
  have edge := same.edge_eq
  intro x oldest inside
  rw [same.retired] at oldest inside
  obtain ⟨y, hy, point⟩ := entries.right oldest
  rw [point, same.clock]
  refine (h y hy (by omega)).imp_right fun calm k x hx inRing within => ?_
  obtain ⟨y, hy, point⟩ := entries.right hx
  rw [same.retired] at inRing
  rw [point, same.clock]
  exact calm k y hy inRing (by omega)

theorem Primed.issue {done : Time} {i : Nat} (h : Primed a) (issues : Issues a b i e done) :
    Primed b := by
  have edge := issues.same.edge_eq
  intro x oldest inside
  rw [issues.same.retired] at oldest inside
  -- something has issued, so something was ready
  have stirred : ¬Calm a := fun calm =>
    absurd issues.ready (not_le.mpr (calm i e issues.entry issues.inRing issues.inWindow))
  have rested : ∀ y, a.entries[a.retired.length]? = some y →
      y.dispatched + a.clock.period.length ≤ a.clock.now :=
    fun y hy => (h y hy (by omega)).resolve_right stirred
  rw [issues.same.clock]
  rcases issues.entry_before oldest with ⟨here, woken⟩ | ⟨-, y, hy, woken⟩
  · rw [woken.frame]
    exact .inl (rested e (here ▸ issues.entry))
  · rw [woken.frame]
    exact .inl (rested y hy)

/-! ## Section 2: What holds on the way through a cycle -/

/-- Memory order has been kept, and `rest` holds, as long as the clock is not at the end of time and
micro-ops list no producers of their own. -/
structure Disciplined (config : Config) (drained : Time) (rest : Account → Prop) (a : Account) : Prop where
  /-- Steps lead to the account. -/
  reachable : Reachable config a
  /-- The order has been kept. -/
  keeps : a.clock.now ≠ .never → Unlinked a.pushed → Ordered drained a ∧ Fenced a ∧ rest a

theorem Disciplined.mono {rest rest' : Account → Prop} (h : Disciplined config drained rest a)
    (later : drained ≤ drained') (weaker : a.clock.now ≠ .never → rest a → rest' a) :
    Disciplined config drained' rest' a := by
  refine ⟨h.reachable, fun intime unlinked => ?_⟩
  obtain ⟨ordered, fenced, holds⟩ := h.keeps intime unlinked
  have same : Persists a a := persists_tick rfl (le_refl _)
  exact ⟨ordered.persist later same h.reachable.timed, fenced, weaker intime holds⟩

theorem Disciplined.step {rest : Account → Prop} (h : Disciplined config drained rest a)
    (step : Step config a b)
    (keeps : b.clock.now ≠ .never → Unlinked b.pushed → a.clock.now ≠ .never → Unlinked a.pushed →
      Ordered drained a → Fenced a → rest a → Ordered drained' b ∧ Fenced b ∧ rest b) :
    Disciplined config drained' rest b := by
  refine ⟨.step h.reachable step, fun intime unlinked => ?_⟩
  have intime' : a.clock.now ≠ .never := Time.ne_never_of_le (h.reachable.inOrder.proceeds step).later intime
  have unlinked' := step.unlinked unlinked
  obtain ⟨ordered, fenced, holds⟩ := h.keeps intime' unlinked'
  exact keeps intime unlinked intime' unlinked' ordered fenced holds

/-- A step on which no micro-op moves inside the thread. -/
theorem Drift.persists (drift : Drift config a b) (order : InOrder config a) : Persists a b := by
  cases drift with
  | keep same => exact persists_quiet (quiet_of_sameFlow same)
  | push same pushed => exact persists_take order (takes_of_enqueue order same pushed) rfl
  | retire oldest done stays => exact persists_release oldest
  | flush oldest done flushes flushed => exact persists_restart oldest (restarts_of_flush flushed)
  | tick period later => exact persists_tick period later

theorem Disciplined.drift {rest : Account → Prop} (h : Disciplined config drained rest a)
    (drift : Drift config a b) (rests : Persists a b → rest a → rest b) :
    Disciplined config drained rest b := by
  have persists := drift.persists h.reachable.inOrder
  refine h.step drift.step fun intime unlinked _ _ ordered fenced holds => ?_
  exact ⟨ordered.persist (le_refl _) persists (h.reachable.step drift.step).timed,
    fenced.persist persists, rests persists holds⟩

/-- Where nothing gets any further, order is kept. -/
theorem Disciplined.quiet {th : Thread} (h : Disciplined config drained Primed a)
    (work : Thread.Work config a.clock a.thread th) (quiet : Quiet a (a.withThread th)) :
    Disciplined config drained Primed (a.withThread th) := by
  have step : Step config a (a.withThread th) := .work work
  have persists := persists_quiet quiet
  refine h.step step fun _ _ _ _ ordered fenced primed => ?_
  exact ⟨ordered.persist (le_refl _) persists (h.reachable.step step).timed, fenced.persist persists,
    primed.quiet quiet⟩

theorem Disciplined.intake {th : Thread} (h : Disciplined config drained Primed a)
    (intake : Thread.Intake config a.clock a.thread th) :
    Disciplined config drained Primed (a.withThread th) := by
  cases intake with
  | keep same => exact h.quiet (.keep same) (quiet_of_sameFlow same)
  | fetch next => exact h.quiet (.fetch next) (quiet_fetch next)
  | dispatch next linked =>
    have enters := enters_of_dispatch next linked
    refine h.step (.work (.dispatch next linked)) fun _ _ intime _ ordered fenced primed => ?_
    exact ⟨ordered.enter h.reachable.timed enters,
      fenced.enter ordered h.reachable.inOrder h.reachable.timed enters, primed.enter intime enters⟩

theorem Disciplined.intakes {th : Thread} (h : Disciplined config drained Primed a)
    (intakes : Thread.Intakes config a.clock a.thread th) :
    Disciplined config drained Primed (a.withThread th) := by
  induction intakes with
  | refl => exact h
  | tail _ intake ih => exact ih.intake intake

theorem Disciplined.run {rest : Account → Prop} {R : Account → Account → Prop}
    (h : Disciplined config drained rest a)
    (step : ∀ {a b : Account}, Disciplined config drained rest a → R a b →
      Disciplined config drained rest b)
    (run : Relation.ReflTransGen R a b) : Disciplined config drained rest b := by
  induction run with
  | refl => exact h
  | tail _ one ih => exact step ih one

/-- Asking memory moves no entry. -/
theorem Disciplined.asked {th : Thread} {n : Nat} {e' : Entry} (h : Disciplined config drained Primed a)
    (inside : n < a.thread.inWindow) (entry : a.thread.ring.get? n = some e) (waiting : e.isDone = false)
    (asked : a.thread.Asked n e th e') :
    Disciplined config drained Primed (a.withThread th) ∧ Quiet a (a.withThread th) := by
  rcases asked with ⟨rfl, rfl⟩ | ⟨hit, cycles, u, resolved, rfl, rfl⟩
  · exact ⟨h, quiet_of_sameFlow (.refl _)⟩
  · have quiet := quiet_resolve entry waiting resolved
    exact ⟨h.quiet (.resolve inside entry waiting resolved) quiet, quiet⟩

/-- An entry that may do so issues. -/
theorem Disciplined.issue {th : Thread} {i : Nat} {latency : Time}
    (h : Disciplined config drained Primed a) (inside : i < a.thread.inWindow)
    (entry : a.thread.ring.get? i = some e) (waiting : e.isDone = false) (ready : e.ready ≤ a.clock.now)
    (started : Thread.start i e a.clock.now (e.doneFrom a.clock) latency a.thread = .ok () th)
    (may : a.clock.now ≠ .never → Unlinked a.pushed →
      MayIssue drained a (a.retired.length + i) e.u.op) :
    Disciplined config (e.drainedFrom drained a.clock) Primed (a.withThread th) := by
  have issues := issues_of_start inside entry waiting ready started
  refine h.step (.work (.issue inside entry waiting ready started))
    fun _ _ intime unlinked ordered fenced primed => ?_
  have allowed := may intime unlinked
  exact ⟨ordered.issue h.reachable.lasting intime allowed issues,
    fenced.issue h.reachable.inOrder intime allowed issues, primed.issue issues⟩

/-- Nothing has happened to a thread that has just been set up. -/
theorem Disciplined.new {rest : Account → Prop} {clock : Clock} {th : Thread}
    {predictor : Option Predictor} (drained : Time)
    (made : Thread.new config.core.windowSize config.window.loadHistogram predictor = .ok th)
    (rests : rest { clock, thread := th }) :
    Disciplined config drained rest { clock, thread := th } := by
  have none : ∀ k : Nat, ({ clock, thread := th } : Account).entries[k]? = none := entries_new made
  refine ⟨.new made, fun _ _ => ⟨⟨fun j k p e hp => ?_, fun k e he => ?_, fun j k p e hp => ?_⟩,
    ⟨fun j p hp => ?_, fun j k p e hp => ?_⟩, rests⟩⟩
  case refine_2 =>
    rw [none] at he
    cases he
  all_goals
    rw [none] at hp
    cases hp

/-- When a cycle has passed, all that is in the window has been there for one. -/
theorem Timed.rested (h : Timed a) {span : Time} (long : a.clock.period.length ≤ span) :
    Rested { a with clock := a.clock.addLatency span } :=
  fun k x hx _ within => Time.add_le_add (h.dispatched_le k x hx within) long

/-! ## Section 3: What a pass has seen -/

/-- What the pass over the window knows when it comes to position `n`. -/
structure Looked (pass : Window.IssuePass) (n : Nat) (a : Account) : Prop where
  /-- As long as nothing has stayed, everything so far has issued. -/
  atHead : pass.atHead = true → ∀ (m : Nat) (x : Entry), a.thread.ring.get? m = some x → m < n →
    x.issued ≠ .never
  /-- Unless nothing is ready, a barrier in the first place has been noticed. -/
  fenced : 0 < n → pass.fenced = false → ∀ x : Entry, a.thread.ring.get? 0 = some x →
    x.u.op.isBarrier = true → x.issued = .never → Calm a

end Account

namespace Window

variable {M : Type} {w : Window M} {pass : IssuePass} {e : Entry}

/-- What the stage demands of an entry that issues. -/
theorem judge_eq_issue (h : w.judge pass e = .issue) :
    e.ready ≤ w.clock.now ∧ (e.u.op.isLoad = true → pass.fenced = false) ∧
      (e.u.op.isStore = true ∨ e.u.op.isBarrier = true → pass.atHead = true) ∧
      (e.u.op.isBarrier = true → w.lastStoreDone ≤ w.clock.now) := by
  unfold judge storesDrained at h
  unfold MicroOp.isBarrier
  by_cases early : w.clock.now < e.ready
  · simp [early] at h
  refine ⟨not_lt.mp early, fun load => ?_, fun kind => ?_, fun barrier => ?_⟩
  · cases fenced : pass.fenced with
    | false => rfl
    | true => simp [early, fenced, load] at h
  · by_contra behind
    rcases kind with store | barrier
    · have load : e.u.op.isLoad = false := by
        simp only [MicroOp.isLoad, MicroOp.isStore, beq_iff_eq] at store ⊢
        simp [store]
      simp [early, behind, store, load] at h
      grind
    · simp only [Bool.and_eq_true] at barrier
      simp [early, behind, barrier.1.1] at h
      grind
  · simp only [Bool.and_eq_true, Bool.not_eq_true'] at barrier
    by_contra pending
    simp [early, pending, barrier.1.1, barrier.1.2, barrier.2] at h
    split at h <;> cases h

/-- A barrier that is ready and stays is noticed. -/
theorem judge_ne_wait (barrier : e.u.op.isBarrier = true) (ready : e.ready ≤ w.clock.now) :
    w.judge pass e ≠ .wait := by
  unfold MicroOp.isBarrier at barrier
  simp only [Bool.and_eq_true, Bool.not_eq_true'] at barrier
  unfold judge
  simp [not_lt.mpr ready, barrier.1.1, barrier.1.2, barrier.2]
  split
  · split <;> simp
  · split <;> simp

end Window

namespace Account

variable {M : Type} {config : Config} {a b : Account} {e : Entry} {pass : Window.IssuePass} {n : Nat}

/-- The times that a pass has noted make no difference to what it knows. -/
theorem Looked.congr {pass' : Window.IssuePass} (h : Looked pass n a) (atHead : pass'.atHead = pass.atHead)
    (fenced : pass'.fenced = pass.fenced) : Looked pass' n a := by
  refine ⟨?_, ?_⟩
  · rw [atHead]
    exact h.atHead
  · rw [fenced]
    exact h.fenced

theorem Looked.quiet (h : Looked pass n a) (quiet : Quiet a b) : Looked pass n b := by
  obtain ⟨same, entries, -⟩ := quiet
  have before : ∀ {m : Nat} {x : Entry}, b.thread.ring.get? m = some x →
      ∃ y, a.thread.ring.get? m = some y ∧ y.SamePoint x := by
    intro m x hx
    rw [← Ring.getElem?_toList, ← entries_add, same.retired] at hx
    obtain ⟨y, hy, point⟩ := entries.right hx
    rw [entries_add, Ring.getElem?_toList] at hy
    exact ⟨y, hy, point⟩
  refine ⟨fun head m x hx older => ?_, fun some free x hx barrier waiting => ?_⟩
  · obtain ⟨y, hy, point⟩ := before hx
    rw [point]
    exact h.atHead head m y hy older
  · obtain ⟨y, hy, point⟩ := before hx
    rw [point] at barrier waiting
    have calm := h.fenced some free y hy barrier waiting
    intro k x hx inRing within
    obtain ⟨y, hy, point⟩ := entries.right hx
    rw [same.retired] at inRing
    rw [same.edge_eq] at within
    rw [point, same.clock]
    exact calm k y hy inRing within

theorem looked_start (a : Account) : Looked {} 0 a :=
  ⟨fun _ m x _ before => by omega, fun some => by omega⟩

/-- The pass goes past an entry that has issued. -/
theorem Looked.skip (h : Looked pass n a) (timed : Timed a) (entry : a.thread.ring.get? n = some e)
    (done : e.isDone = true) : Looked pass (n + 1) a := by
  have issued : e.issued ≠ .never := by
    rw [← Ring.getElem?_toList, ← entries_add] at entry
    exact timed.issued_of_done entry (Entry.isDone_iff.mp done)
  refine ⟨fun head m x hx before => ?_, fun _ free x hx barrier waiting => ?_⟩
  · by_cases here : m = n
    · subst here
      rw [entry] at hx
      cases hx
      exact issued
    · exact h.atHead head m x hx (by omega)
  · by_cases first : n = 0
    · subst first
      rw [entry] at hx
      cases hx
      exact absurd waiting issued
    · exact h.fenced (by omega) free x hx barrier waiting

/-- The pass goes past an entry that stays. -/
theorem Looked.hold {w : Window M} (h : Looked pass n a) (clock : a.clock = w.clock)
    (attuned : Attuned a) (timed : Timed a) (primed : Primed a) (inside : n < a.thread.inWindow)
    (entry : a.thread.ring.get? n = some e) (stays : w.judge pass e ≠ .issue)
    (goes : w.judge pass e ≠ .stop) :
    Looked (pass.hold w.clock.now e (w.judge pass e = .fence)) (n + 1) a := by
  refine ⟨fun head => (by cases head), fun _ free x hx barrier waiting => ?_⟩
  rw [Window.IssuePass.hold, Bool.or_eq_false_iff, decide_eq_false_iff_not] at free
  obtain ⟨free, unnoticed⟩ := free
  by_cases first : n = 0
  · subst first
    rw [entry] at hx
    cases hx
    -- the barrier is not ready, so it has just entered the window
    have early : a.clock.now < e.ready := by
      by_contra ready
      rw [not_lt, clock] at ready
      have noticed : w.judge pass e ≠ .wait := Window.judge_ne_wait barrier ready
      cases verdict : w.judge pass e <;> simp_all
    have oldest : a.entries[a.retired.length]? = some e := by
      rw [← Ring.getElem?_toList, ← entries_add] at entry
      exact entry
    have inside : a.retired.length < a.edge := by
      unfold edge
      omega
    refine (primed e oldest inside).resolve_left fun rested => ?_
    have ready := attuned.ready_of_oldest timed inside oldest
    rw [max_eq_left rested] at ready
    exact absurd ready (not_le.mpr early)
  · exact h.fenced (by omega) free x hx barrier waiting

/-- What the stage lets issue may issue. -/
theorem Looked.mayIssue {w : Window M} (h : Looked pass n a) (clock : a.clock = w.clock)
    (timed : Timed a) (fenced : Fenced a) (intime : a.clock.now ≠ .never)
    (inside : n < a.thread.inWindow) (entry : a.thread.ring.get? n = some e)
    (verdict : w.judge pass e = .issue) :
    MayIssue w.lastStoreDone a (a.retired.length + n) e.u.op := by
  obtain ⟨ready, free, head, drained⟩ := Window.judge_eq_issue verdict
  rw [← clock] at ready drained
  refine ⟨fun j p hp older yields => ?_, drained⟩
  by_cases left : j < a.retired.length
  · exact timed.issued_of_left intime hp left
  rw [not_lt] at left
  have at_n : a.entries[a.retired.length + n]? = some e := by
    rw [entries_add, Ring.getElem?_toList]
    exact entry
  have at_j : a.thread.ring.get? (j - a.retired.length) = some p := by
    rw [← Ring.getElem?_toList, ← entries_of_le left]
    exact hp
  unfold MicroOp.yieldsTo at yields
  simp only [Bool.or_eq_true, Bool.and_eq_true] at yields
  rcases yields with kind | ⟨load, barrier⟩
  · exact h.atHead (head kind) _ p at_j (by omega)
  · intro waiting
    have oldest := fenced.eq_oldest timed intime hp at_n left older (by unfold edge; omega) barrier load
      waiting ready
    subst oldest
    rw [Nat.sub_self] at at_j
    have calm := h.fenced (by omega) (free load) p at_j barrier waiting
    exact absurd ready (not_le.mpr (calm _ e at_n (by omega) (by unfold edge; omega)))

/-- The pass goes past an entry that issues. -/
theorem Looked.issue {done : Time} (h : Looked pass n a) (intime : a.clock.now ≠ .never)
    (issues : Issues a b (a.retired.length + n) e done) : Looked pass (n + 1) b := by
  have before : ∀ {m : Nat} {x : Entry}, b.thread.ring.get? m = some x →
      ∃ y y' : Entry, a.thread.ring.get? m = some y ∧ y'.Stands x ∧ y'.u = y.u ∧ (m ≠ n → y' = y) ∧
        (m = n → y'.issued = a.clock.now) := by
    intro m x hx
    rw [← Ring.getElem?_toList, ← entries_add, issues.same.retired] at hx
    obtain ⟨y, y', hy, -, stands, u, -, others, itself⟩ := issues.origin hx
    rw [entries_add, Ring.getElem?_toList] at hy
    exact ⟨y, y', hy, stands, u, fun other => others (by omega), fun same => by
      rw [(itself (by omega)).2]⟩
  refine ⟨fun head m x hx older => ?_, fun _ free x hx barrier waiting => ?_⟩
  · obtain ⟨y, y', hy, stands, -, others, itself⟩ := before hx
    rw [stands.issued_eq]
    by_cases here : m = n
    · rw [itself here]
      exact intime
    · rw [others here]
      exact h.atHead head m y hy (by omega)
  · obtain ⟨y, y', hy, stands, u, others, itself⟩ := before hx
    rw [stands.op_eq, u] at barrier
    rw [stands.issued_eq] at waiting
    by_cases first : n = 0
    · rw [itself first.symm] at waiting
      exact absurd waiting intime
    · rw [others (by omega)] at waiting
      -- something was ready after all
      have calm := h.fenced (by omega) free y hy barrier waiting
      exact absurd issues.ready (not_le.mpr (calm _ e issues.entry issues.inRing issues.inWindow))

end Account

end CoreTiming
