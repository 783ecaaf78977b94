import CoreTiming.Proofs.IssueLog
import CoreTiming.Proofs.Draining
import CoreTiming.Proofs.MemoryOrder

/-!
# The order around serializing micro-ops

The order of `Account.Serialized` and the issue log are carried through the cycles of a run.  What has left a
window shows that a serializing micro-op issues behind all older ones and once all stores have drained that have
issued on the core; a younger one that has issued before it has found it waiting for its operands, or held back
by a fence.
-/

namespace CoreTiming

open Faulting

namespace Account

variable {config : Config} {a b : Account} {e : Entry} {pending pending' : Prop} {log log' : List Issuance}
  {i n m : Nat}

/-! ## Section 1: A thread -/

/-- Steps lead to the account.  As long as the clock is not at the end of time and micro-ops list no producers
of their own, the order has been kept; if the thread still has its turn, nothing has issued in this cycle. -/
structure Orderly (config : Config) (pending : Prop) (a : Account) : Prop where
  /-- Steps lead to the account. -/
  reachable : Reachable config a
  /-- The order has been kept. -/
  keeps : a.clock.now ≠ .never → Unlinked a.pushed → Serialized config a ∧ (pending → Lapsed a)

theorem Orderly.mono (h : Orderly config pending a) (weaker : pending' → pending) :
    Orderly config pending' a :=
  ⟨h.reachable, fun intime unlinked => (h.keeps intime unlinked).imp_right fun lapsed turn =>
    lapsed (weaker turn)⟩

theorem Orderly.step (h : Orderly config pending a) (step : Step config a b)
    (keeps : b.clock.now ≠ .never → a.clock.now ≠ .never → Unlinked a.pushed → Serialized config a →
      (pending → Lapsed a) → Serialized config b ∧ (pending' → Lapsed b)) : Orderly config pending' b := by
  refine ⟨.step h.reachable step, fun intime unlinked => ?_⟩
  have intime' : a.clock.now ≠ .never := Time.ne_never_of_le (h.reachable.inOrder.proceeds step).later intime
  have unlinked' := step.unlinked unlinked
  obtain ⟨serialized, lapsed⟩ := h.keeps intime' unlinked'
  exact keeps intime intime' unlinked' serialized lapsed

theorem Orderly.persist (h : Orderly config pending a) (step : Step config a b) (persists : Persists a b) :
    Orderly config pending b := by
  have timed := (h.reachable.step step).timed
  exact h.step step fun _ _ _ serialized lapsed =>
    ⟨serialized.persist persists timed, fun turn => (lapsed turn).persist persists timed⟩

theorem Orderly.drift (h : Orderly config pending a) (drift : Drift config a b) : Orderly config pending b :=
  h.persist drift.step (drift.persists h.reachable.inOrder)

/-- Where nothing gets any further, order is kept. -/
theorem Orderly.quiet {th : Thread} (h : Orderly config pending a) (work : Thread.Work config a.clock a.thread th)
    (quiet : Quiet a (a.withThread th)) : Orderly config pending (a.withThread th) :=
  h.persist (.work work) (persists_quiet quiet)

theorem Orderly.intake {th : Thread} (h : Orderly config pending a)
    (intake : Thread.Intake config a.clock a.thread th) : Orderly config pending (a.withThread th) := by
  cases intake with
  | keep same => exact h.quiet (.keep same) (quiet_of_sameFlow same)
  | fetch next => exact h.quiet (.fetch next) (quiet_fetch next)
  | dispatch next linked =>
    have enters := enters_of_dispatch next linked
    have timed := h.reachable.timed
    exact h.step (.work (.dispatch next linked)) fun _ _ _ serialized lapsed =>
      ⟨serialized.enter timed enters, fun turn => (lapsed turn).enter timed enters⟩

/-- When time passes, what has issued has done so in an earlier cycle. -/
theorem Orderly.tick {clock : Clock} (h : Orderly config pending a) (period : clock.period = a.clock.period)
    (later : a.clock.now ≠ .never → a.clock.now < clock.now) (order : a.clock.now ≤ clock.now) :
    Orderly config True { a with clock } := by
  have step : Step config a { a with clock } := .tick period order
  refine h.step step fun _ intime unlinked serialized _ => ⟨?_, fun _ => ?_⟩
  · exact serialized.persist (persists_tick period order) (h.reachable.step step).timed
  · exact (h.reachable.attuned unlinked intime).lapsed (later intime)

/-- Asking memory moves no entry. -/
theorem Orderly.asked {th : Thread} {k : Nat} {e' : Entry} (h : Orderly config pending a)
    (inside : k < a.thread.inWindow) (entry : a.thread.ring.get? k = some e) (waiting : e.isDone = false)
    (asked : a.thread.Asked k e th e') :
    Orderly config pending (a.withThread th) ∧ Quiet a (a.withThread th) := by
  rcases asked with ⟨rfl, rfl⟩ | ⟨hit, cycles, u, resolved, rfl, rfl⟩
  · exact ⟨h, quiet_of_sameFlow (.refl _)⟩
  · have quiet := quiet_resolve entry waiting resolved
    exact ⟨h.quiet (.resolve inside entry waiting resolved) quiet, quiet⟩

/-- An entry that may do so issues. -/
theorem Orderly.issue {th : Thread} {k : Nat} {latency : Time} (h : Orderly config pending a)
    (inside : k < a.thread.inWindow) (entry : a.thread.ring.get? k = some e) (waiting : e.isDone = false)
    (ready : e.ready ≤ a.clock.now)
    (started : Thread.start k e a.clock.now (e.doneFrom a.clock) latency a.thread = .ok () th)
    (may : a.clock.now ≠ .never → Unlinked a.pushed → a.MayPass config (a.retired.length + k) e) :
    Orderly config False (a.withThread th) := by
  have issues := issues_of_start inside entry waiting ready started
  refine h.step (.work (.issue inside entry waiting ready started)) fun _ intime unlinked serialized _ =>
    ⟨?_, False.elim⟩
  exact serialized.issue h.reachable.inOrder (h.reachable.attuned unlinked intime) h.reachable.timed intime
    (may intime unlinked) issues

theorem Orderly.new {clock : Clock} {th : Thread} {predictor : Option Predictor}
    (made : Thread.new config.core.windowSize config.window.loadHistogram predictor = .ok th) :
    Orderly config pending { clock, thread := th } := by
  refine ⟨.new made, fun _ _ => ⟨serialized_new made, fun _ k x hx => ?_⟩⟩
  rw [entries_new made] at hx
  cases hx

end Account

namespace Account

variable {config : Config} {a b : Account} {pending pending' : Prop} {log log' : List Issuance} {i : Nat}

/-- The order has been kept, and what has issued is on record. -/
structure Tracked (config : Config) (pending : Prop) (log : List Issuance) (i : Nat) (a : Account) : Prop
    extends Orderly config pending a where
  /-- What has issued and not started over is on record. -/
  booked : ∀ (k : Nat) (e : Entry), a.entries[k]? = some e → e.done ≠ .never →
    e.issuance i a.clock.period ∈ log

theorem Tracked.mono (h : Tracked config pending log i a) (weaker : pending' → pending)
    (more : ∀ s ∈ log, s ∈ log') : Tracked config pending' log' i a :=
  ⟨h.toOrderly.mono weaker, fun k e he done => more _ (h.booked k e he done)⟩

/-- If nothing has issued in the meantime, all is still on record. -/
theorem Tracked.of_lasts (h : Tracked config pending log i a) (orderly : Orderly config pending' b)
    (period : b.clock.period = a.clock.period)
    (before : ∀ (k : Nat) (x : Entry), b.entries[k]? = some x → x.done ≠ .never →
      ∃ y, a.entries[k]? = some y ∧ y.Lasts x ∧ y.done ≠ .never) : Tracked config pending' log i b := by
  refine ⟨orderly, fun k x hx done => ?_⟩
  obtain ⟨y, hy, lasts, done'⟩ := before k x hx done
  rw [period, lasts.issuance_eq done']
  exact h.booked k y hy done'

theorem Tracked.persist (h : Tracked config pending log i a) (orderly : Orderly config pending' b)
    (persists : Persists a b) : Tracked config pending' log i b := by
  refine h.of_lasts orderly persists.period fun k x hx done => ?_
  by_cases within : k < b.edge
  · obtain ⟨y, hy, point, latency⟩ := rel_right (persists.kept k within) hx
    have same : x.done = y.done := by rw [point]
    exact ⟨y, hy, point.lasts latency, same ▸ done⟩
  · exact absurd (orderly.reachable.timed.fresh k x hx (by omega)).done done

theorem Tracked.drift (h : Tracked config pending log i a) (drift : Drift config a b) :
    Tracked config pending log i b :=
  h.persist (h.toOrderly.drift drift) (drift.persists h.reachable.inOrder)

theorem Tracked.tick {clock : Clock} (h : Tracked config pending log i a)
    (period : clock.period = a.clock.period) (later : a.clock.now ≠ .never → a.clock.now < clock.now)
    (order : a.clock.now ≤ clock.now) : Tracked config True log i { a with clock } :=
  h.persist (h.toOrderly.tick period later order) (persists_tick period order)

theorem Tracked.intake {th : Thread} (h : Tracked config pending log i a)
    (intake : Thread.Intake config a.clock a.thread th) : Tracked config pending log i (a.withThread th) := by
  have orderly := h.toOrderly.intake intake
  cases intake with
  | keep same => exact h.persist orderly (persists_quiet (quiet_of_sameFlow same))
  | fetch next => exact h.persist orderly (persists_quiet (quiet_fetch next))
  | dispatch next linked =>
    have enters := enters_of_dispatch next linked
    refine h.of_lasts orderly rfl fun k x hx done => ?_
    rcases enters.entry_before hx with ⟨rfl, rfl⟩ | ⟨-, y, hy, listed⟩
    · exact absurd (enters.not_issued h.reachable.timed hx (le_refl _)).2 done
    · exact ⟨y, hy, listed.stands.lasts listed.seq_eq, listed.done_eq ▸ done⟩

theorem Tracked.intakes {th : Thread} (h : Tracked config pending log i a)
    (intakes : Thread.Intakes config a.clock a.thread th) : Tracked config pending log i (a.withThread th) := by
  induction intakes with
  | refl => exact h
  | tail _ intake ih => exact ih.intake intake

theorem Tracked.run {R : Account → Account → Prop} (h : Tracked config pending log i a)
    (step : ∀ {a b : Account}, Tracked config pending log i a → R a b → Tracked config pending log i b)
    (run : Relation.ReflTransGen R a b) : Tracked config pending log i b := by
  induction run with
  | refl => exact h
  | tail _ one ih => exact step ih one

end Account

/-! ## Section 2: The turn of a thread -/

namespace Window

variable {M : Type} {config : Config} {w v x : Window M} {a : Account} {lane lane' lane'' : Lane M} {i l m n : Nat}

/-- In its turn, lane `i`, on which the thread of the account `a` was, has become `lane'`. -/
structure TurnOf (config : Config) (i n m : Nat) (w v : Window M) (a : Account) (lane' : Lane M) : Prop where
  /-- The parameters stay. -/
  config_eq : v.config = w.config
  /-- The clock stands still. -/
  clock : v.clock = w.clock
  /-- The other lanes are not touched. -/
  lanes : v.lanes = w.lanes.setIfInBounds i lane'
  /-- The order has been kept. -/
  orderly : (a.withThread lane'.thread).Orderly config False
  /-- What has issued has done so in order. -/
  turned : Account.Turned w.lastStoreDone v.lastStoreDone n m a (a.withThread lane'.thread)

theorem TurnOf.trans (h : TurnOf config i n m w v a lane') (h' : TurnOf config i m l v x (a.withThread lane'.thread) lane'')
    (le : n ≤ m) (le' : m ≤ l) : TurnOf config i n l w x a lane'' := by
  refine ⟨h'.config_eq.trans h.config_eq, h'.clock.trans h.clock, ?_, h'.orderly, h.turned.trans h'.turned le le'⟩
  rw [h'.lanes, h.lanes]
  simp

theorem TurnOf.widen {n' m' : Nat} (h : TurnOf config i n m w v a lane') (le : n' ≤ n) (le' : m ≤ m') :
    TurnOf config i n' m' w v a lane' :=
  { h with turned := h.turned.widen le le' }

/-- Nothing has issued. -/
theorem turnOf_refl (found : w.lanes[i]? = some lane) (thread : a.thread = lane.thread)
    (h : a.Orderly config False) : TurnOf config i n m w w a lane := by
  have at_i : i < w.lanes.size := (Array.getElem?_eq_some_iff.mp found).1
  have same : a.withThread lane.thread = a := by rw [← thread]
  refine ⟨rfl, rfl, ?_, same ▸ h, ?_⟩
  · rw [Array.getElem?_eq_getElem at_i, Option.some.injEq] at found
    rw [← found, Array.setIfInBounds, dif_pos at_i, Array.set_getElem_self]
  · rw [same]
    exact Account.turned_refl _ _ _ _

variable [MemorySystem M]

/-- The pass lets an entry issue, and counts it. -/
theorem turnOf_issued {k cutoff : Nat} {pass : IssuePass} {e : Entry} {done : Time}
    (found : w.lanes[i]? = some lane) (clock : a.clock = w.clock) (thread : a.thread = lane.thread)
    (h : a.Orderly config False) (inside : k < lane.thread.inWindow)
    (entry : lane.thread.ring.get? k = some e) (waiting : e.isDone = false)
    (verdict : w.judge pass e = .issue)
    (scanned : a.clock.now ≠ .never → Unlinked a.pushed → a.Scanned config pass k)
    (issued : issueEntry i k w = .ok done v)
    (counted : modifyThread i (Thread.accountLongLoad cutoff w.clock.now k) v = .ok () x) :
    ∃ lane', TurnOf config i (a.retired.length + k) (a.retired.length + (k + 1)) w x a lane' ∧
      lane'.thread.inWindow = lane.thread.inWindow ∧
      (a.clock.now ≠ .never → Unlinked a.pushed → (a.withThread lane'.thread).Scanned config pass (k + 1)) := by
  have at_i : i < w.lanes.size := (Array.getElem?_eq_some_iff.mp found).1
  obtain ⟨th, e', lane₁, asked, started, -, rfl⟩ := issueEntry_eq_ok found entry issued
  obtain ⟨lane₂, found₂, rfl⟩ := modifyThread_eq_ok.mp counted
  obtain rfl : lane₁ = lane₂ := by
    simpa [at_i] using found₂
  obtain ⟨waiting', ready', span⟩ := asked.same
  rw [← thread] at asked inside entry span
  -- memory is asked about the entry, then it starts, and then it is counted among the long loads
  obtain ⟨kept, quiet⟩ := h.asked inside entry waiting asked
  have entry' := asked.entry entry
  have op : e'.u.op = e.u.op := asked.op_eq
  have ready : e'.ready ≤ a.clock.now := by
    rw [ready', clock]
    exact ready_of_judge verdict
  have inside' : k < th.inWindow := span ▸ inside
  have may : a.clock.now ≠ .never → Unlinked a.pushed →
      (a.withThread th).MayPass config (a.retired.length + k) e' := fun intime unlinked =>
    ((scanned intime unlinked).quiet quiet).mayPass verdict op
  rw [← clock] at started
  have issues := Account.issues_of_start (a := a.withThread th) inside' entry' (waiting' ▸ waiting) ready started
  have started' := kept.issue inside' entry' (waiting' ▸ waiting) ready started may
  have same := Thread.sameFlow_accountLongLoad cutoff w.clock.now k lane₁.thread
  have quiet' : Account.Quiet (a.withThread lane₁.thread)
      (a.withThread (lane₁.thread.accountLongLoad cutoff w.clock.now k)) := Account.quiet_of_sameFlow same
  refine ⟨{ lane₁ with thread := lane₁.thread.accountLongLoad cutoff w.clock.now k },
    ⟨rfl, rfl, by simp, started'.quiet (.keep same) quiet', ?_⟩, ?_, fun intime unlinked => ?_⟩
  · have settled : e'.u.op.serializing = true → w.lastStoreDone ≤ a.clock.now := fun kind =>
      clock ▸ (judge_eq_issue_of_serializing (op ▸ kind) verdict).2
    have asked' := Account.turned_quiet w.lastStoreDone (a.retired.length + k) (a.retired.length + k) quiet
    have counted' := Account.turned_quiet (e'.drainedFrom w.lastStoreDone a.clock)
      (a.retired.length + (k + 1)) (a.retired.length + (k + 1)) quiet'
    have turned := (asked'.trans (Account.turned_issue issues settled) (le_refl _) (Nat.le_succ _)).trans
      counted' (Nat.le_succ _) (le_refl _)
    rw [clock] at turned
    exact turned
  · show (lane₁.thread.accountLongLoad cutoff w.clock.now k).inWindow = lane.thread.inWindow
    rw [same.inWindow, (Thread.start_eq_ok started).1, ← thread, ← span]
  · have order := kept.reachable.inOrder
    have attuned := kept.reachable.attuned unlinked intime
    exact (((scanned intime unlinked).quiet quiet).issue order attuned kept.reachable.timed intime issues).quiet
      quiet'

/-- The turn of a thread in the issue stage, once the pass has come to position `k`. -/
theorem turnOf_issueFrom {k : Nat} {pass pass' : IssuePass} (config_eq : w.config = config)
    (found : w.lanes[i]? = some lane) (clock : a.clock = w.clock) (thread : a.thread = lane.thread)
    (h : a.Orderly config False) (inside : k + n ≤ lane.thread.inWindow)
    (scanned : a.clock.now ≠ .never → Unlinked a.pushed → a.Scanned config pass k)
    (ran : issueFrom i n k pass w = .ok pass' v) :
    ∃ lane', TurnOf config i (a.retired.length + k) (a.retired.length + (k + n)) w v a lane' := by
  induction n generalizing a w k pass lane with
  | zero =>
    obtain ⟨-, rfl⟩ := pure_eq_ok.mp ran
    exact ⟨lane, turnOf_refl found thread h⟩
  | succ n ih =>
    have position : ∀ {e : Entry}, lane.thread.ring.get? k = some e →
        a.entries[a.retired.length + k]? = some e := by
      intro e entry
      rw [Account.entries_add, Ring.getElem?_toList, thread]
      exact entry
    -- the pass goes on behind the entry without having changed anything
    have goesOn : ∀ {pass₁ : IssuePass}, (a.clock.now ≠ .never → Unlinked a.pushed → a.Scanned config pass₁ (k + 1)) →
        issueFrom i n (k + 1) pass₁ w = .ok pass' v →
        ∃ lane', TurnOf config i (a.retired.length + k) (a.retired.length + (k + (n + 1))) w v a lane' := by
      intro pass₁ scanned₁ rest
      obtain ⟨lane', turn⟩ := ih config_eq found clock thread h (by omega) scanned₁ rest
      exact ⟨lane', turn.widen (by omega) (by omega)⟩
    cases looks_of_issueFrom found ran with
    | nothing _ _ same =>
      rw [same]
      exact ⟨lane, turnOf_refl found thread h⟩
    | @done e entry done rest =>
      refine goesOn (fun intime unlinked => ?_) rest
      have issued := h.reachable.timed.issued_of_done (position entry) (Entry.isDone_iff.mp done)
      exact ((scanned intime unlinked).skip (position entry) issued).congr rfl rfl
    | stop _ _ _ _ same =>
      rw [same]
      exact ⟨lane, turnOf_refl found thread h⟩
    | @issue e done w₁ w₂ entry waiting verdict issued counted rest =>
      obtain ⟨lane₁, turn, span₁, scanned₁⟩ := turnOf_issued found clock thread h (by omega) entry waiting verdict
        (fun intime unlinked => (scanned intime unlinked).congr rfl rfl) issued counted
      have at_i : i < w.lanes.size := (Array.getElem?_eq_some_iff.mp found).1
      have found₁ : w₂.lanes[i]? = some lane₁ := by
        rw [turn.lanes, Array.getElem?_setIfInBounds_self_of_lt at_i]
      rcases rest with ⟨-, rfl⟩ | rest
      · exact ⟨lane₁, turn.widen (le_refl _) (by omega)⟩
      · have letting : a.clock.now ≠ .never → Unlinked a.pushed → (a.withThread lane₁.thread).Scanned config
            ((pass.noting e.ready).letting done) (k + 1) :=
          fun intime unlinked => (scanned₁ intime unlinked).congr rfl rfl
        obtain ⟨lane', turn'⟩ : ∃ lane', TurnOf config i (a.retired.length + (k + 1))
            (a.retired.length + (k + 1 + n)) w₂ v (a.withThread lane₁.thread) lane' :=
          ih (a := a.withThread lane₁.thread) (turn.config_eq.trans config_eq) found₁
            (clock.trans turn.clock.symm) rfl turn.orderly (by omega) letting rest
        exact ⟨lane', (turn.trans turn' (by omega) (by omega)).widen (le_refl _) (by omega)⟩
    | @wait e entry waiting goes waits rest ordered =>
      cases inOrder : w.config.window.inOrder with
      | true =>
        rw [ordered inOrder]
        exact ⟨lane, turnOf_refl found thread h⟩
      | false =>
        rcases rest with ⟨-, rfl⟩ | rest
        · exact ⟨lane, turnOf_refl found thread h⟩
        · refine goesOn (fun intime unlinked => ?_) rest
          have noted : a.Scanned config (pass.noting e.ready) k := (scanned intime unlinked).congr rfl rfl
          exact noted.hold clock (config_eq ▸ inOrder) (position entry) (Entry.isDone_eq_false_iff.mp waiting)
            waits goes

/-- The turn of a thread on which nothing has issued in this cycle. -/
theorem turnOf_issueLane {event : Time} {result : Bool × Time} (config_eq : w.config = config)
    (found : w.lanes[i]? = some lane) (clock : a.clock = w.clock) (thread : a.thread = lane.thread)
    (h : a.Orderly config True) (ran : issueLane i event w = .ok result v) :
    ∃ lane' n m, TurnOf config i n m w v a lane' := by
  have kept : a.Orderly config False := h.mono fun _ => trivial
  obtain ⟨lane₀, found₀, turn⟩ := issueTurn_of_issueLane ran
  obtain rfl : lane = lane₀ := Option.some.inj (found.symm.trans found₀)
  cases turn with
  | asleep _ _ same =>
    rw [same]
    exact ⟨lane, 0, 0, turnOf_refl found thread kept⟩
  | empty _ _ same =>
    rw [same]
    exact ⟨lane, 0, 0, turnOf_refl found thread kept⟩
  | @look pass w₁ _ _ looked noted _ =>
    have scanned : a.clock.now ≠ .never → Unlinked a.pushed → a.Scanned config {} 0 := fun intime unlinked =>
      ((h.keeps intime unlinked).2 trivial).scanned h.reachable.timed intime
    obtain ⟨lane₁, passed⟩ := turnOf_issueFrom config_eq found clock thread kept (by omega) scanned looked
    have at_i : i < w.lanes.size := (Array.getElem?_eq_some_iff.mp found).1
    obtain ⟨lane₂, found₂, rfl⟩ := modifyThread_eq_ok.mp noted
    obtain rfl : lane₁ = lane₂ := by
      rw [passed.lanes, Array.getElem?_setIfInBounds_self_of_lt at_i] at found₂
      exact Option.some.inj found₂
    have same : lane₁.thread.SameFlow { lane₁.thread with nextEvent := pass.event } :=
      ⟨rfl, rfl, rfl, rfl, rfl, rfl, rfl⟩
    have quiet : Account.Quiet (a.withThread lane₁.thread)
        (a.withThread { lane₁.thread with nextEvent := pass.event }) := Account.quiet_of_sameFlow same
    refine ⟨{ lane₁ with thread := { lane₁.thread with nextEvent := pass.event } }, _, _, passed.trans
      (l := _) ⟨rfl, rfl, rfl, passed.orderly.quiet (.keep same) quiet, Account.turned_quiet _ _ _ quiet⟩ ?_
      (le_refl _)⟩
    omega

omit [MemorySystem M] in
/-- What issues on a lane can be told from that lane. -/
theorem issuances_congr {w' v' : Window M} (lane : w'.lanes[i]? = w.lanes[i]?)
    (lane' : v'.lanes[i]? = v.lanes[i]?) (clock : w'.clock = w.clock) : w'.issuances v' i = w.issuances v i := by
  unfold issuances
  rw [lane, lane', clock]

omit [MemorySystem M] in
theorem issuances_of_same (same : v.lanes[i]? = w.lanes[i]?) : w.issuances v i = [] := by
  unfold issuances
  rw [same]
  cases w.lanes[i]? with
  | none => rfl
  | some lane => exact Account.issuances_self i _ _

omit [MemorySystem M] in
theorem issuances_eq (found : w.lanes[i]? = some lane) (found' : v.lanes[i]? = some lane') :
    w.issuances v i = lane.thread.issuances i w.clock.period lane'.thread := by
  unfold issuances
  rw [found, found']

end Window

/-! ## Section 3: All threads of a window -/

namespace Chronicle

variable {M : Type} {config : Config} {pending pending' : Nat → Prop} {log log' : List Issuance} {c : Chronicle M}

/-- What has issued on the core is on record in `log`, and order has been kept.  The threads `i` with
`pending i` still have their turn in this cycle. -/
structure Logged (config : Config) (pending : Nat → Prop) (log : List Issuance) (c : Chronicle M) : Prop where
  /-- The parameters are those that the window was made with. -/
  config_eq : c.window.config = config
  /-- Every thread has kept order, and what has issued on it is on record. -/
  lanes : ∀ (i : Nat) (lane : Lane M), c.window.lanes[i]? = some lane →
    (c.account i lane).Tracked config (pending i) log i
  /-- All stores on record have drained by the time that the core has noted. -/
  drains : c.window.clock.now ≠ .never → ∀ s ∈ log, s.op.isStore = true → s.drained ≤ c.window.lastStoreDone
  /-- Serializing micro-ops have issued once the stores before them had drained. -/
  settled : c.window.clock.now ≠ .never → log.Pairwise Issuance.Clears

theorem Logged.mono (h : c.Logged config pending log) (weaker : ∀ i, pending' i → pending i) :
    c.Logged config pending' log :=
  ⟨h.config_eq, fun i lane found => (h.lanes i lane found).mono (weaker i) fun _ mem => mem, h.drains, h.settled⟩

/-- Steps lead every thread from one account that has kept order to another. -/
theorem Logged.leads {R : Config → Account → Account → Prop} {us : Nat → List OpInstance}
    {rs : Nat → List Retirement} {v : Window M} (h : c.Logged config pending log)
    (step : ∀ {i : Nat} {a b : Account}, a.Tracked config (pending i) log i → R config a b →
      b.Tracked config (pending i) log i)
    (later : c.window.clock.now ≤ v.clock.now) (leads : Window.Leads R us rs c.window v) :
    Logged config pending log
      { window := v
        pushed := fun i => c.pushed i ++ us i
        retired := fun i => c.retired i ++ rs i } := by
  have before : v.clock.now ≠ .never → c.window.clock.now ≠ .never := Time.ne_never_of_le later
  refine ⟨leads.config.trans h.config_eq, fun i lane found => ?_, fun intime s mem store => ?_,
    fun intime => h.settled (before intime)⟩
  · obtain ⟨lane₀, found₀, steps⟩ := rel_right (leads.lanes i) found
    have run := steps (c.pushed i) (c.retired i)
    rw [h.config_eq] at run
    exact (h.lanes i lane₀ found₀).run step run
  · exact le_trans (h.drains (before intime) s mem store) leads.drains

theorem Logged.worked {v : Window M} (h : c.Logged config pending log)
    (worked : Window.Worked Thread.Intake c.window v) :
    Logged config pending log { c with window := v } := by
  refine ⟨worked.config.trans h.config_eq, fun i lane found => ?_, fun intime s mem store => ?_,
    fun intime => ?_⟩
  · obtain ⟨lane₀, found₀, steps⟩ := worked.exists_lane found
    have account : ({ c with window := v } : Chronicle M).account i lane =
        (c.account i lane₀).withThread lane.thread := by
      unfold Chronicle.account
      rw [worked.clock]
    rw [account]
    rw [h.config_eq] at steps
    exact (h.lanes i lane₀ found₀).intakes steps
  · rw [worked.clock] at intime
    exact le_trans (h.drains intime s mem store) worked.drains
  · rw [worked.clock] at intime
    exact h.settled intime

theorem Logged.advance {span : Time} (h : c.Logged config pending log)
    (long : c.window.clock.period.length ≤ span) :
    Logged config (fun _ => True) log { c with window := c.window.advance span } := by
  have order : c.window.clock.now ≤ (c.window.clock.addLatency span).now := Time.le_add_right _ _
  have before : (c.window.clock.addLatency span).now ≠ .never → c.window.clock.now ≠ .never :=
    Time.ne_never_of_le order
  refine ⟨h.config_eq, fun i lane found => ?_, fun intime => h.drains (before intime),
    fun intime => h.settled (before intime)⟩
  obtain ⟨lane₀, found₀, rfl⟩ : ∃ lane₀, c.window.lanes[i]? = some lane₀ ∧ _ := by
    simpa [Window.advance] using found
  let charged := lane₀.thread.charge c.window.config.window.loadHistogram c.window.clock.now span
  have same : lane₀.thread.SameFlow charged := ⟨rfl, rfl, rfl, rfl, rfl, rfl, rfl⟩
  have kept : Account.Tracked config (pending i) log i ((c.account i lane₀).withThread charged) :=
    (h.lanes i lane₀ found₀).drift (.keep same)
  have ticked : Account.Tracked config True log i
      { (c.account i lane₀).withThread charged with clock := c.window.clock.addLatency span } :=
    kept.tick rfl (fun intime => Clock.lt_addLatency intime long) order
  exact ticked

variable [MemorySystem M]

/-- The turn of a thread on which nothing has issued in this cycle adds to the log what issues in it. -/
theorem Logged.issueLane {v : Window M} {i : Nat} {event : Time} {result : Bool × Time}
    (h : c.Logged config pending log) (turn : pending i)
    (ran : Window.issueLane i event c.window = .ok result v) :
    ∃ lane', v.lanes = c.window.lanes.setIfInBounds i lane' ∧ v.clock = c.window.clock ∧
      Logged config (fun j => pending j ∧ j ≠ i) (log ++ c.window.issuances v i) { c with window := v } := by
  obtain ⟨lane, found, -⟩ := Window.issueTurn_of_issueLane ran
  have here := h.lanes i lane found
  obtain ⟨lane', n, m, passed⟩ := Window.turnOf_issueLane h.config_eq found rfl rfl
    (here.toOrderly.mono fun _ => turn) ran
  have at_i : i < c.window.lanes.size := (Array.getElem?_eq_some_iff.mp found).1
  have found' : v.lanes[i]? = some lane' := by
    rw [passed.lanes, Array.getElem?_setIfInBounds_self_of_lt at_i]
  have turned := passed.turned
  have added := Window.issuances_eq found found'
  refine ⟨lane', passed.lanes, passed.clock, passed.config_eq.trans h.config_eq, fun j lane₁ found₁ => ?_,
    fun intime s mem store => ?_, fun intime => ?_⟩
  · have account : ({ c with window := v } : Chronicle M).account j lane₁ =
        { c.account j lane₁ with clock := c.window.clock } := by
      unfold Chronicle.account
      rw [passed.clock]
    rw [account]
    by_cases same : i = j
    · subst same
      obtain rfl : lane' = lane₁ := Option.some.inj (found'.symm.trans found₁)
      refine ⟨passed.orderly.mono fun turn => turn.2 rfl, fun k x hx done => ?_⟩
      obtain ⟨y, hy, lasts⟩ := turned.lasts.right hx
      by_cases waiting : y.done = .never
      · have issues : Account.IssuesAt (c.account i lane) ((c.account i lane).withThread lane'.thread) k x :=
          ⟨y, hy, waiting, hx, done⟩
        rw [added]
        exact List.mem_append_right _ (issues.mem_issuances i _)
      · rw [lasts.issuance_eq waiting]
        exact List.mem_append_left _ (here.booked k y hy waiting)
    · dsimp only at found₁
      rw [passed.lanes, Array.getElem?_setIfInBounds_ne same] at found₁
      exact (h.lanes j lane₁ found₁).mono And.left fun s mem => List.mem_append_left _ mem
  · rw [passed.clock] at intime
    rcases List.mem_append.mp mem with old | new
    · exact le_trans (h.drains intime s old store) turned.later
    · rw [added] at new
      obtain ⟨k, x, issues, rfl⟩ := Account.exists_issuesAt (a := c.account i lane) new
      exact turned.stores k x issues store
  · rw [passed.clock] at intime
    rw [List.pairwise_append, added]
    refine ⟨h.settled intime, turned.pairwise intime i _, fun s old z new store kind => ?_⟩
    obtain ⟨k, x, issues, rfl⟩ := Account.exists_issuesAt (a := c.account i lane) new
    have late := turned.settled k x issues kind
    show s.drained ≤ x.issued
    rw [turned.now k x issues]
    exact le_trans (h.drains intime s old store) late

/-- The turns of the threads `lanes`, of each one at most, add to the log what issues in them. -/
theorem Logged.issueLanes {v : Window M} {lanes : List Nat} {event : Time} {result : Option Nat × Time}
    (h : c.Logged config (· ∈ lanes) log) (nodup : lanes.Nodup)
    (ran : Window.issueLanes lanes event c.window = .ok result v) :
    Logged config (fun _ => False) (log ++ lanes.flatMap (c.window.issuances v)) { c with window := v } ∧
      ∀ j, j ∉ lanes → v.lanes[j]? = c.window.lanes[j]? := by
  induction lanes generalizing c log event with
  | nil =>
    obtain ⟨-, rfl⟩ := pure_eq_ok.mp ran
    refine ⟨?_, fun _ _ => rfl⟩
    rw [List.flatMap_nil, List.append_nil]
    exact h.mono fun _ => False.elim
  | cons i others ih =>
    obtain ⟨fresh, nodup⟩ := List.nodup_cons.mp nodup
    obtain ⟨any, event', w₁, turn, ends⟩ := Window.issueLanes_cons_eq_ok ran
    obtain ⟨lane', lanes, clock, logged⟩ := h.issueLane List.mem_cons_self turn
    have others_eq : ∀ j, j ≠ i → w₁.lanes[j]? = c.window.lanes[j]? := by
      intro j other
      rw [lanes, Array.getElem?_setIfInBounds_ne (Ne.symm other)]
    rcases ends with ⟨-, -, rfl⟩ | ⟨-, onwards⟩
    · -- the others have no turn in this cycle
      have nothing : others.flatMap (c.window.issuances v) = [] := by
        refine List.flatMap_eq_nil_iff.mpr fun j mem => ?_
        exact Window.issuances_of_same (others_eq j fun same => fresh (same ▸ mem))
      rw [List.flatMap_cons, nothing, List.append_nil]
      exact ⟨logged.mono fun _ => False.elim, fun j outside => others_eq j fun same =>
        outside (same ▸ List.mem_cons_self)⟩
    · have waiting : Logged config (· ∈ others) (log ++ c.window.issuances w₁ i) { c with window := w₁ } :=
        logged.mono fun j mem => ⟨List.mem_cons_of_mem _ mem, fun same => fresh (same ▸ mem)⟩
      obtain ⟨done, frame⟩ := ih waiting nodup onwards
      -- no later turn touches lane `i`, and the first one has touched no other lane
      have first : c.window.issuances v i = c.window.issuances w₁ i :=
        Window.issuances_congr rfl (frame i fresh) rfl
      have rest : others.flatMap (c.window.issuances v) = others.flatMap (w₁.issuances v) := by
        refine List.flatMap_congr fun j mem => ?_
        exact (Window.issuances_congr (others_eq j fun same => fresh (same ▸ mem)) rfl clock).symm
      rw [List.flatMap_cons, first, rest, ← List.append_assoc]
      refine ⟨done, fun j outside => ?_⟩
      rw [List.mem_cons, not_or] at outside
      exact (frame j outside.2).trans (others_eq j outside.1)

theorem Logged.issue {v : Window M} {event : Time} (h : c.Logged config (fun _ => True) log)
    (ran : Window.issue c.window = .ok event v) :
    Logged config (fun _ => False)
      (log ++ (c.window.rotation (c.window.issueTurn % c.window.lanes.size)).flatMap (c.window.issuances v))
      { c with window := v } := by
  obtain ⟨last, w₁, turns, rfl⟩ := Window.issue_eq_ok ran
  have done := (Logged.issueLanes (h.mono fun _ _ => trivial) (Window.nodup_rotation _ _) turns).1
  exact ⟨done.config_eq, done.lanes, done.drains, done.settled⟩

/-! ## Section 4: Cycles and calls -/

theorem Logged.cycle {stride : Window.Stride M} {running : Running} {v : Window M}
    (h : c.Logged config (fun _ => True) log) (striding : Window.Striding stride)
    (ran : Window.cycle stride running c.window = .ok () v) :
    Logged config (fun _ => True) (log ++ Window.issuancesInCycle running c.window)
      { c with
        window := v
        retired := fun i => c.retired i ++ Window.leavingInCycle running i c.window } := by
  obtain ⟨dispatchEvent, issueEvent, commitEvent, w₁, w₂, w₃, dispatched, issued, committed, rfl⟩ :=
    Window.stages_of_cycle ran
  have entered := h.worked (Window.worked_dispatch dispatched)
  have started := entered.issue issued
  have clock : w₃.clock = w₂.clock := by
    rw [Window.commit_frame committed]
  have left := started.leads (fun done left => done.drift left.drift) (le_of_eq (by rw [clock]))
    (Window.leads_commit committed)
  have passed := left.advance (striding w₃ (min (min dispatchEvent issueEvent) commitEvent))
  rw [Window.issuancesInCycle_eq dispatched issued]
  simpa [Window.leavingInCycle_eq dispatched issued] using passed

omit [MemorySystem M] in
/-- The thread that is set up has done nothing, and the others go on as they were. -/
theorem Logged.initializeThread {i : Nat} {memory : M} {predictor : Option Predictor} {w : Window M}
    (h : c.Logged config (fun _ => True) log) (truthful : Truthful config c)
    (ran : Window.initializeThread i memory predictor c.window = .ok () w) :
    Logged config (fun _ => True) log { c with window := w } := by
  obtain ⟨-, th, made, rfl⟩ := Window.initializeThread_eq_ok ran
  rw [h.config_eq] at made
  refine ⟨h.config_eq, fun j lane found => ?_, h.drains, h.settled⟩
  rcases truthful.setUp found with ⟨rfl, pushed, retired⟩ | old
  · show Account.Tracked _ _ _ _ { pushed := c.pushed j, retired := c.retired j, .. }
    rw [pushed, retired]
    refine ⟨.new made, fun k x hx => ?_⟩
    rw [Account.entries_new made] at hx
    cases hx
  · exact h.lanes j lane old

/-- A call that runs no cycles adds nothing to the log. -/
theorem Logged.after {stride : Window.Stride M} {call : Window.Call M} {c' : Chronicle M}
    (h : c.Logged config (fun _ => True) log) (truthful : Truthful config c)
    (idle : ∀ running, call ≠ .execute running) (made : c.after stride call = .ok c') :
    c'.Logged config (fun _ => True) log := by
  obtain ⟨v, performed, rfl⟩ := after_eq_ok.mp made
  cases call.kind with
  | initializeThread i memory predictor =>
    have set := h.initializeThread truthful performed
    simpa [Window.Call.takesIn, Window.Call.letsOut] using set
  | execute running => exact absurd rfl (idle running)
  | other old _ =>
    exact h.leads (fun done drift => done.drift drift) (Window.Call.grows performed old idle).later
      (Window.Call.drifts performed old idle)

/-- All threads of every chronicle have kept the order around serializing micro-ops. -/
theorem logged_of {stride : Window.Stride M} {calls : List (Window.Call M)}
    (striding : Window.Striding stride) (made : of stride config calls = .ok c) :
    c.Logged config (fun _ => True) (issueLog stride config calls) := by
  refine induction_log (P := fun log c => c.Logged config (fun _ => True) log) (fun h ran => h.cycle striding ran)
    (fun h truthful idle made => h.after truthful idle made) (fun w new => ?_) made
  obtain ⟨period, rfl⟩ := Window.new_eq_ok new
  refine ⟨rfl, fun i lane found => ?_, fun _ s mem => ?_, fun _ => .nil⟩
  · simp at found
  · cases mem

end Chronicle

/-! ## Section 5: The theorem -/

/-- Among what has left thread `i`, the serializing micro-op at position `k`, which left with `z`, has issued in
order with the others and with the stores in the issue log. -/
structure InSerialOrder (config : Config) (period : Period) (log : List Issuance) (i : Nat)
    (retired : List Retirement) (k : Nat) (z : Retirement) : Prop where
  /-- The older micro-ops have issued. -/
  behind : ∀ (j : Nat) (y : Retirement), retired[j]? = some y → j < k → y.entry.issued ≤ z.entry.issued
  /-- All stores have drained that have issued before it, on whichever thread. -/
  drained : ∃ n, log[n]? = some (z.entry.issuance i period) ∧
    ∀ (m : Nat) (s : Issuance), log[m]? = some s → m < n → s.op.isStore = true → s.drained ≤ z.entry.issued
  /-- A younger micro-op has issued earlier only if entries need not issue in order, and the serializing one was
  not ready then or is a load or store behind a fence that had not issued. -/
  ahead : ∀ (l : Nat) (y : Retirement), retired[l]? = some y → k < l → y.entry.issued < z.entry.issued →
    config.window.inOrder = false ∧ (y.entry.issued < z.entry.ready ∨
      (z.entry.u.op.isLoad = true ∨ z.entry.u.op.isStore = true) ∧ ∃ (j : Nat) (f : Retirement),
        retired[j]? = some f ∧ j < k ∧ f.entry.u.op.fence = true ∧ y.entry.issued < f.entry.issued)

namespace Account

variable {config : Config} {a : Account} {log : List Issuance} {pending : Prop} {i k : Nat} {z : Retirement}

theorem Tracked.inSerialOrder (h : Tracked config pending log i a) (intime : a.clock.now ≠ .never)
    (unlinked : Unlinked a.pushed) (cleared : log.Pairwise Issuance.Clears) (at_k : a.retired[k]? = some z)
    (kind : z.entry.u.op.serializing = true) :
    InSerialOrder config a.clock.period log i a.retired k z := by
  have timed := h.reachable.timed
  obtain ⟨serialized, -⟩ := h.keeps intime unlinked
  -- what has left has a result, and has issued
  have finite : ∀ {j : Nat} {r : Retirement}, a.retired[j]? = some r → r.entry.done ≠ .never := fun at_j =>
    timed.done_of_mem_retired intime (List.mem_of_getElem? at_j)
  have issued : ∀ {j : Nat} {r : Retirement}, a.retired[j]? = some r → r.entry.issued ≠ .never := by
    intro j r at_j
    exact timed.issued_of_left intime (entries_of_retired at_j) (List.getElem?_eq_some_iff.mp at_j).1
  refine ⟨fun j y at_j older => ?_, ?_, fun l y at_l younger early => ?_⟩
  · exact ((serialized.behind j k _ _ (entries_of_retired at_j) (entries_of_retired at_k) older kind
      (issued at_k)).2).resolve_left (finite at_j)
  · obtain ⟨n, at_n⟩ := List.getElem?_of_mem (h.booked k _ (entries_of_retired at_k) (finite at_k))
    refine ⟨n, at_n, fun m s at_m before store => ?_⟩
    obtain ⟨hn, same⟩ := List.getElem?_eq_some_iff.mp at_n
    obtain ⟨hm, rfl⟩ := List.getElem?_eq_some_iff.mp at_m
    have clears := List.pairwise_iff_getElem.mp cleared m n hm hn before store
    rw [same] at clears
    exact clears kind
  · have ahead := serialized.ahead k l _ _ (entries_of_retired at_k) (entries_of_retired at_l) younger kind
      (issued at_l)
    obtain ⟨free, passed⟩ := ahead.resolve_left fun ⟨_, kept⟩ =>
      absurd (kept.resolve_left (finite at_k)) (not_le.mpr early)
    refine ⟨free, passed.imp_right fun ⟨access, j, f, at_j, older, fence, pending⟩ => ⟨access, ?_⟩⟩
    have inside := (List.getElem?_eq_some_iff.mp at_k).1
    rw [entries_of_lt (by omega)] at at_j
    obtain ⟨r, at_r, rfl⟩ := Option.map_eq_some_iff.mp at_j
    exact ⟨j, r, at_r, older, fence, pending.resolve_left (finite at_r)⟩

end Account

namespace Chronicle

/-- Whatever is asked of a window, each serializing micro-op that has left a thread has issued behind the older
ones, once all stores had drained that had issued on the core, and before the younger ones but for those that it
did not hold back, as long as the clock has not reached the end of time and no micro-op came with producers of
its own. -/
theorem serializes {M : Type} [MemorySystem M] {config : Config} {calls : List (Window.Call M)}
    {c : Chronicle M} {i k : Nat} {z : Retirement} (made : Chronicle.of Window.toEvent config calls = .ok c)
    (intime : c.window.clock.now ≠ .never) (unlinked : Unlinked (c.pushed i)) (at_k : (c.retired i)[k]? = some z)
    (kind : z.entry.u.op.serializing = true) :
    InSerialOrder config c.window.clock.period (issueLog Window.toEvent config calls) i (c.retired i) k z := by
  have logged := logged_of Window.striding_toEvent made
  cases found : c.window.lanes[i]? with
  | none =>
    rw [((truthful_of made).absent i found).2] at at_k
    cases at_k
  | some lane => exact (logged.lanes i lane found).inSerialOrder intime unlinked (logged.settled intime) at_k kind

/-- A slow writer of register 5, a serializing micro-op that reads it, and one that depends on nothing. -/
def detained : List OpInstance :=
  [{ op := { destinations := [5], latency := 9 } }, { op := { serializing := true, sources := [5] } }, { op := {} }]

/-- A run over `detained` next to a slow store on another thread. -/
def detainedCalls : List (Window.Call FixedMemory) :=
  [.initializeThread 0 default none, .initializeThread 1 default none, .push 0 detained,
    .push 1 [{ op := { kind := .store, latency := 30 }, address := 64 }], .markEndOfStream 0, .markEndOfStream 1,
    .execute #[true, true]]

/-- The store, which issues first, holds the serializing micro-op back until it has drained; the youngest
micro-op has issued while that one was not ready. -/
theorem serializes_after_store_of_other_thread :
    ∃ (c : Chronicle FixedMemory) (z y : Retirement),
      Chronicle.of Window.toEvent { core := { smtThreads := 2 } } detainedCalls = .ok c ∧
      c.window.clock.now ≠ .never ∧ Unlinked (c.pushed 0) ∧ (c.retired 0)[1]? = some z ∧
      z.entry.u.op.serializing = true ∧ z.entry.ready = ⟨3759400⟩ ∧ z.entry.issued = ⟨12406020⟩ ∧
      (c.retired 0)[2]? = some y ∧ y.entry.issued = ⟨375940⟩ ∧
      InSerialOrder { core := { smtThreads := 2 } } c.window.clock.period
        (issueLog Window.toEvent { core := { smtThreads := 2 } } detainedCalls) 0 (c.retired 0) 1 z := by
  have computed : ((ofWithin Window.toEvent 80 { core := { smtThreads := 2 } } detainedCalls).map fun c =>
      (c.window.clock.now, c.pushed 0, (c.retired 0).map fun x =>
        (x.entry.u.op.serializing, x.entry.ready, x.entry.issued))) =
      some (⟨13157900⟩, detained, [(false, ⟨375940⟩, ⟨375940⟩), (true, ⟨3759400⟩, ⟨12406020⟩),
        (false, ⟨375940⟩, ⟨375940⟩)]) := by
    decide +kernel
  obtain ⟨c, made, same⟩ := exists_of_computed computed
  obtain ⟨now, same⟩ := Prod.mk.inj same
  obtain ⟨pushed, seen⟩ := Prod.mk.inj same
  have intime : c.window.clock.now ≠ .never := by
    rw [now]
    decide
  have unlinked : Unlinked (c.pushed 0) := by
    rw [pushed]
    unfold Unlinked
    decide
  obtain ⟨z, at_z, view⟩ := exists_retired (k := 1) seen rfl
  obtain ⟨y, at_y, view'⟩ := exists_retired (k := 2) seen rfl
  simp only [Prod.mk.injEq] at view view'
  exact ⟨c, z, y, made, intime, unlinked, at_z, view.1, view.2.1, view.2.2, at_y, view'.2.2,
    serializes made intime unlinked at_z view.1⟩

/-- A store that takes long to drain, a fence, work in between, a serializing load behind the fence and one
independent micro-op; then a slow writer of register 5, a serializing micro-op that reads it, and one that depends
on nothing. -/
def overtaken : List OpInstance :=
  [{ op := { kind := .store, latency := 30 }, address := 64 }, { op := { fence := true } }] ++
    List.replicate 10 { op := {} } ++
    [{ op := { kind := .load, serializing := true }, address := 128 }, { op := {} },
      { op := { destinations := [5], latency := 50 } }, { op := { serializing := true, sources := [5] } },
      { op := {} }]

/-- A serializing micro-op does not hold back younger ones while it waits for its operands, as the last but one
here, nor does a serializing load that is ready but waits for the fence in front of it. -/
theorem younger_ahead_of_serializing :
    ∃ (c : Chronicle FixedMemory) (z y z' y' : Retirement),
      Chronicle.of Window.toEvent default [.initializeThread 0 default none, .push 0 overtaken,
        .markEndOfStream 0, .execute #[true]] = .ok c ∧ c.window.clock.now ≠ .never ∧ Unlinked (c.pushed 0) ∧
      (c.retired 0)[12]? = some z ∧ z.entry.u.op.serializing = true ∧ (c.retired 0)[13]? = some y ∧
      z.entry.ready ≤ y.entry.issued ∧ y.entry.issued < z.entry.issued ∧
      (c.retired 0)[15]? = some z' ∧ z'.entry.u.op.serializing = true ∧ (c.retired 0)[16]? = some y' ∧
      y'.entry.issued < z'.entry.issued := by
  have computed : ((ofWithin Window.toEvent 80 default [.initializeThread 0 default none, .push 0 overtaken,
        .markEndOfStream 0, .execute #[true]]).map fun (c : Chronicle FixedMemory) =>
      (c.window.clock.now, c.pushed 0, ((c.retired 0).drop 12).map fun x =>
        (x.entry.u.op.serializing, x.entry.ready, x.entry.issued))) =
      some (⟨21052640⟩, overtaken, [(true, ⟨1503760⟩, ⟨12030080⟩), (false, ⟨1503760⟩, ⟨1503760⟩),
        (false, ⟨1503760⟩, ⟨1503760⟩), (true, ⟨20300760⟩, ⟨20300760⟩), (false, ⟨1879700⟩, ⟨1879700⟩)]) := by
    decide +kernel
  obtain ⟨c, made, same⟩ := exists_of_computed computed
  obtain ⟨now, same⟩ := Prod.mk.inj same
  obtain ⟨pushed, seen⟩ := Prod.mk.inj same
  have intime : c.window.clock.now ≠ .never := by
    rw [now]
    decide
  have unlinked : Unlinked (c.pushed 0) := by
    rw [pushed]
    unfold Unlinked
    decide
  have late : ∀ {k : Nat} {x : Bool × Time × Time},
      (((c.retired 0).drop 12).map fun r =>
        (r.entry.u.op.serializing, r.entry.ready, r.entry.issued))[k]? = some x →
      ∃ r, (c.retired 0)[12 + k]? = some r ∧
        (r.entry.u.op.serializing, r.entry.ready, r.entry.issued) = x := by
    intro k x at_k
    rw [List.getElem?_map, List.getElem?_drop] at at_k
    exact Option.map_eq_some_iff.mp at_k
  rw [seen] at late
  obtain ⟨z, at_z, view⟩ := late (k := 0) rfl
  obtain ⟨y, at_y, passes⟩ := late (k := 1) rfl
  obtain ⟨z', at_z', view'⟩ := late (k := 3) rfl
  obtain ⟨y', at_y', passes'⟩ := late (k := 4) rfl
  simp only [Prod.mk.injEq] at view passes view' passes'
  refine ⟨c, z, y, z', y', made, intime, unlinked, at_z, view.1, at_y, ?_, ?_, at_z', view'.1, at_y', ?_⟩
  · rw [view.2.1, passes.2.2]
  · rw [view.2.2, passes.2.2]
    decide
  · rw [view'.2.2, passes'.2.2]
    decide

end Chronicle

end CoreTiming
