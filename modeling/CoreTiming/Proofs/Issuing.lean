import CoreTiming.Proofs.Stages

/-!
# What the issue stage does to a lane

`Thread.Firing` says what the issue stage does to a thread, one operation after the other.  Here an entry that
issues is followed all the way: memory is consulted about it, it starts, and it is counted if it is a long load.
So the steps of this module say what is asked of the memory of a lane, and for whom, and which long loads are
counted.
-/

namespace CoreTiming

open Faulting

variable {M : Type} [MemorySystem M]

/-- What the issue stage does to a lane. -/
inductive Lane.Issuing (config : Config) (clock : Clock) : Lane M → Lane M → Prop
  /-- An entry in the window issues: memory is consulted, the entry starts, and it is counted if it is a long load. -/
  | issue {lane lane₁ : Lane M} {th : Thread} {n : Nat} {e e₁ : Entry} (inside : n < lane.thread.inWindow)
      (entry : lane.thread.ring.get? n = some e) (waiting : e.isDone = false) (ready : e.ready ≤ clock.now)
      (consults : Lane.Consults clock.period n e lane e₁ lane₁)
      (started : Thread.start n e₁ clock.now (e₁.doneFrom clock) (clock.period.cycles e₁.u.latency)
        lane₁.thread = .ok () th) :
      Issuing config clock lane
        { lane₁ with thread := th.accountLongLoad config.core.longLatencyCutoff clock.now n }
  /-- It is noted up to when nothing can issue. -/
  | look {lane : Lane M} (event : Time) :
      Issuing config clock lane { lane with thread := { lane.thread with nextEvent := event } }

theorem Lane.Issuing.works {config : Config} {clock : Clock} {lane lane' : Lane M}
    (h : Issuing config clock lane lane') : Thread.Works config clock lane.thread lane'.thread := by
  cases h with
  | issue inside entry waiting ready consults started =>
    exact (Thread.Firing.issue inside entry waiting ready consults.asked started).works.tail
      (.keep (Thread.sameFlow_accountLongLoad _ _ _ _))
  | look event => exact (Thread.Firing.look event).works

namespace Window

variable {w v x : Window M} {i n k : Nat} {lane : Lane M} {pass pass' : IssuePass}

/-- From `w` to `v` entries have issued on the lanes, and the clock has stood still. -/
structure Launches (w v : Window M) : Prop where
  /-- The parameters stay. -/
  config : v.config = w.config
  /-- No time has passed. -/
  clock : v.clock = w.clock
  /-- Each lane has made some steps, or none. -/
  lanes : ∀ i : Nat, Option.Rel (Relation.ReflTransGen (Lane.Issuing w.config w.clock)) w.lanes[i]? v.lanes[i]?

theorem Launches.refl (w : Window M) : Launches w w := by
  exact ⟨rfl, rfl, fun i => rel_refl (fun _ => Relation.ReflTransGen.refl) _⟩

theorem Launches.trans (h : Launches w v) (h' : Launches v x) : Launches w x := by
  refine ⟨h'.config.trans h.config, h'.clock.trans h.clock, fun i => ?_⟩
  have second := h'.lanes i
  rw [h.config, h.clock] at second
  refine rel_trans (fun _ _ _ first => ?_) (h.lanes i) second
  exact first.trans

/-- A single lane makes a step. -/
theorem Launches.of_step {lane' : Lane M} (found : w.lanes[i]? = some lane) (config : v.config = w.config)
    (clock : v.clock = w.clock) (lanes : v.lanes = w.lanes.setIfInBounds i lane')
    (step : Lane.Issuing w.config w.clock lane lane') : Launches w v := by
  refine ⟨config, clock, fun j => ?_⟩
  rw [lanes]
  exact rel_setIfInBounds (fun _ => .refl) found (.single step) j

/-- The pass lets an entry issue, and counts it. -/
theorem launches_issueEntry {e : Entry} {done : Time} (found : w.lanes[i]? = some lane)
    (inside : k < lane.thread.inWindow) (entry : lane.thread.ring.get? k = some e) (waiting : e.isDone = false)
    (verdict : w.judge pass e = .issue) (issued : issueEntry i k w = .ok done v)
    (counted : modifyThread i (Thread.accountLongLoad w.config.core.longLatencyCutoff w.clock.now k) v = .ok () x) :
    Launches w x ∧ ∃ lane', x.lanes[i]? = some lane' ∧ lane'.thread.inWindow = lane.thread.inWindow := by
  have at_i : i < w.lanes.size := (Array.getElem?_eq_some_iff.mp found).1
  obtain ⟨lane₁, e₁, th, consults, started, -, rfl⟩ := consults_of_issueEntry found entry issued
  obtain ⟨lane₂, found₂, rfl⟩ := modifyThread_eq_ok.mp counted
  obtain rfl : { lane₁ with thread := th } = lane₂ := by
    simpa [at_i] using found₂
  refine ⟨.of_step found rfl rfl ?_ (.issue inside entry waiting (ready_of_judge verdict) consults started), _,
    Array.getElem?_setIfInBounds_self_of_lt ?_, ?_⟩
  · exact Array.setIfInBounds_setIfInBounds ..
  · simpa [accept] using at_i
  · show (th.accountLongLoad _ w.clock.now k).inWindow = lane.thread.inWindow
    rw [(Thread.sameFlow_accountLongLoad _ _ _ _).inWindow, (Thread.start_eq_ok started).1]
    exact consults.asked.same.2.2

theorem launches_issueFrom (found : w.lanes[i]? = some lane) (inside : k + n ≤ lane.thread.inWindow)
    (h : issueFrom i n k pass w = .ok pass' v) : Launches w v := by
  induction n generalizing k pass w lane with
  | zero =>
    obtain ⟨-, rfl⟩ := pure_eq_ok.mp h
    exact .refl w
  | succ n ih =>
    cases looks_of_issueFrom found h with
    | nothing _ _ same | stop _ _ _ _ same =>
      rw [same]
      exact .refl w
    | done _ _ rest => exact ih found (by omega) rest
    | issue entry waiting verdict issued counted rest =>
      obtain ⟨first, lane₁, found₁, span⟩ := launches_issueEntry found (by omega) entry waiting verdict issued counted
      rcases rest with ⟨-, rfl⟩ | rest
      · exact first
      · exact first.trans (ih found₁ (by omega) rest)
    | wait _ _ _ _ rest =>
      rcases rest with ⟨-, rfl⟩ | rest
      · exact .refl _
      · exact ih found (by omega) rest

theorem launches_issueLane {event : Time} {result : Bool × Time} (h : issueLane i event w = .ok result v) :
    Launches w v := by
  obtain ⟨lane, found, turn⟩ := issueTurn_of_issueLane h
  cases turn with
  | asleep _ _ same | empty _ _ same =>
    rw [same]
    exact .refl w
  | look _ _ looked noted _ =>
    obtain ⟨lane₁, found₁, rfl⟩ := modifyThread_eq_ok.mp noted
    exact (launches_issueFrom found (by omega) looked).trans (.of_step found₁ rfl rfl rfl (.look _))

theorem launches_issueLanes {lanes : List Nat} {event : Time} {result : Option Nat × Time}
    (h : issueLanes lanes event w = .ok result v) : Launches w v := by
  induction lanes generalizing event w with
  | nil =>
    obtain ⟨-, rfl⟩ := pure_eq_ok.mp h
    exact .refl w
  | cons i others ih =>
    obtain ⟨any, event', w₁, turn, ⟨-, -, rfl⟩ | ⟨-, onwards⟩⟩ := issueLanes_cons_eq_ok h
    · exact launches_issueLane turn
    · exact (launches_issueLane turn).trans (ih onwards)

/-- The issue stage takes every lane from before to after by such steps. -/
theorem launches_issue {event : Time} (h : issue w = .ok event v) : Launches w v := by
  obtain ⟨last, x, turns, rfl⟩ := issue_eq_ok h
  have path := launches_issueLanes turns
  exact ⟨path.config, path.clock, path.lanes⟩

end Window

end CoreTiming
