import CoreTiming.Proofs.MemoryOrder
import CoreTiming.Proofs.Upkeep

/-!
# Every cycle leads on

As long as there is work, a cycle gets ahead, or all that is waited for has come nearer.  What is waited for
is a finite number of times, the last of which is `Window.horizon`: the front ends come up, latency has passed,
long loads are done, stores drain, units of the queues become free, and the oldest micro-ops are due.  Once
all of them have passed, some micro-op leaves, issues or enters in the next cycle.  `Window.rank` puts
together what is left to be done and how far the horizon is, and every cycle makes it smaller
(`Window.rank_cycle`).
-/

namespace CoreTiming

open Faulting

/-! ## Section 1: What has issued knows when it is done -/

namespace Thread

variable {config : Config} {clock : Clock} {th th' : Thread} {e : Entry}

theorem inTime_iff : th.InTime ↔ ∀ e ∈ th.window, e.issued ≠ .never → e.done ≠ .never := by
  have at_j : ∀ {j : Nat} {e : Entry}, th.window[j]? = some e ↔ j < th.inWindow ∧ th.ring.get? j = some e := by
    intro j e
    unfold window
    rw [List.getElem?_take, ← Ring.getElem?_toList]
    split
    · rename_i inside
      exact ⟨fun found => ⟨inside, found⟩, fun found => found.2⟩
    · rename_i outside
      exact ⟨fun found => (by cases found), fun found => absurd found.1 outside⟩
  constructor
  · intro h e mem
    obtain ⟨j, found⟩ := List.getElem?_of_mem mem
    obtain ⟨inside, entry⟩ := at_j.mp found
    exact h j e (Nat.zero_le _) inside entry
  · intro h j e _ inside entry
    exact h e (List.mem_of_getElem? (at_j.mpr ⟨inside, entry⟩))

theorem InTime.congr (h : th.InTime) (same : th'.window = th.window) : th'.InTime := by
  rw [inTime_iff, same, ← inTime_iff]
  exact h

/-- What enters the window has not issued. -/
theorem InTime.admission (h : th.InTime) (reached : th.Reached config clock)
    (admission : Admission config clock th th') : th'.InTime := by
  cases admission with
  | begin => exact h.congr rfl
  | blame cause => exact h.congr rfl
  | attempt awake tried =>
    have fetched : ∀ e, (fetchNext clock e th).2.InTime := fun e => h.congr (window_fetchNext clock e th)
    cases attempt_of_ok tried with
    | empty => exact h
    | fetch => exact fetched _
    | full | loads => exact (fetched _).congr rfl
    | @enter e e' th₁ next hit station linked =>
      have link := linked_link linked
      obtain ⟨es, listed, window⟩ := exists_window_enter next hit linked
        { e' with dispatched := clock.now, ready := max e'.ready clock.next }
      rw [inTime_iff, window]
      intro x mem issued
      rcases List.mem_append.mp mem with old | new
      · obtain ⟨k, at_k⟩ := List.getElem?_of_mem old
        obtain ⟨y, before, same⟩ := listed.right at_k
        rw [same.frame] at issued ⊢
        exact inTime_iff.mp h y (List.mem_of_getElem? before) issued
      · rw [List.mem_singleton] at new
        subst new
        refine absurd ?_ issued
        exact link.issued_eq.trans (reached.fresh next (Nat.le_refl _)).issued

theorem InTime.admissions (h : th.InTime) (reached : th.Reached config clock)
    (admissions : Relation.ReflTransGen (Admission config clock) th th') : th'.InTime := by
  have both : th'.InTime ∧ th'.Reached config clock := by
    induction admissions with
    | refl => exact ⟨h, reached⟩
    | tail _ admission ih =>
      exact ⟨ih.1.admission ih.2 admission,
        ih.2.works (admission.intakes.lift id fun _ _ => Intake.work)⟩
  exact both.1

end Thread

namespace Window

variable {M : Type} [MemorySystem M] {w v : Window M} {running : Running} {i : Nat} {l : Lane M}

theorem InTime.dispatch {event : Time} (h : w.InTime) (reached : w.Reached)
    (ran : Window.dispatch running w = .ok event v) : v.InTime := by
  have worked := admissions_dispatch ran
  refine ⟨worked.clock ▸ h.clock, fun i l' found' => ?_⟩
  obtain ⟨l, found, admissions⟩ := worked.exists_lane found'
  exact (h.lanes i l found).admissions (reached i l found) admissions

end Window

/-! ## Section 2: What is waited for -/

/-- The times at which something happens that the thread waits for. -/
def Thread.dues (period : Period) (th : Thread) : List Time :=
  th.stalledUntil :: th.now ::
    (th.longLoads.map (·.done) ++ (th.oldest?.map fun e => e.due period).toList)

theorem Thread.Rests.dues_subset {th th' : Thread} (h : th.Rests th') (period : Period) :
    th'.dues period ⊆ th.dues period := by
  have oldest : th'.oldest? = th.oldest? := by
    unfold Thread.oldest?
    rw [h.inWindow, h.ring]
  unfold Thread.dues
  rw [h.stalledUntil, h.now, oldest]
  refine List.cons_subset_cons _ (List.cons_subset_cons _ fun t mem => ?_)
  rw [List.mem_append] at mem ⊢
  exact mem.imp_left fun load => List.map_subset _ h.longLoads load

namespace Window

variable {M : Type} {w v : Window M} {i : Nat} {l : Lane M} {t : Time}

/-- The times at which something happens that is waited for. -/
def dues (w : Window M) : List Time :=
  w.lastStoreDone :: (w.loadQueue.freeAt ++ w.storeQueue.freeAt ++
    w.lanes.toList.flatMap fun l => l.thread.dues w.clock.period)

/-- When the last of it happens. -/
def horizon (w : Window M) : Time := w.dues.foldr max 0

theorem foldr_max_le_iff {ts : List Time} : ts.foldr max 0 ≤ t ↔ ∀ s ∈ ts, s ≤ t := by
  induction ts with
  | nil => simp [Time.zero_le]
  | cons s rest ih =>
    rw [List.foldr_cons, max_le_iff, ih, List.forall_mem_cons]

theorem horizon_le_iff : w.horizon ≤ t ↔ ∀ s ∈ w.dues, s ≤ t := foldr_max_le_iff

/-- Where nothing has moved, nothing else is waited for. -/
theorem Rests.horizon_le (h : w.Rests v) : v.horizon ≤ w.horizon := by
  rw [horizon_le_iff]
  intro s mem
  refine horizon_le_iff.mp (le_refl _) s ?_
  unfold dues at mem ⊢
  rw [h.lastStoreDone, h.loadQueue, h.storeQueue, h.clock] at mem
  rw [List.mem_cons, List.mem_append] at mem ⊢
  refine mem.imp_right (Or.imp_right fun lanes => ?_)
  rw [List.mem_flatMap] at lanes ⊢
  obtain ⟨l', inside', due⟩ := lanes
  obtain ⟨k, found'⟩ := List.getElem?_of_mem inside'
  obtain ⟨l, found, rests⟩ := h.lanes.right found'
  exact ⟨l, List.mem_of_getElem? found, rests.dues_subset _ due⟩

/-- Everything that is waited for has happened. -/
structure Settled (w : Window M) : Prop where
  /-- All stores have drained. -/
  drained : w.lastStoreDone ≤ w.clock.now
  /-- All units of the load queue are free. -/
  load : ∀ t ∈ w.loadQueue.freeAt, t ≤ w.clock.now
  /-- All units of the store queue are free. -/
  store : ∀ t ∈ w.storeQueue.freeAt, t ≤ w.clock.now
  /-- No thread waits for anything. -/
  lanes : ∀ (i : Nat) (l : Lane M), w.lanes[i]? = some l → ∀ t ∈ l.thread.dues w.clock.period, t ≤ w.clock.now

theorem settled_of_horizon (h : w.horizon ≤ w.clock.now) : w.Settled := by
  rw [horizon_le_iff] at h
  unfold dues at h
  simp only [List.forall_mem_cons, List.forall_mem_append] at h
  obtain ⟨drained, ⟨load, store⟩, lanes⟩ := h
  refine ⟨drained, load, store, fun i l found t mem => lanes t ?_⟩
  rw [← Array.getElem?_toList] at found
  exact List.mem_flatMap.mpr ⟨l, List.mem_of_getElem? found, mem⟩

theorem hasFree_of_le {pool : UnitPool} {now : Time} (free : ∀ t ∈ pool.freeAt, t ≤ now) :
    pool.hasFree now = true := by
  unfold UnitPool.hasFree
  cases units : pool.freeAt with
  | nil => rfl
  | cons t rest =>
    have first := free t (by rw [units]; exact List.mem_cons_self)
    simp [first]

/-- The charge for a span of time concerns no thread. -/
theorem total_advance (f : Thread → Nat) (span : Time)
    (kept : ∀ (th : Thread) (histogram : Bool) (now : Time), f (th.charge histogram now span) = f th) :
    (w.advance span).total f = w.total f := by
  unfold total Window.advance
  simp only [Array.toList_map, List.map_map]
  congr 1
  exact List.map_congr_left fun l _ => kept _ _ _

theorem horizon_advance (span : Time) : (w.advance span).horizon = w.horizon := by
  have dues : (w.advance span).dues = w.dues := by
    unfold Window.dues Window.advance
    simp only [Array.toList_map, List.flatMap_map]
    rfl
  unfold horizon
  rw [dues]

/-! ## Section 3: Every cycle leads on -/

/-- What is left to be done, and how far off the last time is that is waited for. -/
def rank (w : Window M) : ℕ ×ₗ ℕ ×ₗ ℕ :=
  toLex (w.pending, toLex (w.chores, w.horizon.toNat - w.clock.now.toNat))

theorem rank_lt_of_advances {span : Time} (h : w.Advances v) : (v.advance span).rank < w.rank := by
  have pending : (v.advance span).pending = v.pending := total_advance _ _ fun _ _ _ => rfl
  have chores : (v.advance span).chores = v.chores := total_advance _ _ fun _ _ _ => rfl
  unfold rank
  rw [pending, chores, Prod.Lex.toLex_lt_toLex, Prod.Lex.toLex_lt_toLex]
  exact h.imp_right fun same => ⟨same.1, .inl same.2⟩

/-- While everything rests, what is waited for comes nearer. -/
theorem rank_lt_of_rests {span : Time} (h : w.Rests v) (waits : w.clock.now < w.horizon)
    (later : v.clock.now < (v.advance span).clock.now) : (v.advance span).rank < w.rank := by
  have pending : (v.advance span).pending = v.pending := total_advance _ _ fun _ _ _ => rfl
  have chores : (v.advance span).chores = v.chores := total_advance _ _ fun _ _ _ => rfl
  unfold rank
  rw [pending, chores, h.pending_eq, h.chores_eq, horizon_advance, Prod.Lex.toLex_lt_toLex,
    Prod.Lex.toLex_lt_toLex]
  refine .inr ⟨rfl, .inr ⟨rfl, ?_⟩⟩
  have nearer := h.horizon_le
  have clock := congrArg (fun clock : Clock => clock.now.toNat) h.clock
  rw [Time.lt_iff_toNat_lt] at waits later
  rw [Time.le_iff_toNat_le] at nearer
  omega

end Window

/-- Before the end of time, a clock that moves by a period at least gets ahead. -/
theorem Clock.lt_addLatency {c : Clock} {span : Time} (intime : c.now ≠ .never) (le : c.period.length ≤ span) :
    c.now < (c.addLatency span).now := by
  have now := Time.toNat_lt_limit intime
  have length := c.period.length_pos
  rw [Time.le_iff_toNat_le] at le
  show c.now < c.now + span
  rw [Time.lt_iff_toNat_lt, Time.toNat_add]
  omega

/-- The core has what it takes to move micro-ops along. -/
structure Config.Working (config : Config) : Prop where
  /-- It dispatches micro-ops. -/
  dispatch : 0 < config.core.dispatchWidth
  /-- It has reservation stations. -/
  stations : 0 < config.window.stations
  /-- It commits micro-ops. -/
  commit : 0 < config.window.commitWidth

/-- A configuration that passes the checks meets every demand. -/
theorem Config.demand_of_valid {config : Config} (valid : config.validate = .ok ()) {demand : Bool × String × String}
    (mem : demand ∈ config.demands) : demand.1 = true := by
  unfold Config.validate at valid
  split at valid
  · cases valid
  · rename_i none
    rw [List.find?_eq_none] at none
    simpa using none demand mem

theorem Config.working_of_valid {config : Config} (valid : config.validate = .ok ()) : config.Working := by
  have atLeastOne : ∀ (n : Nat) (field : String), (n != 0, field, "must be at least 1") ∈ config.demands → 0 < n := by
    intro n field mem
    have demand := Config.demand_of_valid valid mem
    simp only [bne_iff_ne, ne_eq] at demand
    omega
  refine ⟨?_, ?_, ?_⟩
  · exact atLeastOne _ "core.dispatch_width" (by simp [Config.demands])
  · exact atLeastOne _ "rob_timer.rs_entries" (by simp [Config.demands])
  · exact atLeastOne _ "rob_timer.commit_width" (by simp [Config.demands])

namespace Window

variable {M : Type} [MemorySystem M] {w v w₁ w₂ : Window M} {running : Running} {stride : Stride M} {i : Nat}
  {l : Lane M} {e : Entry}

omit [MemorySystem M] in
/-- If the window of a thread is not empty, its oldest entry is due. -/
theorem Settled.due (h : w.Settled) (found : w.lanes[i]? = some l) (oldest : l.thread.oldest? = some e) :
    e.due w.clock.period ≤ w.clock.now := by
  refine h.lanes i l found _ ?_
  unfold Thread.dues
  rw [oldest]
  simp

/-- An oldest entry that is done leaves. -/
theorem advances_of_done {t : Time} (settled : w.Settled) (found : w.lanes[i]? = some l)
    (oldest : l.thread.oldest? = some e) (done : e.isDone = true) (working : w.config.Working)
    (before : w.Rests v) (ran : Window.commit v = .ok t w₁) : v.Advances w₁ := by
  have due := settled.due found oldest
  unfold Entry.due at due
  rw [if_pos done] at due
  have finished : w.Finished i e := ⟨⟨l, found, oldest⟩, due, working.commit⟩
  exact (finished.rests before).commit ran

/-- An oldest entry that has not issued does. -/
theorem advances_of_waiting {t : Time} (settled : w.Settled) (found : w.lanes[i]? = some l)
    (oldest : l.thread.oldest? = some e) (waiting : e.isDone = false) (before : w.Rests v)
    (acc : v.Accounted) (intime : v.InTime) (watchful : v.Watchful)
    (ran : Window.issue v = .ok t w₁) : v.Advances w₁ := by
  have due := settled.due found oldest
  have lanes := before.lanes i
  rw [Array.getElem?_toList, Array.getElem?_toList] at lanes
  obtain ⟨l', found', same⟩ := rel_left lanes found
  have oldest' : l'.thread.oldest? = some e := by
    unfold Thread.oldest? at oldest ⊢
    rwa [same.inWindow, same.ring]
  have now : w.clock.now ≤ w.clock.now := le_refl _
  have watched := watchful i l' found' e oldest'
  have ready := (acc i l' found').ready_of_oldest intime.clock oldest'
  rw [before.clock] at watched ready
  rw [max_eq_left due] at watched
  unfold Entry.due at due
  rw [waiting, if_neg Bool.false_ne_true] at due
  rw [max_eq_left due] at ready
  have issuable : v.Issuable i l' e := by
    refine ⟨found', ?_, oldest', waiting, ?_, ?_, hasFree_of_le ?_, hasFree_of_le ?_⟩
    · rwa [before.clock]
    · rwa [before.clock]
    · rw [before.clock, before.lastStoreDone]
      exact settled.drained
    · rw [before.clock, before.loadQueue]
      exact settled.load
    · rw [before.clock, before.storeQueue]
      exact settled.store
  exact issuable.issue intime ran

/-- If all windows are empty, some thread dispatches. -/
theorem advances_of_empty {t : Time} (settled : w.Settled) (steady : w.Steady) (intime : w.clock.now ≠ .never)
    (working : w.config.Working)
    (empty : ∀ (i : Nat) (l : Lane M), w.lanes[i]? = some l → l.thread.inWindow = 0)
    (can : w.canExecute running = true) (ran : Window.dispatch running w = .ok t w₁) : w.Advances w₁ := by
  unfold canExecute at can
  rw [Bool.and_eq_true, Nat.any_eq_finRange_any, List.any_eq_true] at can
  obtain ⟨-, ⟨i, inside⟩, -, work⟩ := can
  have found : w.lanes[i]? = some w.lanes[i] := Array.getElem?_eq_getElem inside
  have none := empty i _ found
  unfold Thread.hasWork at work
  simp only [none, lt_irrefl, decide_false, Bool.false_or, Bool.and_eq_true, decide_eq_true_iff] at work
  have dues := settled.lanes i _ found
  unfold Thread.dues at dues
  simp only [List.forall_mem_cons, List.forall_mem_append, List.mem_map] at dues
  obtain ⟨awake, told, served, -⟩ := dues
  have admissible : w.Admissible running i w.lanes[i] := by
    refine ⟨found, work.1, awake, told, ?_, work.2, fun load mem => served _ ⟨load, mem, rfl⟩, ?_,
      working.dispatch⟩
    · rw [none]
      exact steady.share
    · rw [steady.stationsUsed_eq_zero intime empty]
      exact working.stations
  exact admissible.dispatch ran

/-- While there is work, every cycle leads on. -/
theorem rank_cycle (striding : Striding stride) (steady : w.Steady) (intime : w.InTime)
    (working : w.config.Working) (can : w.canExecute running = true)
    (ran : Window.cycle stride running w = .ok () v) : v.rank < w.rank := by
  obtain ⟨_, _, _, w₁, w₂, w₃, dispatched, issued, committed, rfl⟩ := stages_of_cycle ran
  have first := dispatch_proceeds dispatched
  have accounted := steady.accounted.worked ((worked_dispatch dispatched).mono Thread.Intake.work)
  have intime₁ := intime.dispatch steady.accounted.reached dispatched
  have watchful := (steady.watchful intime.clock).dispatch steady.accounted intime.clock dispatched
  have second := issue_proceeds intime₁ issued
  have third := commit_proceeds committed
  rcases first.trans (second.trans third) with ahead | rests
  · exact rank_lt_of_advances ahead
  by_cases waits : w.clock.now < w.horizon
  · refine rank_lt_of_rests rests waits ?_
    exact Clock.lt_addLatency (rests.clock ▸ intime.clock) (striding w₃ _)
  -- everything that is waited for has happened, so the window cannot rest
  have settled := settled_of_horizon (not_lt.mp waits)
  refine rank_lt_of_advances ?_
  by_cases empty : ∀ (i : Nat) (l : Lane M), w.lanes[i]? = some l → l.thread.inWindow = 0
  · exact (advances_of_empty settled steady intime.clock working empty can dispatched).proceeds
      (second.trans third)
  · push Not at empty
    obtain ⟨i, l, found, some⟩ := empty
    obtain ⟨e, oldest⟩ := (steady.accounted i l found).exists_oldest some
    rcases first with ahead | rests₁
    · exact ahead.proceeds (second.trans third)
    cases done : e.isDone with
    | false =>
      exact rests₁.advances ((advances_of_waiting settled found oldest done rests₁ accounted intime₁ watchful
        issued).proceeds third)
    | true =>
      rcases second with ahead | rests₂
      · exact rests₁.advances (ahead.proceeds third)
      · have before := rests₁.trans rests₂
        exact before.advances (advances_of_done settled found oldest done working before committed)

end Window

end CoreTiming
