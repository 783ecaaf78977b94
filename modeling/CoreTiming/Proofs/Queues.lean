import CoreTiming.Proofs.Rhythm
import CoreTiming.Proofs.SerialOrder
import CoreTiming.Proofs.Serving

/-!
# The queues of loads and stores

A load or store takes a unit of its queue while it is executed.  The pass over the window lets one issue only if a
unit is free, and the clock of the core never goes back.  So no request waits for a unit, none comes out of order,
and at no time are more loads or stores executed than there are units (`Chronicle.queues_suffice`), whichever
threads they are from and whether or not the window starts over before they leave.

What a pool of units knows is when each of them becomes free.  `UnitPool.Serves` ties that to the requests that it
has been asked to serve.
-/

namespace CoreTiming

open Faulting

/-! ## Section 1: A pool whose requests find a free unit -/

namespace UnitPool

variable {p : UnitPool} {served served' : List Service} {start stop delay t : Time}

/-- What has been asked of the pool, `served`, has found it ready. -/
structure Serves (p : UnitPool) (served : List Service) : Prop where
  /-- No request has waited. -/
  prompt : p.stats.totalDelay = 0
  /-- No request has come before its predecessor. -/
  ordered : p.stats.outOfOrder = 0
  /-- From the last request on, units are busy with the requests that are not over. -/
  busy : p.freeAt ≠ [] → ∀ t, p.lastStart ≤ t → served.countP (fun s => t < s.stop) ≤ p.numBusy t
  /-- There has been a unit for each request at all times. -/
  bounded : p.freeAt ≠ [] → ∀ t, served.countP (Service.covers t) ≤ p.numUnits

theorem serves_new (n : Nat) : (new n).Serves [] :=
  ⟨rfl, rfl, fun _ _ _ => Nat.zero_le _, fun _ _ => Nat.zero_le _⟩

/-- Fewer requests have been served as well. -/
theorem Serves.mono (h : p.Serves served) (fewer : ∀ q, served'.countP q ≤ served.countP q) : p.Serves served' :=
  ⟨h.prompt, h.ordered, fun units t later => le_trans (fewer _) (h.busy units t later),
    fun units t => le_trans (fewer _) (h.bounded units t)⟩

/-- A request that finds a free unit takes one at once. -/
theorem serve_of_free (units : p.freeAt ≠ []) (later : p.lastStart ≤ start) (free : p.hasFree start = true)
    (delay : Time) : ∃ (k : Nat) (u : Time), p.freeAt[k]? = some u ∧ u ≤ start ∧
      (p.serve start delay).2.freeAt = p.freeAt.set k (start + delay) ∧
      (p.serve start delay).2.lastStart = start ∧
      (p.serve start delay).2.stats.totalDelay = p.stats.totalDelay ∧
      (p.serve start delay).2.stats.outOfOrder = p.stats.outOfOrder := by
  obtain ⟨u, at_k, begins, least⟩ := Slots.assign_spec units start
  have early : u ≤ start := by
    obtain ⟨v, mem, early⟩ : ∃ v ∈ p.freeAt, v ≤ start := by simpa [hasFree, units] using free
    exact not_lt.mp fun late => (late.trans_le (least late v mem)).not_ge early
  have nothing : p.stats.totalDelay + (start - start) = p.stats.totalDelay := by
    apply Time.ext_toNat
    have := p.stats.totalDelay.toNat_le_limit
    rw [Time.toNat_add, Time.toNat_sub]
    omega
  obtain ⟨stats, served, totalDelay, outOfOrder⟩ := serve_eq units later delay
  rw [begins, max_eq_left early] at served totalDelay
  rw [nothing] at totalDelay
  refine ⟨_, u, at_k, early, ?_⟩
  rw [served]
  exact ⟨rfl, rfl, totalDelay, outOfOrder⟩

/-- Once a free unit is taken, it is busy until it becomes free again. -/
theorem numBusy_of_set {p' : UnitPool} {k : Nat} {u : Time} (at_k : p.freeAt[k]? = some u) (free : u ≤ t)
    (taken : p'.freeAt = p.freeAt.set k stop) : p'.numBusy t = p.numBusy t + if t < stop then 1 else 0 := by
  obtain ⟨inside, same⟩ := List.getElem?_eq_some_iff.mp at_k
  unfold numBusy
  rw [taken, List.countP_set inside, same]
  simp [not_lt.mpr free]

/-- A pool stays ready if it is asked for a unit that is free. -/
theorem Serves.serve (h : p.Serves served) (later : p.lastStart ≤ start) (free : p.hasFree start = true)
    (within : stop ≤ start + delay)
    (more : ∀ q, served'.countP q ≤ served.countP q + [Service.mk start stop].countP q) :
    (p.serve start delay).2.Serves served' := by
  by_cases units : p.freeAt = []
  · -- there is no limit
    have same : (p.serve start delay).2 = p := by
      unfold UnitPool.serve
      rw [if_pos (by simpa using units)]
    rw [same]
    exact ⟨h.prompt, h.ordered, absurd units, absurd units⟩
  obtain ⟨k, u, at_k, early, freeAt, lastStart, totalDelay, outOfOrder⟩ := serve_of_free units later free delay
  -- from now on, the new service keeps busy the unit that was free
  have busy : ∀ t, start ≤ t → served'.countP (fun s => t < s.stop) ≤ (p.serve start delay).2.numBusy t := by
    intro t after
    have before := h.busy units t (le_trans later after)
    have added := more fun s => t < s.stop
    rw [numBusy_of_set at_k (le_trans early after) freeAt]
    rw [List.countP_singleton] at added
    by_cases lasts : t < stop
    · rw [if_pos (lt_of_lt_of_le lasts within)]
      simp only [lasts, decide_true, if_true] at added
      omega
    · simp only [lasts, decide_false, Bool.false_eq_true, if_false] at added
      omega
  refine ⟨totalDelay.trans h.prompt, outOfOrder.trans h.ordered, fun _ t after => ?_, fun _ t => ?_⟩
  · rw [lastStart] at after
    exact busy t after
  · rw [numUnits_serve]
    rcases le_or_gt start t with after | before
    · calc served'.countP (Service.covers t) ≤ served'.countP (fun s => t < s.stop) := by
            refine List.countP_mono_left fun s _ covers => ?_
            exact (Bool.and_eq_true_iff.mp covers).2
        _ ≤ (p.serve start delay).2.numBusy t := busy t after
        _ ≤ p.numUnits := by
            rw [← numUnits_serve p start delay]
            exact List.countP_le_length
    · have added := more (Service.covers t)
      have outside : Service.covers t ⟨start, stop⟩ = false := by
        simp [Service.covers, not_le.mpr before]
      rw [List.countP_singleton, outside] at added
      exact le_trans added (h.bounded units t)

end UnitPool

/-! ## Section 2: Counting what issues -/

namespace Issuance

/-- When the micro-op has been executed: a cycle before it has drained if it is a store. -/
def executed (s : Issuance) (period : Period) : Time := s.drained - period.length

/-- When the micro-op is executed. -/
def service (s : Issuance) (period : Period) : Service := ⟨s.time, s.executed period⟩

end Issuance

/-- A micro-op has been executed once its latency is over. -/
theorem Entry.executed_issuance_le (e : Entry) (i : Nat) (period : Period) :
    (e.issuance i period).executed period ≤ e.issued + period.cycles e.u.latency := by
  rw [Time.le_iff_toNat_le]
  show (e.issued + period.cycles e.u.latency + period.length - period.length).toNat ≤ _
  rw [Time.toNat_sub, Time.toNat_add]
  omega

/-- Unless time is up, it is executed no shorter. -/
theorem Entry.executed_issuance {e : Entry} {period : Period} (intime : e.drained period ≠ .never) (i : Nat) :
    (e.issuance i period).executed period = e.issued + period.cycles e.u.latency := by
  apply Time.ext_toNat
  have sum := Time.toNat_add_of_ne intime
  show (e.drained period - period.length).toNat = _
  rw [Time.toNat_sub]
  unfold drained at sum ⊢
  omega

namespace Entry

variable {i n : Nat} {period : Period} {e x : Entry} {l l' l'' : List Entry} (q : Issuance → Bool)

/-- What has issued on thread `i` between two states of its entries. -/
abbrev issuances (i : Nat) (period : Period) (l l' : List Entry) : List Issuance :=
  (l.zip l').filterMap fun (e, e') => e.issuance? i period e'

/-- If nothing gets a result, nothing issues. -/
theorem issuances_eq_nil (same : Pointwise (fun e e' => e'.done = e.done) l l') : issuances i period l l' = [] := by
  refine List.filterMap_eq_nil_iff.mpr fun ⟨e, e'⟩ mem => ?_
  obtain ⟨k, entries⟩ := List.getElem?_of_mem mem
  obtain ⟨first, second⟩ := List.getElem?_zip_eq_some.mp entries
  obtain ⟨x, at_k, done⟩ := same.right second
  obtain rfl : x = e := Option.some.inj (at_k.symm.trans first)
  show x.issuance? i period e' = none
  unfold issuance? isDone
  rw [done]
  cases x.done.isNever <;> rfl

/-- If what had a result lasts, what issues in two steps issues in one of them. -/
theorem countP_issuances_le (lasts : Pointwise Lasts l' l'') :
    (issuances i period l l'').countP q ≤ (issuances i period l l').countP q + (issuances i period l' l'').countP q := by
  induction l generalizing l' l'' with
  | nil => exact Nat.zero_le _
  | cons e l ih =>
    cases l' with
    | nil =>
      have empty : l'' = [] := List.eq_nil_of_length_eq_zero lasts.length_eq
      rw [empty]
      exact Nat.zero_le _
    | cons e' l' =>
      cases l'' with
      | nil => exact Nat.zero_le _
      | cons e'' l'' =>
        have head : e'.Lasts e'' := by
          cases lasts 0 with
          | some lasts => exact lasts
        have tail : Pointwise Lasts l' l'' := fun k => lasts (k + 1)
        have rest := ih tail
        simp only [issuances, List.zip_cons_cons, List.countP_filterMap, List.countP_cons] at rest ⊢
        cases issues : e.issuance? i period e'' with
        | none =>
          simp only [Option.map_none, Option.getD_none, Bool.false_eq_true, if_false]
          omega
        | some s =>
          obtain ⟨waiting, done, same⟩ := issuance?_eq_some_iff.mp issues
          -- it issues in the step that gives it its result
          by_cases result : e'.done = .never
          · have second : e'.issuance? i period e'' = some s :=
              issuance?_eq_some_iff.mpr ⟨result, done, same⟩
            rw [second]
            omega
          · have first : e.issuance? i period e' = some s :=
              issuance?_eq_some_iff.mpr ⟨waiting, result, (head.issuance_eq result i period).symm.trans same⟩
            rw [first]
            omega

/-- If one entry changes, nothing else issues. -/
theorem countP_issuances_set_le : (issuances i period l (l.set n x)).countP q ≤ [x.issuance i period].countP q := by
  induction l generalizing n with
  | nil => exact Nat.zero_le _
  | cons e l ih =>
    have same : issuances i period l l = [] := issuances_eq_nil
      (Pointwise.refl (R := fun e e' : Entry => e'.done = e.done) (fun _ => rfl) l)
    cases n with
    | zero =>
      show (issuances i period (e :: l) (x :: l)).countP q ≤ _
      simp only [issuances, List.zip_cons_cons, List.filterMap_cons] at same ⊢
      cases issues : e.issuance? i period x with
      | none =>
        rw [same]
        exact Nat.zero_le _
      | some s =>
        rw [same, (issuance?_eq_some_iff.mp issues).2.2]
    | succ n =>
      have alone : e.issuance? i period e = none := by
        unfold issuance?
        cases e.isDone <;> rfl
      show (issuances i period (e :: l) (e :: l.set n x)).countP q ≤ _
      simp only [issuances, List.zip_cons_cons, List.filterMap_cons, alone]
      exact ih

end Entry

/-- An entry that issues is the only one. -/
theorem Thread.countP_issuances_start_le {th th₁ th' : Thread} {i n : Nat} {period : Period} {e e₁ : Entry}
    {now done latency : Time} (q : Issuance → Bool) (asked : th.Asked n e th₁ e₁)
    (started : start n e₁ now done latency th₁ = .ok () th') :
    (th.issuances i period th').countP q ≤ [({ e₁ with issued := now, done } : Entry).issuance i period].countP q := by
  obtain ⟨-, -, woken, -, -⟩ := start_eq_ok started
  rw [(asked.issuedAt now done).2] at woken
  have silent : Entry.issuances i period (th.ring.toList.set n { e₁ with issued := now, done }) th'.ring.toList = [] :=
    Entry.issuances_eq_nil (woken.mono fun _ _ wakes => by rw [wakes.frame])
  calc (th.issuances i period th').countP q
      ≤ (Entry.issuances i period th.ring.toList (th.ring.toList.set n { e₁ with issued := now, done })).countP q +
          (Entry.issuances i period (th.ring.toList.set n { e₁ with issued := now, done }) th'.ring.toList).countP q :=
        Entry.countP_issuances_le q (woken.mono fun _ _ => Entry.Woken.lasts)
    _ = (Entry.issuances i period th.ring.toList (th.ring.toList.set n { e₁ with issued := now, done })).countP q := by
        rw [silent, List.countP_nil, Nat.add_zero]
    _ ≤ [({ e₁ with issued := now, done } : Entry).issuance i period].countP q := Entry.countP_issuances_set_le q

/-- What had a result before an entry issues lasts. -/
theorem Thread.lasts_start {th th₁ th' : Thread} {n : Nat} {e e₁ : Entry} {now done latency : Time}
    (entry : th.ring.get? n = some e) (waiting : e.isDone = false) (asked : th.Asked n e th₁ e₁)
    (started : start n e₁ now done latency th₁ = .ok () th') :
    Pointwise Entry.Lasts th.ring.toList th'.ring.toList := by
  obtain ⟨-, -, woken, -, -⟩ := start_eq_ok started
  rw [(asked.issuedAt now done).2] at woken
  have not_done := Entry.isDone_eq_false_iff.mp waiting
  have issued : e.Lasts { e₁ with issued := now, done } :=
    ⟨asked.op_eq, fun result => absurd not_done result, fun result => absurd not_done result⟩
  rw [← Ring.getElem?_toList] at entry
  exact (Pointwise.set Entry.Lasts.refl entry issued).trans (fun _ _ _ => .trans)
    (woken.mono fun _ _ => Entry.Woken.lasts)

/-! ## Section 3: The issue stage -/

namespace Window

variable {M : Type} {w v x : Window M} {i : Nat} {lane lane' : Lane M} {lanes : List Nat}

/-- What had a result on any lane lasts. -/
def Lasts (w v : Window M) : Prop :=
  ∀ i : Nat, Option.Rel (fun l l' => Pointwise Entry.Lasts l.thread.ring.toList l'.thread.ring.toList)
    w.lanes[i]? v.lanes[i]?

theorem lasts_setLane (found : w.lanes[i]? = some lane) (set : v.lanes = w.lanes.setIfInBounds i lane')
    (lasts : Pointwise Entry.Lasts lane.thread.ring.toList lane'.thread.ring.toList) : w.Lasts v := by
  intro j
  rw [set]
  exact rel_setIfInBounds (fun l => .refl Entry.Lasts.refl l.thread.ring.toList) found lasts j

/-- What issues in two steps issues in one of them. -/
theorem countP_issuances_le (q : Issuance → Bool) (period : v.clock.period = w.clock.period) (lasts : v.Lasts x)
    (lanes : List Nat) : (lanes.flatMap (w.issuances x)).countP q ≤
      (lanes.flatMap (w.issuances v)).countP q + (lanes.flatMap (v.issuances x)).countP q := by
  induction lanes with
  | nil => exact Nat.zero_le _
  | cons i rest ih =>
    have here : (w.issuances x i).countP q ≤ (w.issuances v i).countP q + (v.issuances x i).countP q := by
      have related := lasts i
      unfold issuances
      rw [period]
      generalize v.lanes[i]? = o at related ⊢
      generalize x.lanes[i]? = o' at related ⊢
      cases w.lanes[i]? with
      | none => exact Nat.zero_le _
      | some l =>
        cases related with
        | none => exact Nat.zero_le _
        | some lasts => exact Entry.countP_issuances_le q lasts
    simp only [List.flatMap_cons, List.countP_append]
    omega

/-- What issues issues on the lane that changes. -/
theorem countP_issuances_setLane_le (q : Issuance → Bool) {n : Nat} (found : w.lanes[i]? = some lane)
    (set : v.lanes = w.lanes.setIfInBounds i lane') (nodup : lanes.Nodup)
    (few : (lane.thread.issuances i w.clock.period lane'.thread).countP q ≤ n) :
    (lanes.flatMap (w.issuances v)).countP q ≤ n := by
  have others : ∀ j, j ≠ i → w.issuances v j = [] := fun j other =>
    issuances_of_same (by rw [set, Array.getElem?_setIfInBounds_ne (Ne.symm other)])
  have here : w.issuances v i = lane.thread.issuances i w.clock.period lane'.thread :=
    issuances_eq found (by rw [set, Array.getElem?_setIfInBounds_self_of_lt (Array.getElem?_eq_some_iff.mp found).1])
  induction lanes with
  | nil => exact Nat.zero_le _
  | cons j rest ih =>
    obtain ⟨fresh, nodup⟩ := List.nodup_cons.mp nodup
    rw [List.flatMap_cons, List.countP_append]
    by_cases same : j = i
    · subst same
      have nothing : rest.flatMap (w.issuances v) = [] :=
        List.flatMap_eq_nil_iff.mpr fun k mem => others k fun same => fresh (same ▸ mem)
      rw [nothing, here, List.countP_nil, Nat.add_zero]
      exact few
    · rw [others j same, List.countP_nil, Nat.zero_add]
      exact ih nodup

end Window

/-- The micro-op, if it is a load or store, is neither serializing nor a fence. -/
def MicroOp.Plain (op : MicroOp) : Prop :=
  op.isLoad = true ∨ op.isStore = true → op.serializing = false ∧ op.fence = false

/-- The two queues of a core. -/
inductive Queue
  /-- The load queue. -/
  | loads
  /-- The store queue. -/
  | stores

namespace Queue

variable {M : Type} {config : Config} {queue : Queue} {log log' : List Issuance} {w v x : Window M}

/-- The units of the queue. -/
def pool : Queue → Window M → UnitPool
  | loads, w => w.loadQueue
  | stores, w => w.storeQueue

/-- How many units it is to have; none stands for any number. -/
def units : Queue → Config → Nat
  | loads, config => config.window.outstandingLoads
  | stores, config => config.window.outstandingStores

/-- Which micro-ops need one of them. -/
def admits : Queue → MicroOp → Bool
  | loads, op => op.isLoad
  | stores, op => op.isStore

/-- What has been asked of the queue. -/
def services (queue : Queue) (period : Period) (log : List Issuance) : List Service :=
  (log.filter (queue.admits ·.op)).map (·.service period)

theorem countP_services (queue : Queue) (period : Period) (log : List Issuance) (q : Service → Bool) :
    (queue.services period log).countP q = log.countP fun s => queue.admits s.op && q (s.service period) := by
  unfold services
  rw [List.countP_map, List.countP_filter]
  refine List.countP_congr fun s _ => ?_
  rw [Bool.and_comm]
  rfl

/-- The units of the queue have served what is in the log. -/
structure Holds (queue : Queue) (config : Config) (log : List Issuance) (w : Window M) : Prop where
  /-- They have found all requests in order, and been ready for them. -/
  serves : (queue.pool w).Serves (queue.services w.clock.period log)
  /-- The last request has come by now. -/
  past : (queue.pool w).lastStart ≤ w.clock.now
  /-- There are as many as there are to be. -/
  units_eq : (queue.pool w).numUnits = queue.units config

theorem Holds.mono (h : queue.Holds config log w) (pool : queue.pool v = queue.pool w)
    (period : v.clock.period = w.clock.period) (later : w.clock.now ≤ v.clock.now)
    (fewer : ∀ q : Issuance → Bool,
      log'.countP (fun s => queue.admits s.op && q s) ≤ log.countP fun s => queue.admits s.op && q s) :
    queue.Holds config log' v := by
  refine ⟨?_, pool ▸ le_trans h.past later, pool ▸ h.units_eq⟩
  rw [pool, period]
  refine h.serves.mono fun q => ?_
  rw [countP_services, countP_services]
  exact fewer _

/-- An entry that issues takes a unit if it needs one. -/
theorem pool_accept (queue : Queue) (op : MicroOp) (latency : Time) (w : Window M) :
    queue.pool (Window.accept op latency w) =
      if queue.admits op then ((queue.pool w).serve w.clock.now latency).2 else queue.pool w := by
  cases queue <;> rfl

/-- A load or store only issues if a unit of its queue is free. -/
theorem hasFree_of_judge {pass : Window.IssuePass} {e : Entry} (verdict : w.judge pass e = .issue)
    (plain : e.u.op.Plain) (admits : queue.admits e.u.op = true) : (queue.pool w).hasFree w.clock.now = true := by
  unfold Window.judge at verdict
  cases queue with
  | loads =>
    have load : e.u.op.isLoad = true := admits
    obtain ⟨serializing, fence⟩ := plain (.inl load)
    by_contra full
    have full : w.loadQueue.hasFree w.clock.now = false := Bool.eq_false_iff.mpr full
    simp [load, serializing, fence, full] at verdict
  | stores =>
    have store : e.u.op.isStore = true := admits
    have load : e.u.op.isLoad = false := by
      simp only [MicroOp.isStore, MicroOp.isLoad, beq_iff_eq] at store ⊢
      rw [store]
      rfl
    obtain ⟨serializing, fence⟩ := plain (.inr store)
    by_contra full
    have full : w.storeQueue.hasFree w.clock.now = false := Bool.eq_false_iff.mpr full
    simp [load, store, serializing, fence, full] at verdict

variable [MemorySystem M]

/-- An entry issues. -/
theorem Holds.issueEntry {i n : Nat} {lane : Lane M} {e : Entry} {pass : Window.IssuePass} {done : Time}
    (h : queue.Holds config log w) (found : w.lanes[i]? = some lane) (entry : lane.thread.ring.get? n = some e)
    (plain : e.u.op.Plain) (verdict : w.judge pass e = .issue) (issued : Window.issueEntry i n w = .ok done v)
    (added : ∀ lane' : Lane M, v.lanes = w.lanes.setIfInBounds i lane' → ∀ q, log'.countP q ≤
      log.countP q + (lane.thread.issuances i w.clock.period lane'.thread).countP q) :
    queue.Holds config log' v := by
  obtain ⟨th, e₁, lane', asked, started, -, rfl⟩ := Window.issueEntry_eq_ok found entry issued
  let x : Entry := { e₁ with issued := w.clock.now, done := e₁.doneFrom w.clock }
  have added : ∀ q, log'.countP q ≤ log.countP q + [x.issuance i w.clock.period].countP q := fun q =>
    le_trans (added lane' rfl q)
      (Nat.add_le_add_left (Thread.countP_issuances_start_le q asked started) _)
  let taken := Window.accept e₁.u.op (w.clock.period.cycles e₁.u.latency) w
  have pool : queue.pool { taken with lanes := w.lanes.setIfInBounds i lane' } = queue.pool taken := by
    cases queue <;> rfl
  -- a queue that does not admit the entry is left alone, and the entry does not count for it
  cases admits : queue.admits e₁.u.op with
  | false =>
    have same : queue.pool taken = queue.pool w := by
      rw [pool_accept, admits, if_neg Bool.false_ne_true]
    refine h.mono (pool.trans same) rfl (le_refl _) fun q => ?_
    have few := added fun s => queue.admits s.op && q s
    have none : (queue.admits (x.issuance i w.clock.period).op && q (x.issuance i w.clock.period)) = false := by
      show (queue.admits e₁.u.op && _) = false
      rw [admits, Bool.false_and]
    rw [List.countP_singleton, none] at few
    exact few
  | true =>
    have serve : queue.pool taken =
        ((queue.pool w).serve w.clock.now (w.clock.period.cycles e₁.u.latency)).2 := by
      rw [pool_accept, admits, if_pos rfl]
    have free := hasFree_of_judge verdict plain (asked.op_eq ▸ admits)
    refine ⟨?_, ?_, ?_⟩
    · rw [pool, serve]
      refine h.serves.serve h.past free (x.executed_issuance_le i w.clock.period) fun q => ?_
      rw [countP_services, countP_services]
      have few := added fun s => queue.admits s.op && q (s.service w.clock.period)
      have one : queue.admits (x.issuance i w.clock.period).op = true := admits
      rw [List.countP_singleton, one, Bool.true_and] at few
      rw [List.countP_singleton]
      exact few
    · rw [pool, serve]
      exact UnitPool.lastStart_serve_le h.past _
    · rw [pool, serve, UnitPool.numUnits_serve]
      exact h.units_eq

end Queue

namespace Window

variable {M : Type} {w v : Window M}

/-- All loads and stores in the window are plain. -/
def Plain (w : Window M) : Prop :=
  ∀ (i : Nat) (lane : Lane M), w.lanes[i]? = some lane → ∀ e ∈ lane.thread.ring.toList, e.u.op.Plain

theorem Plain.lasts (h : w.Plain) (lasts : w.Lasts v) : v.Plain := by
  intro i lane found e mem
  obtain ⟨lane₀, found₀, kept⟩ := rel_right (lasts i) found
  obtain ⟨k, at_k⟩ := List.getElem?_of_mem mem
  obtain ⟨e₀, at_k₀, last⟩ := kept.right at_k
  rw [last.op_eq]
  exact h i lane₀ found₀ e₀ (List.mem_of_getElem? at_k₀)

variable [MemorySystem M]

/-- What is noted concerns no entry, and no queue. -/
theorem Note.frame (noted : Note w v) : w.Lasts v ∧ v.clock = w.clock ∧
    (∀ queue : Queue, queue.pool v = queue.pool w) ∧ ∀ i, w.issuances v i = [] := by
  have changed : ∀ {i : Nat} {f : Thread → Thread}, modifyThread i f w = .ok () v → (∀ th, (f th).ring = th.ring) →
      w.Lasts v ∧ v.clock = w.clock ∧ (∀ queue : Queue, queue.pool v = queue.pool w) ∧ ∀ i, w.issuances v i = [] := by
    intro i f modified ring
    obtain ⟨lane, found, rfl⟩ := modifyThread_eq_ok.mp modified
    refine ⟨lasts_setLane found rfl ?_, rfl, fun queue => by cases queue <;> rfl, fun j => ?_⟩
    · dsimp only
      rw [ring]
      exact .refl Entry.Lasts.refl _
    · by_cases here : i = j
      · subst here
        have at_i : i < w.lanes.size := (Array.getElem?_eq_some_iff.mp found).1
        rw [issuances_eq found (Array.getElem?_setIfInBounds_self_of_lt at_i)]
        unfold Thread.issuances
        dsimp only
        rw [ring]
        exact Account.issuances_self i w.clock.period lane.thread
      · exact issuances_of_same (Array.getElem?_setIfInBounds_ne here)
  cases noted with
  | account counted => exact changed counted fun th => (Thread.sameFlow_accountLongLoad _ _ _ th).ring
  | look looked => exact changed looked fun _ => rfl
  | turn n =>
    exact ⟨fun i => rel_refl (fun lane => .refl Entry.Lasts.refl lane.thread.ring.toList) _, rfl,
      fun queue => by cases queue <;> rfl, fun i => issuances_of_same rfl⟩

/-- The clock stands still, and what had a result lasts. -/
theorem Fire.lasts (fired : Fire w v) : w.Lasts v ∧ v.clock = w.clock := by
  cases fired with
  | issue found _ entry waiting _ issued =>
    obtain ⟨th, e₁, lane', asked, started, -, rfl⟩ := issueEntry_eq_ok found entry issued
    exact ⟨lasts_setLane found rfl (Thread.lasts_start entry waiting asked started), rfl⟩
  | note noted =>
    obtain ⟨lasts, clock, -⟩ := noted.frame
    exact ⟨lasts, clock⟩

end Window

namespace Queue

variable {M : Type} [MemorySystem M] {config : Config} {queue : Queue} {log : List Issuance} {w v x : Window M}
  {lanes : List Nat}

/-- One move of the issue stage, which has begun with `w` and come to `v`. -/
theorem Holds.fire (h : queue.Holds config (log ++ lanes.flatMap (w.issuances v)) v)
    (clock : v.clock = w.clock) (plain : v.Plain) (nodup : lanes.Nodup) (fired : Window.Fire v x) :
    queue.Holds config (log ++ lanes.flatMap (w.issuances x)) x := by
  have split : ∀ q, (log ++ lanes.flatMap (w.issuances x)).countP q ≤
      (log ++ lanes.flatMap (w.issuances v)).countP q + (lanes.flatMap (v.issuances x)).countP q := by
    intro q
    have both := Window.countP_issuances_le (w := w) q (by rw [clock]) fired.lasts.1 lanes
    rw [List.countP_append, List.countP_append]
    omega
  cases fired with
  | issue found inside entry waiting verdict issued =>
    have at_n := entry
    rw [← Ring.getElem?_toList] at at_n
    refine h.issueEntry found entry (plain _ _ found _ (List.mem_of_getElem? at_n)) verdict issued
      fun lane' set q => le_trans (split q) (Nat.add_le_add_left ?_ _)
    exact Window.countP_issuances_setLane_le q found set nodup (le_refl _)
  | note noted =>
    obtain ⟨-, clock', pool, none⟩ := noted.frame
    refine h.mono (pool queue) (by rw [clock']) (le_of_eq (by rw [clock'])) fun q => ?_
    have nothing : lanes.flatMap (v.issuances x) = [] := List.flatMap_eq_nil_iff.mpr fun i _ => none i
    have few := split fun s => queue.admits s.op && q s
    rw [nothing, List.countP_nil, Nat.add_zero] at few
    exact few

/-- All moves of an issue stage. -/
theorem Holds.fires (h : queue.Holds config log w) (plain : w.Plain) (nodup : lanes.Nodup)
    (fires : Window.Fires w v) : queue.Holds config (log ++ lanes.flatMap (w.issuances v)) v := by
  have all : queue.Holds config (log ++ lanes.flatMap (w.issuances v)) v ∧ v.Plain ∧ v.clock = w.clock := by
    induction fires with
    | refl =>
      have nothing : lanes.flatMap (w.issuances w) = [] :=
        List.flatMap_eq_nil_iff.mpr fun i _ => Window.issuances_of_same rfl
      rw [nothing, List.append_nil]
      exact ⟨h, plain, rfl⟩
    | tail _ fired ih =>
      obtain ⟨holds, plain, clock⟩ := ih
      obtain ⟨lasts, clock'⟩ := fired.lasts
      exact ⟨holds.fire clock plain nodup fired, plain.lasts lasts, clock'.trans clock⟩
  exact all.1

/-- What issues in a cycle is served. -/
theorem Holds.cycle {stride : Window.Stride M} {running : Running} (h : queue.Holds config log w)
    (plain : ∀ {event : Time} {v : Window M}, Window.dispatch running w = .ok event v → v.Plain)
    (ran : Window.cycle stride running w = .ok () v) :
    queue.Holds config (log ++ Window.issuancesInCycle running w) v := by
  obtain ⟨dispatchEvent, issueEvent, commitEvent, w₁, w₂, w₃, dispatched, issued, committed, rfl⟩ :=
    Window.stages_of_cycle ran
  rw [Window.issuancesInCycle_eq dispatched issued]
  have entered : queue.Holds config log w₁ := by
    have frame := (Window.admits_dispatch dispatched).frame
    refine h.mono ?_ (by rw [frame]) (le_of_eq (by rw [frame])) fun _ => le_refl _
    rw [frame]
    cases queue <;> rfl
  have fired := entered.fires (plain dispatched) (Window.nodup_rotation w₁ (w₁.issueTurn % w₁.lanes.size))
    (Window.fires_issue issued)
  have frame := Window.commit_frame committed
  refine fired.mono ?_ ?_ ?_ fun _ => le_refl _
  · rw [frame]
    cases queue <;> rfl
  · rw [frame]
    rfl
  · rw [frame]
    exact Time.le_add_right _ _

/-- A call that runs no cycles leaves the queues as they are. -/
theorem Holds.call {stride : Window.Stride M} {call : Window.Call M} (h : queue.Holds config log w)
    (idle : ∀ running, call ≠ .execute running) (performed : call.perform stride w = .ok () v) :
    queue.Holds config log v := by
  cases call.kind with
  | initializeThread i memory predictor =>
    obtain ⟨-, th, -, rfl⟩ := Window.initializeThread_eq_ok performed
    refine h.mono ?_ rfl (le_refl _) fun _ => le_refl _
    cases queue <;> rfl
  | execute running => exact absurd rfl (idle running)
  | other old _ =>
    have grows := Window.Call.grows performed old idle
    refine h.mono ?_ (by rw [grows.period]) grows.later fun _ => le_refl _
    cases queue with
    | loads => exact grows.loadQueue
    | stores => exact grows.storeQueue

omit [MemorySystem M] in
theorem holds_new (queue : Queue) (new : Window.new config = .ok w) : queue.Holds config [] w := by
  obtain ⟨period, rfl⟩ := Window.new_eq_ok new
  cases queue with
  | loads => exact ⟨UnitPool.serves_new _, Time.zero_le _, UnitPool.numUnits_new _⟩
  | stores => exact ⟨UnitPool.serves_new _, Time.zero_le _, UnitPool.numUnits_new _⟩

end Queue

/-! ## Section 4: Chronicles -/

namespace Chronicle

variable {M : Type} {config : Config} {phase : Phase} {log : List Issuance} {c : Chronicle M}

/-- All loads and stores that have been pushed are plain. -/
def Plain (c : Chronicle M) : Prop := ∀ (i : Nat), ∀ u ∈ c.pushed i, u.op.Plain

/-- What is in the window has been pushed. -/
theorem Plain.window (h : c.Plain) (inPhase : c.InPhase config phase) : c.window.Plain := by
  intro i lane found e mem
  obtain ⟨k, at_k⟩ := List.getElem?_of_mem mem
  have entry : (c.account i lane).entries[(c.retired i).length + k]? = some e := by
    rw [← at_k]
    exact Account.entries_add k
  obtain ⟨u, at_u, op, -⟩ := (inPhase.lanes i lane found).reachable.inOrder.op_of_entry entry
  rw [← op]
  exact h i u (List.mem_of_getElem? at_u)

/-- Unless other loads and stores have been pushed, the queue has served what is in the log. -/
structure Served (config : Config) (queue : Queue) (log : List Issuance) (c : Chronicle M) : Prop where
  /-- The core is between two cycles. -/
  rested : c.InPhase config .rest
  /-- The units of the queue have served what is in the log. -/
  holds : c.Plain → queue.Holds config log c.window

variable [MemorySystem M] {queue : Queue}

theorem Served.cycle {running : Running} {v : Window M} (h : c.Served config queue log)
    (ran : Window.cycle Window.toEvent running c.window = .ok () v) :
    Served config queue (log ++ Window.issuancesInCycle running c.window)
      { c with
        window := v
        retired := fun i => c.retired i ++ Window.leavingInCycle running i c.window } :=
  ⟨h.rested.cycle Window.striding_toEvent ran, fun plain => (h.holds plain).cycle
    (fun {_ v} dispatched => Plain.window (c := { c with window := v }) plain (h.rested.dispatch dispatched)) ran⟩

theorem Served.after {call : Window.Call M} {c' : Chronicle M} (h : c.Served config queue log)
    (truthful : Truthful config c) (idle : ∀ running, call ≠ .execute running)
    (made : c.after Window.toEvent call = .ok c') : c'.Served config queue log := by
  refine ⟨h.rested.after truthful made, fun plain => ?_⟩
  obtain ⟨v, performed, rfl⟩ := after_eq_ok.mp made
  exact (h.holds fun i u mem => plain i u (List.mem_append_left _ mem)).call idle performed

/-- Both queues of every window have served what is in the issue log. -/
theorem served_of {calls : List (Window.Call M)} (made : of Window.toEvent config calls = .ok c) (queue : Queue) :
    c.Served config queue (issueLog Window.toEvent config calls) :=
  induction_log (P := fun log c => c.Served config queue log) (fun h ran => h.cycle ran)
    (fun h truthful idle made => h.after truthful idle made)
    (fun _ new => ⟨inPhase_new new, fun _ => Queue.holds_new queue new⟩) made

/-- Whatever is asked of a window, if no load or store is serializing or a fence, at no time are more loads or stores
executed on the core than their queue has units, on whichever threads and whether or not the window starts over
before they leave; none has waited for a unit, or come before its predecessor. -/
theorem queues_suffice {config : Config} {calls : List (Window.Call M)} {c : Chronicle M}
    (made : of Window.toEvent config calls = .ok c) (plain : c.Plain) (queue : Queue) :
    (0 < queue.units config → ∀ t, (issueLog Window.toEvent config calls).countP (fun s =>
      queue.admits s.op && (s.service c.window.clock.period).covers t) ≤ queue.units config) ∧
    (queue.pool c.window).stats.totalDelay = 0 ∧ (queue.pool c.window).stats.outOfOrder = 0 := by
  have holds := (served_of made queue).holds plain
  refine ⟨fun limited t => ?_, holds.serves.prompt, holds.serves.ordered⟩
  have units : (queue.pool c.window).freeAt ≠ [] := by
    intro none
    have number := holds.units_eq
    unfold UnitPool.numUnits at number
    rw [none, List.length_nil] at number
    omega
  have bounded := holds.serves.bounded units t
  rw [Queue.countP_services, holds.units_eq] at bounded
  exact bounded

/-- Two threads, two loads at a time, and one store. -/
def narrowQueues : Config :=
  { core := { smtThreads := 2 }, window := { outstandingLoads := 2, outstandingStores := 1 } }

/-- Two loads and two stores. -/
def accesses : List OpInstance :=
  [{ op := { kind := .load }, latency := 9, address := 64 }, { op := { kind := .load }, latency := 9, address := 128 },
    { op := { kind := .store }, latency := 9, address := 192 }, { op := { kind := .store }, latency := 9, address := 256 }]

/-- A run over `accesses` on both threads. -/
def accessesCalls : List (Window.Call FixedMemory) :=
  [.initializeThread 0 default none, .initializeThread 1 default none, .push 0 accesses, .push 1 accesses,
    .markEndOfStream 0, .markEndOfStream 1, .execute #[true, true]]

/-- The loads of the second thread wait for those of the first, and each store for the one before. -/
theorem queues_suffice_for_two_threads :
    ∃ c : Chronicle FixedMemory, of Window.toEvent narrowQueues accessesCalls = .ok c ∧ c.Plain ∧
      (c.retired 0).map (·.entry.issued) = [⟨375940⟩, ⟨375940⟩, ⟨375940⟩, ⟨3759400⟩] ∧
      (c.retired 1).map (·.entry.issued) = [⟨3759400⟩, ⟨3759400⟩, ⟨7142860⟩, ⟨10526320⟩] ∧
      (∀ t, (issueLog Window.toEvent narrowQueues accessesCalls).countP (fun s =>
        s.op.isLoad && (s.service c.window.clock.period).covers t) ≤ 2) ∧
      (∀ t, (issueLog Window.toEvent narrowQueues accessesCalls).countP (fun s =>
        s.op.isStore && (s.service c.window.clock.period).covers t) ≤ 1) ∧
      c.window.loadQueue.stats.totalDelay = 0 ∧ c.window.storeQueue.stats.outOfOrder = 0 := by
  have computed : ((ofWithin Window.toEvent 80 narrowQueues accessesCalls).map fun c =>
      (c.window.lanes.size, [c.pushed 0, c.pushed 1],
        [(c.retired 0).map (·.entry.issued), (c.retired 1).map (·.entry.issued)])) =
      some (2, [accesses, accesses], [[⟨375940⟩, ⟨375940⟩, ⟨375940⟩, ⟨3759400⟩],
        [⟨3759400⟩, ⟨3759400⟩, ⟨7142860⟩, ⟨10526320⟩]]) := by
    decide +kernel
  obtain ⟨c, made, same⟩ := exists_of_computed computed
  simp only [Prod.mk.injEq, List.cons.injEq, and_true] at same
  obtain ⟨size, ⟨pushed, pushed'⟩, issued, issued'⟩ := same
  have kept : ∀ u ∈ accesses, u.op.Plain := by
    unfold MicroOp.Plain
    decide
  have plain : c.Plain := by
    intro i
    match i with
    | 0 => rwa [pushed]
    | 1 => rwa [pushed']
    | i + 2 =>
      rw [((truthful_of made).absent (i + 2) (Array.getElem?_eq_none (by omega))).1]
      exact fun u mem => (by cases mem)
  obtain ⟨loads, prompt, -⟩ := queues_suffice made plain .loads
  obtain ⟨stores, -, ordered⟩ := queues_suffice made plain .stores
  exact ⟨c, made, plain, issued, issued', loads (by decide), stores (by decide), prompt, ordered⟩

end Chronicle

end CoreTiming
