import CoreTiming.Proofs.Dataflow
import CoreTiming.Proofs.Waiting

/-!
# The order in which micro-ops issue

Stores and barriers issue behind everything older; a barrier also lets the older stores drain, and no load
passes one.  `Account.Ordered` says so of the entries that have issued.  What keeps loads behind a barrier
is told by `Account.Fenced`: the store table names the youngest barrier in the window, and a load that
entered behind a barrier waits for one that is no older, unless the barrier was already the oldest entry.

An issue that `Account.MayIssue` allows keeps that order.  Whether the issue stage makes other ones is left
to the module that follows it through its pass over the window.
-/

namespace CoreTiming

/-- Whether the micro-op `op` does not issue before the older micro-op `older` has. -/
def MicroOp.yieldsTo (op older : MicroOp) : Bool :=
  op.isStore || op.isBarrier || op.isLoad && older.isBarrier

/-- When the store has drained. -/
def Entry.drained (e : Entry) (period : Period) : Time :=
  e.issued + period.cycles e.u.latency + period.length

/-- When the last store issued on a core has drained once `e` issues as well; `drained` is when it had
before. -/
def Entry.drainedFrom (e : Entry) (drained : Time) (clock : Clock) : Time :=
  if e.u.op.isStore then max drained (clock.now + clock.period.cycles e.u.latency + clock.period.length)
  else drained

theorem Entry.le_drainedFrom (e : Entry) (drained : Time) (clock : Clock) :
    drained ≤ e.drainedFrom drained clock := by
  unfold drainedFrom
  split
  · exact le_max_left _ _
  · exact le_refl _

/-- The entry `e'` is `e` later on, and has not issued in the meantime. -/
structure Entry.Stands (e e' : Entry) : Prop where
  /-- It is the same micro-op. -/
  op_eq : e'.u.op = e.u.op
  /-- It has issued when it had. -/
  issued_eq : e'.issued = e.issued
  /-- Its result is available when it was. -/
  done_eq : e'.done = e.done
  /-- If it has issued, it takes as long as it did. -/
  latency_eq : e.done ≠ .never → e'.u.latency = e.u.latency

theorem Entry.Stands.drained_eq {e e' : Entry} (h : e.Stands e') (done : e.done ≠ .never) (period : Period) :
    e'.drained period = e.drained period := by
  unfold drained
  rw [h.issued_eq, h.latency_eq done]

theorem Entry.SamePoint.stands {e e' : Entry} (h : e.SamePoint e') (latency : e.Lengthens e') :
    e.Stands e' := by
  refine ⟨?_, ?_, ?_, latency.latency_eq⟩
  all_goals rw [h]

theorem Entry.Listed.stands {e e' : Entry} {consumer : Nat} (h : e.Listed consumer e') : e.Stands e' := by
  refine ⟨?_, ?_, ?_, fun _ => ?_⟩
  all_goals rw [h.frame]

theorem Entry.Woken.stands {e e' : Entry} {seq : Nat} {done : Time} (h : e.Woken seq done e') :
    e.Stands e' := by
  refine ⟨?_, ?_, ?_, fun _ => ?_⟩
  all_goals rw [h.frame]

/-- The entry `e'` is `e` later on, has not issued in the meantime, and is to wake those that it was to wake. -/
structure Entry.Lingers (e e' : Entry) : Prop extends Stands e e' where
  /-- The number is the same. -/
  seq_eq : e'.seq = e.seq
  /-- No consumer is forgotten. -/
  keeps : ∀ q ∈ e.dependants.toList, q ∈ e'.dependants.toList

theorem Entry.SamePoint.lingers {e e' : Entry} (h : e.SamePoint e') (latency : e.Lengthens e') :
    e.Lingers e' := by
  refine ⟨h.stands latency, ?_, fun q mem => ?_⟩
  · rw [h]
    rfl
  · rw [h]
    exact mem

theorem Entry.Listed.lingers {e e' : Entry} {consumer : Nat} (h : e.Listed consumer e') : e.Lingers e' :=
  ⟨h.stands, h.seq_eq, h.keeps⟩

theorem Entry.Woken.lingers {e e' : Entry} {seq : Nat} {done : Time} (h : e.Woken seq done e') :
    e.Lingers e' := by
  refine ⟨h.stands, h.seq_eq, fun q mem => ?_⟩
  rw [h.frame]
  exact mem

namespace Account

variable {config : Config} {a b : Account} {e p : Entry} {drained drained' : Time} {j k : Nat}

/-! ## Section 1: The order among entries that have issued -/

/-- What has issued has issued in order; `drained` is when the last store issued on the core has
drained. -/
structure Ordered (drained : Time) (a : Account) : Prop where
  /-- What has issued has issued after what it yields to. -/
  behind : ∀ (j k : Nat) (p e : Entry), a.entries[j]? = some p → a.entries[k]? = some e → j < k →
    e.u.op.yieldsTo p.u.op = true → e.issued ≠ .never →
      p.issued ≠ .never ∧ (p.done = .never ∨ p.issued ≤ e.issued)
  /-- All stores that have issued drain in time. -/
  drains : ∀ (k : Nat) (e : Entry), a.entries[k]? = some e → e.u.op.isStore = true → e.done ≠ .never →
    e.drained a.clock.period ≤ drained
  /-- A barrier that has issued has let the older stores drain. -/
  settled : ∀ (j k : Nat) (p e : Entry), a.entries[j]? = some p → a.entries[k]? = some e → j < k →
    e.u.op.isBarrier = true → p.u.op.isStore = true → e.issued ≠ .never →
      p.done = .never ∨ p.drained a.clock.period ≤ e.issued

/-- If no entry before `n` has issued in the meantime, and none behind has at all, the order is kept. -/
theorem Ordered.of_stands {n : Nat} (h : Ordered drained a) (later : drained ≤ drained')
    (period : b.clock.period = a.clock.period)
    (before : ∀ (k : Nat) (x : Entry), k < n → b.entries[k]? = some x →
      ∃ y, a.entries[k]? = some y ∧ y.Stands x)
    (idle : ∀ (k : Nat) (x : Entry), n ≤ k → b.entries[k]? = some x →
      x.issued = .never ∧ x.done = .never) : Ordered drained' b := by
  -- so each clause speaks of entries before `n` only
  have inside : ∀ {k : Nat} {x : Entry}, b.entries[k]? = some x → x.issued ≠ .never → k < n := by
    intro k x hx issued
    by_contra outside
    exact issued (idle k x (by omega) hx).1
  refine ⟨fun j k q x hq hx older yields issued => ?_, fun k x hx store done => ?_,
    fun j k q x hq hx older barrier store issued => ?_⟩
  · have within := inside hx issued
    obtain ⟨y, hy, stands⟩ := before k x within hx
    obtain ⟨p, hp, stands'⟩ := before j q (by omega) hq
    rw [stands.op_eq, stands'.op_eq] at yields
    rw [stands.issued_eq] at issued ⊢
    rw [stands'.issued_eq, stands'.done_eq]
    exact h.behind j k p y hp hy older yields issued
  · have within : k < n := by
      by_contra outside
      exact done (idle k x (by omega) hx).2
    obtain ⟨y, hy, stands⟩ := before k x within hx
    rw [stands.op_eq] at store
    rw [stands.done_eq] at done
    rw [period, stands.drained_eq done]
    exact le_trans (h.drains k y hy store done) later
  · have within := inside hx issued
    obtain ⟨y, hy, stands⟩ := before k x within hx
    obtain ⟨p, hp, stands'⟩ := before j q (by omega) hq
    rw [stands.op_eq] at barrier
    rw [stands'.op_eq] at store
    rw [stands.issued_eq] at issued ⊢
    rw [stands'.done_eq]
    by_cases done : p.done = .never
    · exact .inl done
    · rw [period, stands'.drained_eq done]
      exact h.settled j k p y hp hy older barrier store issued

theorem Ordered.persist (h : Ordered drained a) (later : drained ≤ drained') (persists : Persists a b)
    (timed : Timed b) : Ordered drained' b := by
  refine h.of_stands later persists.period (n := b.edge) (fun k x within hx => ?_) fun k x outside hx => ?_
  · obtain ⟨y, hy, point, latency⟩ := rel_right (persists.kept k within) hx
    exact ⟨y, hy, point.stands latency⟩
  · have fresh := timed.fresh k x hx outside
    exact ⟨fresh.issued, fresh.done⟩

theorem Ordered.enter {e' : Entry} {th : Thread} (h : Ordered drained a) (timed : Timed a)
    (enters : Enters config a b e e' th) : Ordered drained b := by
  refine h.of_stands (le_refl _) (by rw [enters.clock]) (n := a.edge) (fun k x within hx => ?_)
    fun k x outside hx => enters.not_issued timed hx outside
  obtain ⟨y, hy, listed⟩ := enters.entry_elsewhere hx (Nat.ne_of_lt within)
  exact ⟨y, hy, listed.stands⟩

/-- The micro-op `op`, which stands at position `k`, may issue now. -/
structure MayIssue (drained : Time) (a : Account) (k : Nat) (op : MicroOp) : Prop where
  /-- What it yields to has issued. -/
  behind : ∀ (j : Nat) (p : Entry), a.entries[j]? = some p → j < k → op.yieldsTo p.u.op = true →
    p.issued ≠ .never
  /-- If it is a barrier, all stores have drained. -/
  drained : op.isBarrier = true → drained ≤ a.clock.now

theorem MayIssue.quiet {op : MicroOp} (h : a.MayIssue drained k op) (quiet : Quiet a b) :
    b.MayIssue drained k op := by
  refine ⟨fun j p hp older yields => ?_, fun barrier => ?_⟩
  · obtain ⟨q, hq, point⟩ := quiet.entries.right hp
    rw [point] at yields ⊢
    exact h.behind j q hq older yields
  · rw [quiet.same.clock]
    exact h.drained barrier

/-- An entry after `e`, possibly itself, has issued. -/
theorem Issues.origin {done : Time} {i : Nat} {x : Entry} (issues : Issues a b i e done)
    (at_k : b.entries[k]? = some x) :
    ∃ y y' : Entry, a.entries[k]? = some y ∧ y'.Woken e.seq done x ∧ y'.Stands x ∧ y'.u = y.u ∧
      y'.readyMax = y.readyMax ∧ (k ≠ i → y' = y) ∧
      (k = i → y = e ∧ y' = { e with issued := a.clock.now, done }) := by
  rcases issues.entry_before at_k with ⟨rfl, woken⟩ | ⟨hne, y, hy, woken⟩
  · exact ⟨e, _, issues.entry, woken, woken.stands, rfl, rfl, fun other => absurd rfl other,
      fun _ => ⟨rfl, rfl⟩⟩
  · exact ⟨y, y, hy, woken, woken.stands, rfl, rfl, fun _ => rfl, fun same => absurd same hne⟩

/-- What is found at a position once `e` has issued is the micro-op that was there, with the number and the consumers
that it had, and its result unless it is the one that has issued. -/
theorem Issues.exists_before {done : Time} {i : Nat} {x : Entry} (issues : Issues a b i e done)
    (hx : b.entries[k]? = some x) : ∃ y, a.entries[k]? = some y ∧
    (x.seq = y.seq ∧ x.dependants = y.dependants ∧ x.u.op = y.u.op ∧ x.dispatched = y.dispatched) ∧
    (k ≠ i → y.Lingers x) ∧ (k = i → y = e ∧ x.done = done ∧ x.issued = a.clock.now) := by
  obtain ⟨y, y', hy, woken, u, dependants, -, -, dispatched, others, itself⟩ := issues.exists_woken hx
  refine ⟨y, hy, ⟨?_, ?_, ?_, ?_⟩, fun other => ?_, fun here => ?_⟩
  · rw [woken.seq_eq, Entry.seq, Entry.seq, u]
  · rw [woken.frame]
    exact dependants
  · rw [woken.frame, ← u]
  · rw [woken.frame]
    exact dispatched
  · rw [← others other]
    exact woken.lingers
  · rw [woken.frame, (itself here).2]
    exact ⟨(itself here).1, rfl, rfl⟩

/-- If what issues comes behind an older entry that has issued, what has issued after that entry still has. -/
theorem Issues.precedes {done : Time} {i : Nat} {p' e₁ e₁' : Entry} (issues : Issues a b i e done)
    (lasting : Lasting a) (intime : a.clock.now ≠ .never) (hp : a.entries[j]? = some p)
    (hx : a.entries[k]? = some e₁) (hp' : b.entries[j]? = some p') (hx' : b.entries[k]? = some e₁')
    (older : j < k)
    (before : e₁.issued ≠ .never → p.issued ≠ .never ∧ (p.done = .never ∨ p.issued ≤ e₁.issued))
    (behind : k = i → p.issued ≠ .never) (issued : e₁'.issued ≠ .never) :
    p'.issued ≠ .never ∧ (p'.done = .never ∨ p'.issued ≤ e₁'.issued) := by
  obtain ⟨_, at_k, -, others, itself⟩ := issues.exists_before hx'
  obtain ⟨_, at_j, -, others', itself'⟩ := issues.exists_before hp'
  cases hx.symm.trans at_k
  cases hp.symm.trans at_j
  by_cases here : k = i
  · -- the entry that issues now comes behind all that has issued
    have stands := others' (by omega)
    rw [stands.issued_eq, stands.done_eq, (itself here).2.2]
    exact ⟨behind here, .inr (lasting.past j p hp (behind here))⟩
  · rw [(others here).issued_eq] at issued ⊢
    obtain ⟨issued', le⟩ := before issued
    by_cases there : j = i
    · -- the older one had issued in vain, and has again
      obtain ⟨rfl, result, now⟩ := itself' there
      rw [result, now]
      exact ⟨intime, .inl (lasting.done_of_again issues issued')⟩
    · rw [(others' there).issued_eq, (others' there).done_eq]
      exact ⟨issued', le⟩

section Issue

variable {done : Time} {i : Nat} (h : Ordered drained a) (lasting : Lasting a) (intime : a.clock.now ≠ .never)
  (may : a.MayIssue drained i e.u.op) (issues : Issues a b i e done)

include h issues in
/-- The stores that have issued drain in time, the one that issues now included. -/
theorem Ordered.drains_issue {x : Entry} (hx : b.entries[k]? = some x) (store : x.u.op.isStore = true)
    (result : x.done ≠ .never) : x.drained b.clock.period ≤ e.drainedFrom drained a.clock := by
  obtain ⟨y, y', hy, -, stands, u, -, others, itself⟩ := issues.origin hx
  rw [stands.done_eq] at result
  rw [issues.same.clock, stands.drained_eq result]
  rw [stands.op_eq] at store
  by_cases here : k = i
  · obtain ⟨rfl, new⟩ := itself here
    rw [u] at store
    rw [new, Entry.drainedFrom, if_pos store]
    exact le_max_right _ _
  · rw [others here] at store result ⊢
    exact le_trans (h.drains k y hy store result) (e.le_drainedFrom drained a.clock)

include h lasting may issues in
/-- A barrier lets the older stores drain before it issues. -/
theorem Ordered.settled_issue {q x : Entry} (hq : b.entries[j]? = some q) (hx : b.entries[k]? = some x)
    (older : j < k) (barrier : x.u.op.isBarrier = true) (store : q.u.op.isStore = true)
    (issued : x.issued ≠ .never) : q.done = .never ∨ q.drained b.clock.period ≤ x.issued := by
  obtain ⟨y, y', hy, -, stands, u, -, others, itself⟩ := issues.origin hx
  obtain ⟨p, p', hp, -, stands', u', -, others', itself'⟩ := issues.origin hq
  rw [stands.op_eq, u] at barrier
  rw [stands'.op_eq, u'] at store
  rw [stands.issued_eq] at issued ⊢
  rw [stands'.done_eq]
  by_cases result : p'.done = .never
  · exact .inl result
  rw [issues.same.clock, stands'.drained_eq result]
  by_cases here : k = i
  · obtain ⟨rfl, new⟩ := itself here
    rw [others' (by omega)] at result ⊢
    rw [new]
    exact .inr (le_trans (h.drains j p hp store result) (may.drained barrier))
  · rw [others here] at issued ⊢
    by_cases there : j = i
    · -- an older store that has issued, in vain, has again
      obtain ⟨rfl, new⟩ := itself' there
      have yields : y.u.op.yieldsTo p.u.op = true := by simp [MicroOp.yieldsTo, barrier]
      obtain ⟨issued', -⟩ := h.behind j k p y hp hy older yields issued
      rw [new] at result
      exact absurd (lasting.done_of_again issues issued') result
    · rw [others' there] at result ⊢
      exact h.settled j k p y hp hy older barrier store issued

include h lasting intime may issues in
theorem Ordered.issue : Ordered (e.drainedFrom drained a.clock) b := by
  refine ⟨fun j k q x hq hx older yields issued => ?_, fun k x => h.drains_issue issues,
    fun j k q x => h.settled_issue lasting may issues⟩
  obtain ⟨y, hy, ⟨-, -, op, -⟩, -⟩ := issues.exists_before hx
  obtain ⟨p, hp, ⟨-, -, op', -⟩, -⟩ := issues.exists_before hq
  rw [op, op'] at yields
  refine issues.precedes lasting intime hp hy hq hx older (h.behind j k p y hp hy older yields) (fun here => ?_) issued
  subst here
  cases issues.entry.symm.trans hy
  exact may.behind j p hp older yields

end Issue

/-! ## Section 2: What keeps loads behind a barrier -/

/-- Loads in the window wait for the barriers that they stand behind. -/
structure Fenced (a : Account) : Prop where
  /-- While there is a barrier in the window, the store table names one that is no older. -/
  noted : ∀ (j : Nat) (p : Entry), a.entries[j]? = some p → a.retired.length ≤ j → j < a.edge →
    p.u.op.isBarrier = true → ∃ (m : Nat) (f : Entry), a.entries[m]? = some f ∧ j ≤ m ∧ m < a.edge ∧
      f.u.op.isBarrier = true ∧ a.thread.stores.fence = some f.seq
  /-- Unless it is the oldest entry, a load waits for a barrier that is no older than any that it stands
  behind and that has not issued. -/
  waits : ∀ (j k : Nat) (p e : Entry), a.entries[j]? = some p → a.entries[k]? = some e →
    a.retired.length ≤ j → j < k → k < a.edge → p.u.op.isBarrier = true → e.u.op.isLoad = true →
    p.issued = .never → j = a.retired.length ∨ e.readyMax = .never ∨
      ∃ (m : Nat) (f : Entry), a.entries[m]? = some f ∧ j ≤ m ∧ m < k ∧ f.u.op.isBarrier = true ∧
        f.seq ∈ e.u.producers.toList

theorem fenced_of_empty (empty : a.edge = a.retired.length) : Fenced a := by
  refine ⟨fun j p _ inRing within => ?_, fun j k p e _ _ inRing older within => ?_⟩
  all_goals omega

theorem Fenced.persist (h : Fenced a) (persists : Persists a b) : Fenced b := by
  rcases persists.fence with ⟨edge, fence⟩ | empty
  swap
  · exact fenced_of_empty empty
  have left := persists.left
  refine ⟨fun j p hp inRing within barrier => ?_, fun j k p e hp he inRing older within barrier load waiting => ?_⟩
  · obtain ⟨q, hq, point, -⟩ := rel_right (persists.kept j within) hp
    rw [point] at barrier
    obtain ⟨m, f, hf, behind, inside, barrier', noted⟩ := h.noted j q hq (by omega) (by omega) barrier
    obtain ⟨f', hf', point', -⟩ := rel_left (persists.kept m (by omega)) hf
    refine ⟨m, f', hf', behind, by omega, ?_, ?_⟩
    · rw [point']
      exact barrier'
    · rw [fence, noted, point']
      rfl
  · obtain ⟨q, hq, point, -⟩ := rel_right (persists.kept j (by omega)) hp
    obtain ⟨y, hy, point', -⟩ := rel_right (persists.kept k within) he
    rw [point] at barrier waiting
    rw [point'] at load
    rw [point']
    rcases h.waits j k q y hq hy (by omega) older (by omega) barrier load waiting with
      oldest | never | ⟨m, f, hf, behind, before, barrier', listed⟩
    · exact .inl (by omega)
    · exact .inr (.inl never)
    · obtain ⟨f', hf', point'', -⟩ := rel_left (persists.kept m (by omega)) hf
      refine .inr (.inr ⟨m, f', hf', behind, before, ?_, ?_⟩)
      · rw [point'']
        exact barrier'
      · rw [point'']
        exact listed

/-- A load that enters the window behind a barrier waits for it. -/
theorem Fenced.heeds {e' : Entry} {th : Thread} {f : Entry} {m : Nat} (order : InOrder config a)
    (enters : Enters config a b e e' th) (load : e.u.op.isLoad = true) (at_m : a.entries[m]? = some f)
    (behind : a.retired.length < m) (barrier : f.u.op.isBarrier = true)
    (noted : a.thread.stores.fence = some f.seq) :
    f.done ≤ e'.readyMax ∨ f.seq ∈ e'.u.producers.toList := by
  have lowest := order.lowest_eq enters.next
  have number := order.seq_of_le (by omega) at_m
  have sought : f.seq ∈ a.thread.sought e.fetched := by
    unfold Thread.sought StoreTable.sought StoreTable.liveFence?
    have load' : e.fetched.u.op.isLoad = true := load
    rw [lowest, noted, if_pos load']
    have above : a.thread.base < f.seq := by omega
    simp [Option.filter, above]
  -- a barrier is no store, so the load does not look past it
  have found : ∀ {i : Nat} {p : Entry}, a.thread.ring.toList[i]? = some p → p.seq = f.seq → p = f := by
    intro i p hp same
    rw [← entries_add] at hp
    rw [order.position_unique hp at_m same, at_m] at hp
    exact (Option.some.inj hp).symm
  rcases enters.linked.heeds f.seq sought (by omega) with ⟨i, p, hp, same, heeded⟩ | ⟨-, -, passes⟩
  · rw [found hp same] at heeded
    exact heeded.imp_right And.left
  · obtain ⟨i, p, hp, same, store, -⟩ := passes
    rw [found hp same] at store
    simp [MicroOp.isBarrier, store] at barrier

/-- A load that enters the window waits for a barrier that is no older than any that it stands behind and that has
not issued, unless that is the oldest entry. -/
theorem Fenced.waits_enter {e' q : Entry} {th : Thread} {j : Nat} (h : Fenced a) (ordered : Ordered drained a)
    (order : InOrder config a) (timed : Timed a) (enters : Enters config a b e e' th)
    (load : e.u.op.isLoad = true) (hq : a.entries[j]? = some q) (inRing : a.retired.length ≤ j) (older : j < a.edge)
    (barrier : q.u.op.isBarrier = true) (waiting : q.issued = .never) :
    j = a.retired.length ∨ e'.readyMax = .never ∨
      ∃ (m : Nat) (f : Entry), a.entries[m]? = some f ∧ j ≤ m ∧ m < a.edge ∧ f.u.op.isBarrier = true ∧
        f.seq ∈ e'.u.producers.toList := by
  obtain ⟨m, f, hf, behind, inside, barrier', noted⟩ := h.noted j q hq inRing older barrier
  refine or_iff_not_imp_left.mpr fun oldest => ?_
  rcases Fenced.heeds order enters load hf (by omega) barrier' noted with told | waits
  · refine .inl ?_
    by_cases done : f.done = .never
    · exact Time.never_le_iff.mp (done ▸ told)
    · -- that barrier has issued, so the older one has as well
      have issued : f.issued ≠ .never := timed.issued_of_done hf done
      rcases Nat.eq_or_lt_of_le behind with same | before
      · subst same
        cases hq.symm.trans hf
        exact absurd waiting issued
      · have yields : f.u.op.yieldsTo q.u.op = true := by simp [MicroOp.yieldsTo, barrier']
        exact absurd waiting (ordered.behind j m q f hq hf before yields issued).1
  · exact .inr ⟨m, f, hf, behind, inside, barrier', waits⟩

theorem Fenced.enter {e' : Entry} {th : Thread} (h : Fenced a) (ordered : Ordered drained a)
    (order : InOrder config a) (timed : Timed a) (enters : Enters config a b e e' th) : Fenced b := by
  have edge := enters.edge_eq
  have fence : b.thread.stores.fence = a.thread.stores.fenceAfter e.fetched.u := by
    rw [enters.tables.2, enters.linked.fence]
  have op : e'.u.op = e.u.op := enters.linked.op_eq
  have sameOp := (Moves.enter enters).sameOp
  refine ⟨fun j p hp inRing within barrier => ?_, fun j k p x hp hx inRing older within barrier load waiting => ?_⟩
  · rw [enters.retired] at inRing
    by_cases new : e.u.op.isBarrier = true
    · -- the entry itself is the youngest barrier
      refine ⟨a.edge, _, enters.entered, by omega, by omega, op ▸ new, ?_⟩
      have number : seq? e.seq = some e.seq := order.seq?_eq enters.next
      have names : a.thread.stores.fenceAfter e.fetched.u = seq? e.seq := if_pos new
      rw [fence, names, number]
      exact congrArg some enters.linked.seq_eq.symm
    · obtain ⟨q, hq, same⟩ := sameOp.right hp
      rw [same.op_eq] at barrier
      have at_edge : j ≠ a.edge := by
        rintro rfl
        cases enters.next.symm.trans hq
        exact new barrier
      obtain ⟨m, f, hf, behind, inside, barrier', noted⟩ := h.noted j q hq inRing (by omega) barrier
      obtain ⟨f', hf', same'⟩ := sameOp.left hf
      have names : a.thread.stores.fenceAfter e.fetched.u = a.thread.stores.fence := if_neg new
      exact ⟨m, f', hf', behind, by omega, by rw [same'.op_eq, barrier'], by rw [fence, names, noted, same'.seq_eq]⟩
  · rw [enters.retired] at inRing ⊢
    obtain ⟨q, hq, listed⟩ := enters.entry_elsewhere hp (by omega)
    rw [listed.frame] at barrier waiting
    -- the entry waits for what it waited for, and a new one for the youngest barrier
    have waits : j = a.retired.length ∨ x.readyMax = .never ∨
        ∃ (m : Nat) (f : Entry), a.entries[m]? = some f ∧ j ≤ m ∧ m < k ∧ f.u.op.isBarrier = true ∧
          f.seq ∈ x.u.producers.toList := by
      rcases enters.entry_before hx with ⟨rfl, rfl⟩ | ⟨hne, y, hy, listed'⟩
      · have load : e.u.op.isLoad = true := op ▸ load
        have waits := h.waits_enter ordered order timed enters load hq inRing older barrier waiting
        exact waits
      · rw [listed'.frame] at load ⊢
        exact h.waits j k q y hq hy inRing older (by omega) barrier load waiting
    refine waits.imp_right (Or.imp_right ?_)
    rintro ⟨m, f, hf, behind, before, barrier', listed'⟩
    obtain ⟨f', hf', same⟩ := sameOp.left hf
    exact ⟨m, f', hf', behind, before, by rw [same.op_eq, barrier'], by rw [same.seq_eq]; exact listed'⟩

theorem Fenced.issue {done : Time} {i : Nat} (h : Fenced a) (order : InOrder config a)
    (intime : a.clock.now ≠ .never) (may : a.MayIssue drained i e.u.op) (issues : Issues a b i e done) :
    Fenced b := by
  have edge := issues.same.edge_eq
  have left : b.retired.length = a.retired.length := by rw [issues.same.retired]
  have after : ∀ {m : Nat} {f : Entry}, a.entries[m]? = some f →
      ∃ f', b.entries[m]? = some f' ∧ f'.u.op = f.u.op ∧ f'.seq = f.seq := by
    intro m f hf
    have moves : Moves config a b := .issue issues
    obtain ⟨x, hx, same⟩ := moves.sameOp.left hf
    obtain ⟨y, y', hy, -, stands, u, -⟩ := issues.origin hx
    rw [hf] at hy
    cases hy
    exact ⟨x, hx, stands.op_eq.trans (by rw [u]), same.seq_eq⟩
  refine ⟨fun j p hp inRing within barrier => ?_, fun j k p x hp hx inRing older within barrier load waiting => ?_⟩
  · obtain ⟨q, q', hq, -, stands, u, -⟩ := issues.origin hp
    rw [stands.op_eq, u] at barrier
    obtain ⟨m, f, hf, behind, inside, barrier', noted⟩ := h.noted j q hq (by omega) (by omega) barrier
    obtain ⟨f', hf', op, seq⟩ := after hf
    exact ⟨m, f', hf', behind, by omega, op ▸ barrier', by rw [issues.same.stores, noted, seq]⟩
  · obtain ⟨q, q', hq, -, stands, u, -, others, itself⟩ := issues.origin hp
    obtain ⟨y, y', hy, woken, stands', u', readyMax, -⟩ := issues.origin hx
    rw [stands.op_eq, u] at barrier
    rw [stands'.op_eq, u'] at load
    rw [stands.issued_eq] at waiting
    have other : j ≠ i := by
      intro here
      rw [(itself here).2] at waiting
      exact intime waiting
    rw [others other] at waiting
    rw [left]
    rcases h.waits j k q y hq hy (by omega) older (by omega) barrier load waiting with
      oldest | never | ⟨m, f, hf, behind, before, barrier', listed⟩
    · exact .inl oldest
    · refine .inr (.inl (Time.never_le_iff.mp ?_))
      rw [← never, ← readyMax]
      exact woken.readyMax_le
    · by_cases here : m = i
      · -- had that barrier issued, the older one would have before it
        subst here
        rw [issues.entry] at hf
        cases hf
        have yields : e.u.op.yieldsTo q.u.op = true := by simp [MicroOp.yieldsTo, barrier']
        exact absurd waiting (may.behind j q hq (by omega) yields)
      · obtain ⟨f', hf', op, seq⟩ := after hf
        refine .inr (.inr ⟨m, f', hf', behind, before, op ▸ barrier', ?_⟩)
        rw [seq]
        refine woken.keeps _ (by rw [u']; exact listed) fun same => ?_
        exact here (order.position_unique hf issues.entry same)

/-- A load that is ready stands behind no barrier that has not issued, except for the oldest entry. -/
theorem Fenced.eq_oldest (h : Fenced a) (timed : Timed a) (intime : a.clock.now ≠ .never)
    (at_j : a.entries[j]? = some p) (at_k : a.entries[k]? = some e) (inRing : a.retired.length ≤ j)
    (older : j < k) (within : k < a.edge) (barrier : p.u.op.isBarrier = true)
    (load : e.u.op.isLoad = true) (waiting : p.issued = .never) (ready : e.ready ≤ a.clock.now) :
    j = a.retired.length := by
  have timely := timed.timely k e at_k within
  have finite : e.ready ≠ .never := Time.ne_never_of_le ready intime
  rcases h.waits j k p e at_j at_k inRing older within barrier load waiting with
    oldest | never | ⟨m, f, -, -, -, -, listed⟩
  · exact oldest
  · exact absurd never (Time.ne_never_of_le timely.readyMax_le finite)
  · exact absurd (timely.ready_eq fun none => by rw [none] at listed; cases listed) finite

end Account

end CoreTiming
