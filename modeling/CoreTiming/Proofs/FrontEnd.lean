import CoreTiming.Proofs.Rhythm

/-!
# From the front end to the units

An entry that enters the window is ready no earlier than in the next cycle.  Those that wait for nobody are held
to that.  One that is woken takes over the time at which its last producer has a result, and forgets the cycle in
which it entered: a producer that issues in this cycle and takes no time lets it issue at once.
`Chronicle.issues_after_front_end` says that nothing else does, and `Chronicle.issued_on_entry` that this does.
-/

namespace CoreTiming

open Faulting

namespace Account

variable {config : Config} {phase : Phase} {a b : Account} {e x x' : Entry} {k : Nat}

/-! ## Section 1: Entries that are let through -/

/-- An entry before position `k` that was to wake `x` issued in the cycle in which `x` entered the window, and its
result took no time. -/
def Rushed (a : Account) (k : Nat) (x : Entry) : Prop :=
  ∃ (j : Nat) (p : Entry), a.entries[j]? = some p ∧ j < k ∧ x.seq ∈ p.dependants.toList ∧
    p.u.op.isStore = false ∧ p.u.latency = 0 ∧ p.issued = x.dispatched ∧ p.done = x.dispatched

/-- What has been let through stays so. -/
theorem Rushed.carry (h : a.Rushed k x) (seq : x'.seq = x.seq) (dispatched : x'.dispatched = x.dispatched)
    (intime : x.dispatched ≠ .never)
    (kept : ∀ (j : Nat) (p : Entry), a.entries[j]? = some p → j < k → p.done ≠ .never →
      ∃ p', b.entries[j]? = some p' ∧ p.Lingers p') : b.Rushed k x' := by
  obtain ⟨j, p, hp, older, tells, store, latency, issued, done⟩ := h
  have result : p.done ≠ .never := done ▸ intime
  obtain ⟨p', hp', lingers⟩ := kept j p hp older result
  refine ⟨j, p', hp', older, ?_, ?_, ?_, ?_, ?_⟩
  · rw [seq]
    exact lingers.keeps _ tells
  · rw [lingers.op_eq]
    exact store
  · rw [lingers.latency_eq result]
    exact latency
  · rw [lingers.issued_eq, dispatched]
    exact issued
  · rw [lingers.done_eq, dispatched]
    exact done

/-- Entries are held back for a cycle unless they are let through. -/
structure Delayed (a : Account) : Prop where
  /-- What is in the window has been there for a cycle, or has just entered. -/
  entered : ∀ (k : Nat) (x : Entry), a.entries[k]? = some x → a.retired.length ≤ k → k < a.edge →
    x.dispatched + a.clock.period.length ≤ a.clock.now ∨ x.dispatched = a.clock.now
  /-- What is in the window is ready no earlier than in the next cycle. -/
  ready : ∀ (k : Nat) (x : Entry), a.entries[k]? = some x → a.retired.length ≤ k → k < a.edge →
    x.dispatched + a.clock.period.length ≤ x.ready ∨ a.Rushed k x
  /-- What has issued has done so no earlier than in the next cycle. -/
  issued : ∀ (k : Nat) (x : Entry), a.entries[k]? = some x → x.issued ≠ .never →
    x.dispatched + a.clock.period.length ≤ x.issued ∨ x.issued = x.dispatched ∧ a.Rushed k x

/-! ## Section 2: One step -/

theorem Delayed.persist (h : Delayed a) (timed : Timed a) (timed' : Timed b) (intime : a.clock.now ≠ .never)
    (persists : Persists a b) (still : b.clock.now = a.clock.now ∨ Rested b) : Delayed b := by
  have edge := persists.edge
  have left := persists.left
  have period : b.clock.period.length = a.clock.period.length := by rw [persists.period]
  have before : ∀ {k : Nat} {x : Entry}, b.entries[k]? = some x → k < b.edge →
      ∃ y, a.entries[k]? = some y ∧ y.SamePoint x := by
    intro k x hx within
    obtain ⟨y, hy, point, -⟩ := rel_right (persists.kept k within) hx
    exact ⟨y, hy, point⟩
  -- the producer that has rushed an entry still stands where it did, and its result has not changed
  have rushed : ∀ {k : Nat} {x y : Entry}, a.entries[k]? = some y → k < b.edge → y.SamePoint x →
      a.Rushed k y → b.Rushed k x := by
    intro k x y hy within point rush
    refine rush.carry (by rw [point]; rfl) (by rw [point])
      (Time.ne_never_of_le (timed.dispatched_le k y hy (by omega)) intime) fun j p hp older _ => ?_
    obtain ⟨p', hp', point', grown⟩ := rel_left (persists.kept j (by omega)) hp
    exact ⟨p', hp', point'.lingers grown⟩
  refine ⟨fun k x hx inRing within => ?_, fun k x hx inRing within => ?_, fun k x hx issued => ?_⟩
  · rcases still with still | rested
    · obtain ⟨y, hy, point⟩ := before hx within
      rw [point, period, still]
      exact h.entered k y hy (by omega) (by omega)
    · exact .inl (rested k x hx inRing within)
  · obtain ⟨y, hy, point⟩ := before hx within
    have held := (h.ready k y hy (by omega) (by omega)).imp_right (rushed hy within point)
    rw [period]
    refine held.imp_left fun le => ?_
    rw [point]
    exact le
  · have within : k < b.edge := by
      by_contra outside
      exact issued (timed'.fresh k x hx (by omega)).issued
    obtain ⟨y, hy, point⟩ := before hx within
    have same : x.issued = y.issued := by rw [point]
    have dispatched : x.dispatched = y.dispatched := by rw [point]
    rw [same] at issued
    rw [period, same, dispatched]
    exact (h.issued k y hy issued).imp_right fun ⟨at_once, rush⟩ => ⟨at_once, rushed hy within point rush⟩

theorem Delayed.enter {e' : Entry} {th : Thread} (h : Delayed a) (timed : Timed a) (intime : a.clock.now ≠ .never)
    (enters : Enters config a b e e' th) : Delayed b := by
  have edge := enters.edge_eq
  have rushed : ∀ {k : Nat} {x y : Entry}, a.entries[k]? = some y → k < a.edge → y.Listed e.seq x →
      a.Rushed k y → b.Rushed k x := by
    intro k x y hy within listed rush
    refine rush.carry listed.seq_eq (by rw [listed.frame])
      (Time.ne_never_of_le (timed.dispatched_le k y hy within) intime) fun j p hp older _ => ?_
    obtain ⟨p', hp', listed'⟩ := rel_left (enters.others j (by omega)) hp
    exact ⟨p', hp', listed'.lingers⟩
  refine ⟨fun k x hx inRing within => ?_, fun k x hx inRing within => ?_, fun k x hx issued => ?_⟩
  · rw [enters.clock]
    rw [enters.retired] at inRing
    rcases enters.entry_before hx with ⟨rfl, rfl⟩ | ⟨hne, y, hy, listed⟩
    · exact .inr rfl
    · rw [listed.frame]
      exact h.entered k y hy inRing (by omega)
  · rw [enters.clock]
    rw [enters.retired] at inRing
    rcases enters.entry_before hx with ⟨rfl, rfl⟩ | ⟨hne, y, hy, listed⟩
    · exact .inl (le_max_right _ _)
    · have held := (h.ready k y hy inRing (by omega)).imp_right (rushed hy (by omega) listed)
      refine held.imp_left fun le => ?_
      rw [listed.frame]
      exact le
  · rw [enters.clock]
    rcases enters.entry_before hx with ⟨rfl, rfl⟩ | ⟨-, y, hy, listed⟩
    · exact absurd (enters.not_issued timed hx (le_refl _)).1 issued
    · have same : x.issued = y.issued := by rw [listed.frame]
      have dispatched : x.dispatched = y.dispatched := by rw [listed.frame]
      rw [same] at issued
      rw [same, dispatched]
      have within : k < a.edge := by
        by_contra outside
        exact issued (timed.fresh k y hy (by omega)).issued
      exact (h.issued k y hy issued).imp_right fun ⟨at_once, rush⟩ => ⟨at_once, rushed hy within listed rush⟩

/-- What waits for the entry that issues hears of it. -/
theorem Issues.heard_of_told {done : Time} {i : Nat} (issues : Issues a b i e done) (order : InOrder config b)
    (hx : a.entries[k]? = some x) (other : k ≠ i) (told : x.seq ∈ e.dependants.toList)
    (hx' : b.entries[k]? = some x') : x.Heard e.seq done x' := by
  obtain ⟨m, z, z', hz, hz', number, hears⟩ := issues.heard x.seq told
  obtain ⟨z'', hz'', woken⟩ := issues.woken.left hz
  obtain ⟨y, hy, woken'⟩ := issues.exists_other other hx
  rw [hx'] at hy
  cases hy
  have here : m = k := order.position_unique hz'' hx' (by rw [woken.seq_eq, number, woken'.seq_eq])
  subst here
  rw [List.getElem?_set_ne (Ne.symm other), hx] at hz
  cases hz
  rw [hx'] at hz'
  cases hz'
  exact hears

/-- An entry that issues either takes a cycle at least, or its result is there at once. -/
theorem Issues.next_le_or_instant {done : Time} {i : Nat} (issues : Issues a b i e done) :
    a.clock.next ≤ done ∨ e.u.op.isStore = false ∧ e.u.latency = 0 ∧ done = a.clock.now := by
  rw [issues.result]
  unfold Entry.doneFrom
  cases store : e.u.op.isStore with
  | true => exact .inl (le_refl _)
  | false =>
    rw [if_neg Bool.false_ne_true]
    by_cases instant : e.u.latency = 0
    · refine .inr ⟨rfl, instant, ?_⟩
      apply Time.ext_toNat
      have := a.clock.now.toNat_le_limit
      rw [instant, Time.toNat_add, Period.toNat_cycles]
      omega
    · refine .inl (Time.add_le_add (le_refl _) ?_)
      have one : a.clock.period.length ≤ a.clock.period.cycles 1 := by
        rw [Time.le_iff_toNat_le, Period.toNat_cycles, Nat.mul_one]
        exact le_min (Nat.le_refl _) (Time.toNat_le_limit _)
      exact le_trans one (Period.cycles_le (Nat.pos_of_ne_zero instant))

section Issue

variable {done : Time} {i : Nat} (h : Delayed a) (timed : Timed a) (intime : a.clock.now ≠ .never)
  (issues : Issues a b i e done)

include timed intime issues in
theorem Rushed.issue {y : Entry} (rush : a.Rushed k y) (hy : a.entries[k]? = some y) (within : k < a.edge)
    (seq : x.seq = y.seq) (dispatched : x.dispatched = y.dispatched) : b.Rushed k x := by
  refine rush.carry seq dispatched (Time.ne_never_of_le (timed.dispatched_le k y hy within) intime)
    fun j p hp _ result => ?_
  have other : j ≠ i := by
    rintro rfl
    rw [issues.entry] at hp
    cases hp
    exact result issues.waiting
  obtain ⟨p', hp', woken⟩ := issues.exists_other other hp
  exact ⟨p', hp', woken.lingers⟩

omit timed intime in
include h issues in
/-- What is told that a result is there is ready in the next cycle at the earliest, unless the result was there
at once. -/
theorem Delayed.ready_of_told {y : Entry} (order' : InOrder config b) (timed' : Timed b)
    (hy : a.entries[k]? = some y) (hx : b.entries[k]? = some x) (inRing : a.retired.length ≤ k)
    (within : k < a.edge) (older : i < k) (told : y.seq ∈ e.dependants.toList) :
    x.dispatched + a.clock.period.length ≤ x.ready ∨ b.Rushed k x := by
  have other : k ≠ i := by omega
  obtain ⟨x', hx', woken⟩ := issues.exists_other other hy
  rw [hx] at hx'
  cases hx'
  have dispatched : x.dispatched = y.dispatched := by rw [woken.frame]
  -- it is ready once it has what it was told
  have known : done ≤ x.ready :=
    le_trans (issues.heard_of_told order' hy other told hx).told
      (timed'.timely k x hx (by rw [issues.same.edge_eq]; exact within)).readyMax_le
  rw [dispatched]
  rcases h.entered k y hy inRing within with rested | new
  · exact .inl (le_trans rested (le_trans issues.later known))
  · rcases issues.next_le_or_instant with takes | ⟨store, instant, now⟩
    · refine .inl (le_trans ?_ known)
      rw [new]
      exact takes
    · obtain ⟨p, hp, woken'⟩ := issues.exists_issued
      refine .inr ⟨i, p, hp, older, ?_⟩
      rw [woken'.frame, woken.seq_eq, dispatched, new]
      exact ⟨told, store, instant, rfl, now⟩

include h timed intime issues in
theorem Delayed.issue (attuned : Attuned a) (order' : InOrder config b) (timed' : Timed b) : Delayed b := by
  have edge := issues.same.edge_eq
  have left : b.retired.length = a.retired.length := by rw [issues.same.retired]
  have clock := issues.same.clock
  refine ⟨fun k x hx inRing within => ?_, fun k x hx inRing within => ?_, fun k x hx issued => ?_⟩
  · obtain ⟨y, hy, ⟨-, -, -, dispatched⟩, -⟩ := issues.exists_before hx
    rw [clock, dispatched]
    exact h.entered k y hy (by omega) (by omega)
  · obtain ⟨y, hy, -⟩ := issues.exists_before hx
    rw [clock]
    by_cases told : y.seq ∈ e.dependants.toList
    · exact h.ready_of_told issues order' timed' hy hx (by omega) (by omega)
        (attuned.listed i k e y issues.entry hy issues.inRing told) told
    · -- nobody has told it anything
      have unchanged : x.dispatched = y.dispatched ∧ x.ready = y.ready ∧ x.seq = y.seq := by
        by_cases here : k = i
        · subst here
          rw [issues.entry] at hy
          cases hy
          rw [issues.itself told] at hx
          cases hx
          exact ⟨rfl, rfl, rfl⟩
        · rw [issues.others k y here hy told] at hx
          cases hx
          exact ⟨rfl, rfl, rfl⟩
      rw [unchanged.1, unchanged.2.1]
      exact (h.ready k y hy (by omega) (by omega)).imp_right fun rush =>
        rush.issue timed intime issues hy (by omega) unchanged.2.2 unchanged.1
  · obtain ⟨y, hy, ⟨seq, -, -, dispatched⟩, others, itself⟩ := issues.exists_before hx
    rw [clock, dispatched]
    by_cases here : k = i
    · -- it was ready
      obtain ⟨rfl, -, new⟩ := itself here
      have within : k < a.edge := here ▸ issues.inWindow
      have inRing : a.retired.length ≤ k := here ▸ issues.inRing
      rw [new]
      show _ ≤ a.clock.now ∨ a.clock.now = _ ∧ _
      rcases h.entered k y hy inRing within with rested | now
      · exact .inl rested
      · rcases h.ready k y hy inRing within with held | rush
        · exact .inl (le_trans held issues.ready)
        · exact .inr ⟨now.symm, rush.issue timed intime issues hy within seq dispatched⟩
    · rw [(others here).issued_eq] at issued
      rw [(others here).issued_eq]
      have within : k < a.edge := by
        by_contra outside
        exact issued (timed.fresh k y hy (by omega)).issued
      exact (h.issued k y hy issued).imp_right fun instant =>
        ⟨instant.1, instant.2.issue timed intime issues hy within seq dispatched⟩

end Issue

theorem Delayed.step (h : Delayed a) (reached : Reachable config a) (step : Step config a b)
    (unlinked : Unlinked b.pushed) (intime : b.clock.now ≠ .never)
    (still : b.clock.now = a.clock.now ∨ Rested b) : Delayed b := by
  have order := reached.inOrder
  have reached' : Reachable config b := .step reached step
  have proceeds := order.proceeds step
  have intime' : a.clock.now ≠ .never := Time.ne_never_of_le proceeds.later intime
  cases proceeds with
  | persists persists => exact h.persist reached.timed reached'.timed intime' persists still
  | enter enters => exact h.enter reached.timed intime' enters
  | issue issues =>
    exact h.issue reached.timed intime' issues (reached.attuned (step.unlinked unlinked) intime')
      reached'.inOrder reached'.timed

/-! ## Section 3: All steps of a core -/

/-- Between two cycles, all that is in the window has been there for one. -/
theorem Paced.rested (h : Paced config phase a) (between : phase = .rest) : Rested a := by
  induction h with
  | new made =>
    intro k x hx
    rw [entries_new made] at hx
    cases hx
  | @step phase phase' a b paced pace ih =>
    have order := paced.reachable.inOrder
    cases pace with
    | contact contacted => exact (ih rfl).persist (contacted.drift.persists order)
    | wait period later => exact (ih rfl).persist (persists_tick period later)
    | @advance _ span histogram long =>
      have charged : Reachable config (a.withThread (a.thread.charge histogram a.clock.now span)) :=
        .step paced.reachable (.work (.keep ⟨rfl, rfl, rfl, rfl, rfl, rfl, rfl⟩))
      exact charged.timed.rested long
    | _ => cases between

/-- Work inside the thread while the clock stands still. -/
theorem Delayed.works {th : Thread} (h : Delayed a) (reached : Reachable config a) (unlinked : Unlinked a.pushed)
    (intime : a.clock.now ≠ .never) (works : Thread.Works config a.clock a.thread th) :
    Delayed (a.withThread th) := by
  have all : Reachable config (a.withThread th) ∧ Delayed (a.withThread th) := by
    induction works with
    | refl => exact ⟨reached, h⟩
    | @tail th₁ th₂ _ work ih =>
      obtain ⟨reached, delayed⟩ := ih
      have step : Step config (a.withThread th₁) (a.withThread th₂) := .work work
      exact ⟨.step reached step, delayed.step reached step unlinked intime (.inl rfl)⟩
  exact all.2

theorem Paced.delayed (h : Paced config phase a) (unlinked : Unlinked a.pushed) (intime : a.clock.now ≠ .never) :
    Delayed a := by
  induction h with
  | new made =>
    refine ⟨fun k x hx => ?_, fun k x hx => ?_, fun k x hx => ?_⟩
    all_goals
      rw [entries_new made] at hx
      cases hx
  | @step phase phase' a b paced pace ih =>
    have intime' := Time.ne_never_of_le pace.later intime
    have unlinked' := pace.unlinked unlinked
    have before := ih unlinked' intime'
    have reached := paced.reachable
    have after : phase' = .rest → Rested b := (Paced.step paced pace).rested
    cases pace with
    | contact contacted =>
      exact before.step reached contacted.drift.step unlinked intime (.inr (after rfl))
    | wait period later => exact before.step reached (.tick period later) unlinked intime (.inr (after rfl))
    | begin | turn | close => exact before
    | accept intake => exact before.works reached unlinked intime (.single intake.work)
    | launch launched => exact before.works reached unlinked intime launched.works
    | leave left =>
      refine before.step reached left.drift.step unlinked intime (.inl ?_)
      cases left with
      | retire => rfl
      | flush => rfl
    | @advance _ span histogram long =>
      have charge : Thread.Work config a.clock a.thread (a.thread.charge histogram a.clock.now span) :=
        .keep ⟨rfl, rfl, rfl, rfl, rfl, rfl, rfl⟩
      have charged := before.step reached (.work charge) unlinked' intime' (.inl rfl)
      exact charged.step (.step reached (.work charge)) (.tick rfl (Time.le_add_right _ _)) unlinked intime
        (.inr (after rfl))

end Account

/-! ## Section 4: What has left -/

namespace Chronicle

/-- Whatever is asked of a window, a micro-op that has left has issued a cycle after it entered the window at the
earliest, unless an older micro-op that it waited for issued in the cycle in which it entered, and took no time.
In that case it issued in this cycle as well. -/
theorem issues_after_front_end {M : Type} [MemorySystem M] {config : Config} {calls : List (Window.Call M)}
    {c : Chronicle M} {i k : Nat} {x : Retirement} (made : of Window.toEvent config calls = .ok c)
    (intime : c.window.clock.now ≠ .never) (unlinked : Unlinked (c.pushed i))
    (at_k : (c.retired i)[k]? = some x) :
    x.entry.dispatched + c.window.clock.period.length ≤ x.entry.issued ∨
      x.entry.issued = x.entry.dispatched ∧
      ∃ (j : Nat) (y : Retirement), (c.retired i)[j]? = some y ∧ j < k ∧
        x.entry.seq ∈ y.entry.dependants.toList ∧ y.entry.u.op.isStore = false ∧ y.entry.u.latency = 0 ∧
        y.entry.issued = x.entry.dispatched ∧ y.entry.done = x.entry.dispatched := by
  have truthful := truthful_of made
  cases found : c.window.lanes[i]? with
  | none =>
    rw [(truthful.absent i found).2] at at_k
    cases at_k
  | some lane =>
    have paced := (inPhase_of made).lanes i lane found
    have at_k : (c.account i lane).retired[k]? = some x := at_k
    have left := (List.getElem?_eq_some_iff.mp at_k).1
    have entry := Account.entries_of_retired at_k
    have issued := paced.reachable.timed.issued_of_left intime entry left
    rcases (paced.delayed unlinked intime).issued k x.entry entry issued with held | ⟨at_once, j, p, hp, older, rest⟩
    · exact .inl held
    · -- whatever is older has left as well
      rw [Account.entries_of_lt (by omega)] at hp
      obtain ⟨y, at_j, rfl⟩ := Option.map_eq_some_iff.mp hp
      exact .inr ⟨at_once, j, y, at_j, older, rest⟩

/-- A writer of register 1 and two readers of it, then a writer of register 5 that takes no time and a reader of
it.  The front end takes four at a time. -/
def instant : List OpInstance :=
  [{ op := { destinations := [1] } }, { op := { sources := [1] } }, { op := { sources := [1] } },
    { op := { destinations := [5], latency := 0 } }, { op := { sources := [5] } }]

/-- A run over `instant`. -/
def instantCalls : List (Window.Call FixedMemory) :=
  [.initializeThread 0 default none, .push 0 instant, .markEndOfStream 0, .execute #[true]]

/-- The last reader enters the window in the cycle in which the writer issues. -/
theorem seen_of_instant : ∃ c : Chronicle FixedMemory, of Window.toEvent default instantCalls = .ok c ∧
    c.window.clock.now ≠ .never ∧ c.window.clock.period.length = ⟨375940⟩ ∧ c.pushed 0 = instant ∧
    (c.retired 0).map (fun x => (x.entry.dispatched, x.entry.issued)) =
      [(0, ⟨375940⟩), (0, ⟨751880⟩), (0, ⟨751880⟩), (0, ⟨375940⟩), (⟨375940⟩, ⟨375940⟩)] := by
  have computed : ((ofWithin Window.toEvent 20 default instantCalls).map fun c =>
      (c.window.clock.now, c.window.clock.period.length, c.pushed 0,
        (c.retired 0).map fun x => (x.entry.dispatched, x.entry.issued))) =
      some (⟨1503760⟩, ⟨375940⟩, instant, [(0, ⟨375940⟩), (0, ⟨751880⟩), (0, ⟨751880⟩), (0, ⟨375940⟩),
        (⟨375940⟩, ⟨375940⟩)]) := by
    decide +kernel
  obtain ⟨c, made, same⟩ := exists_of_computed computed
  simp only [Prod.mk.injEq] at same
  obtain ⟨now, period, pushed, seen⟩ := same
  refine ⟨c, made, ?_, period, pushed, seen⟩
  rw [now]
  decide

theorem issues_after_front_end_of_instant :
    ∃ (c : Chronicle FixedMemory) (y x : Retirement), of Window.toEvent default instantCalls = .ok c ∧
      c.window.clock.now ≠ .never ∧ Unlinked (c.pushed 0) ∧ (c.retired 0)[3]? = some y ∧
      y.entry.issued ≠ y.entry.dispatched ∧
      y.entry.dispatched + c.window.clock.period.length ≤ y.entry.issued ∧
      (c.retired 0)[4]? = some x ∧ x.entry.issued = x.entry.dispatched ∧
      ∃ (j : Nat) (y : Retirement), (c.retired 0)[j]? = some y ∧ j < 4 ∧
        x.entry.seq ∈ y.entry.dependants.toList ∧ y.entry.u.op.isStore = false ∧ y.entry.u.latency = 0 ∧
        y.entry.issued = x.entry.dispatched ∧ y.entry.done = x.entry.dispatched := by
  obtain ⟨c, made, intime, period, pushed, seen⟩ := seen_of_instant
  have unlinked : Unlinked (c.pushed 0) := by
    rw [pushed]
    unfold Unlinked
    decide
  obtain ⟨y, at_y, view⟩ := exists_retired (k := 3) seen rfl
  obtain ⟨x, at_x, view'⟩ := exists_retired (k := 4) seen rfl
  simp only [Prod.mk.injEq] at view view'
  have waits : y.entry.issued ≠ y.entry.dispatched := by
    rw [view.1, view.2]
    decide
  have early : ¬x.entry.dispatched + c.window.clock.period.length ≤ x.entry.issued := by
    rw [view'.1, view'.2, period]
    decide
  exact ⟨c, y, x, made, intime, unlinked, at_y, waits,
    (issues_after_front_end made intime unlinked at_y).resolve_right fun at_once => waits at_once.1,
    at_x, (issues_after_front_end made intime unlinked at_x).resolve_left early⟩

/-- A reader issues in the cycle in which it enters the window. -/
theorem issued_on_entry :
    ∃ (c : Chronicle FixedMemory) (x : Retirement), of Window.toEvent default instantCalls = .ok c ∧
      c.window.clock.now ≠ .never ∧ Unlinked (c.pushed 0) ∧ (c.retired 0)[4]? = some x ∧
      x.entry.issued < x.entry.dispatched + c.window.clock.period.length := by
  obtain ⟨c, made, intime, period, pushed, seen⟩ := seen_of_instant
  obtain ⟨x, at_x, view⟩ := exists_retired (k := 4) seen rfl
  simp only [Prod.mk.injEq] at view
  refine ⟨c, x, made, intime, ?_, at_x, ?_⟩
  · rw [pushed]
    unfold Unlinked
    decide
  · rw [view.1, view.2, period]
    decide

end Chronicle

end CoreTiming
