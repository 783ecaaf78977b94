import CoreTiming.Proofs.IssuePass

/-!
# Serializing micro-ops

A serializing micro-op issues behind nothing but entries that have issued, and once it is ready the pass over
the window does not go past it until it has.  Before that, though, the pass does go past it, and it goes past
a serializing load or store that a fence holds back, unless entries issue in order.  `Account.Serialized` says
so of the entries that have issued.

The argument needs that what stands behind an entry has issued in an earlier cycle when the entry is looked at
(`Account.Lapsed`): a producer that issues now makes its consumers ready now at the earliest.
-/

namespace CoreTiming

/-- The entry `e'` is `e` later on: it has not issued in the meantime, and it is ready when it was. -/
structure Entry.Stays (e e' : Entry) : Prop extends Entry.Stands e e' where
  /-- It is ready when it was. -/
  ready_eq : e'.ready = e.ready

theorem Entry.SamePoint.stays {e e' : Entry} (h : e.SamePoint e') (latency : e.Lengthens e') :
    e.Stays e' := by
  refine ⟨h.stands latency, ?_⟩
  rw [h]

theorem Entry.Listed.stays {e e' : Entry} {consumer : Nat} (h : e.Listed consumer e') : e.Stays e' := by
  refine ⟨h.stands, ?_⟩
  rw [h.frame]

namespace Account

variable {config : Config} {a b : Account} {e p y z : Entry} {i j k n : Nat} {t : Time}

/-! ## Section 1: The order around serializing micro-ops -/

/-- The entry `z`, which stands at position `j`, did not hold back younger ones at the time `t`: entries need
not issue in order, and either it was not ready then or it is a load or store behind a fence that had not
issued. -/
def Passable (config : Config) (a : Account) (j : Nat) (z : Entry) (t : Time) : Prop :=
  config.window.inOrder = false ∧ (t < z.ready ∨
    (z.u.op.isLoad = true ∨ z.u.op.isStore = true) ∧ ∃ (i : Nat) (f : Entry), a.entries[i]? = some f ∧ i < j ∧
      f.u.op.fence = true ∧ (f.done = .never ∨ t < f.issued))

/-- What has issued has issued in order with the serializing micro-ops around it. -/
structure Serialized (config : Config) (a : Account) : Prop where
  /-- A serializing entry has issued after the older ones. -/
  behind : ∀ (j k : Nat) (y z : Entry), a.entries[j]? = some y → a.entries[k]? = some z → j < k →
    z.u.op.serializing = true → z.issued ≠ .never → y.issued ≠ .never ∧ (y.done = .never ∨ y.issued ≤ z.issued)
  /-- It has issued before the younger ones, but for those that it did not hold back. -/
  ahead : ∀ (j k : Nat) (z y : Entry), a.entries[j]? = some z → a.entries[k]? = some y → j < k →
    z.u.op.serializing = true → y.issued ≠ .never →
      (z.issued ≠ .never ∧ (z.done = .never ∨ z.issued ≤ y.issued)) ∨ a.Passable config j z y.issued

/-- What did not hold back others then did not, whatever it and the older entries have done since. -/
theorem Passable.carry {z' : Entry} (h : a.Passable config j z t) (op : z'.u.op = z.u.op)
    (ready : t < z.ready → t < z'.ready)
    (fences : ∀ (i : Nat) (f : Entry), a.entries[i]? = some f → i < j → f.done = .never ∨ t < f.issued →
      ∃ f', b.entries[i]? = some f' ∧ f'.u.op = f.u.op ∧ (f'.done = .never ∨ t < f'.issued)) :
    b.Passable config j z' t := by
  obtain ⟨free, early | ⟨access, i, f, hf, older, fence, pending⟩⟩ := h
  · exact ⟨free, .inl (ready early)⟩
  · obtain ⟨f', hf', op', pending'⟩ := fences i f hf older pending
    exact ⟨free, .inr ⟨op ▸ access, i, f', hf', older, op' ▸ fence, pending'⟩⟩

/-- If the entries before `n` have not issued in the meantime, and none behind has at all, the order is
kept. -/
theorem Serialized.of_stays (h : Serialized config a)
    (before : ∀ k, k < n → Option.Rel Entry.Stays a.entries[k]? b.entries[k]?)
    (idle : ∀ (k : Nat) (x : Entry), n ≤ k → b.entries[k]? = some x → x.issued = .never) :
    Serialized config b := by
  have inside : ∀ {k : Nat} {x : Entry}, b.entries[k]? = some x → x.issued ≠ .never → k < n := by
    intro k x hx issued
    by_contra outside
    exact issued (idle k x (by omega) hx)
  refine ⟨fun j k y z hy hz older kind issued => ?_, fun j k z y hz hy older kind issued => ?_⟩
  · have within := inside hz issued
    obtain ⟨z₀, hz₀, stays⟩ := rel_right (before k within) hz
    obtain ⟨y₀, hy₀, stays'⟩ := rel_right (before j (by omega)) hy
    rw [stays.op_eq] at kind
    rw [stays.issued_eq] at issued ⊢
    rw [stays'.issued_eq, stays'.done_eq]
    exact h.behind j k y₀ z₀ hy₀ hz₀ older kind issued
  · have within := inside hy issued
    obtain ⟨z₀, hz₀, stays⟩ := rel_right (before j (by omega)) hz
    obtain ⟨y₀, hy₀, stays'⟩ := rel_right (before k within) hy
    rw [stays.op_eq] at kind
    rw [stays'.issued_eq] at issued ⊢
    rw [stays.issued_eq, stays.done_eq]
    refine (h.ahead j k z₀ y₀ hz₀ hy₀ older kind issued).imp_right fun passable => ?_
    refine passable.carry stays.op_eq (fun early => stays.ready_eq ▸ early) fun i f hf older' pending => ?_
    obtain ⟨f', hf', same⟩ := rel_left (before i (by omega)) hf
    exact ⟨f', hf', same.op_eq, by rwa [same.done_eq, same.issued_eq]⟩

theorem Serialized.persist (h : Serialized config a) (persists : Persists a b) (timed : Timed b) :
    Serialized config b :=
  h.of_stays (fun k within => rel_mono (fun _ _ same => same.1.stays same.2) (persists.kept k within))
    fun k x outside hx => (timed.fresh k x hx outside).issued

theorem Serialized.enter {e' : Entry} {th : Thread} (h : Serialized config a) (timed : Timed a)
    (enters : Enters config a b e e' th) : Serialized config b :=
  h.of_stays (n := a.edge) (fun k within => rel_mono (fun _ _ => Entry.Listed.stays) (enters.others k (by omega)))
    fun _ _ outside hx => (enters.not_issued timed hx outside).1

theorem serialized_new {clock : Clock} {th : Thread} {predictor : Option Predictor} {windowSize : Nat}
    {loadHistogram : Bool} (made : Thread.new windowSize loadHistogram predictor = .ok th) :
    Serialized config { clock, thread := th } := by
  have none : ∀ k : Nat, ({ clock, thread := th } : Account).entries[k]? = none := entries_new made
  refine ⟨fun j k y z hy => ?_, fun j k z y hz => ?_⟩
  · rw [none] at hy
    cases hy
  · rw [none] at hz
    cases hz

/-! ## Section 2: An entry issues -/

/-- An entry that waits for the one that issues is ready when that is done at the earliest; for the others
nothing changes. -/
theorem Issues.ready_eq_or_le {done : Time} {x x' : Entry} (issues : Issues a b i e done)
    (order : InOrder config a) (attuned : Attuned a) (timed : Timed b) (at_j : a.entries[j]? = some x)
    (at_j' : b.entries[j]? = some x') (inside : j < a.edge) :
    x'.ready = x.ready ∨ i < j ∧ done ≤ x'.ready := by
  by_cases listed : x.seq ∈ e.dependants.toList
  · have younger := attuned.listed i j e x issues.entry at_j issues.inRing listed
    obtain ⟨m, y, y', hy, hy', same, hears⟩ := issues.heard x.seq listed
    obtain rfl : m = j := by
      by_cases here : m = i
      · subst here
        rw [List.getElem?_set_self (List.getElem?_eq_some_iff.mp issues.entry).1] at hy
        cases hy
        exact order.position_unique issues.entry at_j same
      · rw [List.getElem?_set_ne (Ne.symm here)] at hy
        exact order.position_unique hy at_j same
    obtain rfl : x' = y' := Option.some.inj (at_j'.symm.trans hy')
    have timely := timed.timely m x' at_j' (issues.same.edge_eq ▸ inside)
    exact .inr ⟨younger, le_trans hears.told timely.readyMax_le⟩
  · refine .inl ?_
    by_cases here : j = i
    · subst here
      obtain rfl : e = x := Option.some.inj (issues.entry.symm.trans at_j)
      rw [issues.itself listed] at at_j'
      cases at_j'
      rfl
    · rw [issues.others j x here at_j listed] at at_j'
      cases at_j'
      rfl

/-- What an entry did not hold back it did not hold back, either, once `e` has issued: all that `e` may have
made ready, or let pass, stands behind `e`. -/
theorem Passable.issue {done : Time} {x z' : Entry} (h : a.Passable config j x t)
    (issues : Issues a b i e done) (order : InOrder config a) (attuned : Attuned a) (timed : Timed b)
    (at_j : a.entries[j]? = some x) (at_j' : b.entries[j]? = some z') (inside : j < a.edge)
    (earlier : i < j → t < a.clock.now) : b.Passable config j z' t := by
  obtain ⟨y, y', hy, -, stands, u, -⟩ := issues.origin at_j'
  obtain rfl : x = y := Option.some.inj (at_j.symm.trans hy)
  refine h.carry (stands.op_eq.trans (by rw [u])) (fun early => ?_) fun m f hf older pending => ?_
  · rcases issues.ready_eq_or_le order attuned timed at_j at_j' inside with same | ⟨behind, le⟩
    · rwa [same]
    · exact lt_of_lt_of_le (earlier behind) (le_trans issues.later le)
  · by_cases here : m = i
    · subst here
      rw [issues.entry] at hf
      cases hf
      obtain ⟨f', hf', woken⟩ := issues.exists_issued
      refine ⟨f', hf', by rw [woken.frame], .inr ?_⟩
      rw [woken.frame]
      exact earlier older
    · obtain ⟨f', hf', woken⟩ := issues.exists_other here hf
      refine ⟨f', hf', by rw [woken.frame], ?_⟩
      rw [woken.frame]
      exact pending

/-- The entry `e` at position `i` may issue now without breaking the order around serializing micro-ops. -/
structure MayPass (config : Config) (a : Account) (i : Nat) (e : Entry) : Prop where
  /-- If it is serializing, all older ones have issued. -/
  behind : e.u.op.serializing = true → ∀ (j : Nat) (p : Entry), a.entries[j]? = some p → j < i →
    p.issued ≠ .never
  /-- The older serializing ones have issued, or do not hold it back. -/
  ahead : ∀ (j : Nat) (z : Entry), a.entries[j]? = some z → j < i → z.u.op.serializing = true →
    z.issued ≠ .never ∨ a.Passable config j z a.clock.now
  /-- What is younger and has issued has done so in an earlier cycle. -/
  earlier : ∀ (k : Nat) (x : Entry), a.entries[k]? = some x → i < k → x.issued ≠ .never →
    x.issued < a.clock.now

theorem Serialized.issue {done : Time} (h : Serialized config a) (order : InOrder config a)
    (attuned : Attuned a) (timed : Timed a) (intime : a.clock.now ≠ .never) (may : a.MayPass config i e)
    (issues : Issues a b i e done) : Serialized config b := by
  have timed' := timed.issue order issues
  refine ⟨fun j k y z hy hz older kind issued => ?_, fun j k z y hz hy older kind issued => ?_⟩
  · obtain ⟨z₀, hz₀, ⟨-, -, op, -⟩, -⟩ := issues.exists_before hz
    obtain ⟨y₀, hy₀, -⟩ := issues.exists_before hy
    rw [op] at kind
    refine issues.precedes attuned.toLasting intime hy₀ hz₀ hy hz older (h.behind j k y₀ z₀ hy₀ hz₀ older kind)
      (fun here => ?_) issued
    subst here
    cases issues.entry.symm.trans hz₀
    exact may.behind kind j y₀ hy₀ older
  · obtain ⟨z₀, z', hz₀, -, stands, u, -, others, itself⟩ := issues.origin hz
    obtain ⟨y₀, y', hy₀, -, stands', -, -, others', itself'⟩ := issues.origin hy
    rw [stands.op_eq, u] at kind
    rw [stands'.issued_eq] at issued ⊢
    rw [stands.issued_eq, stands.done_eq]
    by_cases here : k = i
    · -- the younger entry issues now
      obtain ⟨rfl, new⟩ := itself' here
      have within := issues.inWindow
      rw [others (by omega), new]
      rcases may.ahead j z₀ hz₀ (by omega) kind with issued' | passable
      · exact .inl ⟨issued', .inr (attuned.past j z₀ hz₀ issued')⟩
      · exact .inr (passable.issue issues order attuned timed' hz₀ hz (by omega) (by omega))
    · rw [others' here] at issued ⊢
      have within : k < a.edge := by
        by_contra outside
        exact issued (timed.fresh k y₀ hy₀ (by omega)).issued
      rcases h.ahead j k z₀ y₀ hz₀ hy₀ older kind issued with ⟨issued', kept⟩ | passable
      · refine .inl ?_
        by_cases there : j = i
        · obtain ⟨rfl, new⟩ := itself there
          rw [new]
          exact ⟨intime, .inl (attuned.toLasting.done_of_again issues issued')⟩
        · rw [others there]
          exact ⟨issued', kept⟩
      · exact .inr (passable.issue issues order attuned timed' hz₀ hz (by omega)
          fun behind => may.earlier k y₀ hy₀ (by omega) issued)

/-! ## Section 3: What a pass goes past -/

/-- All that has issued has done so in an earlier cycle. -/
def Lapsed (a : Account) : Prop :=
  ∀ (k : Nat) (x : Entry), a.entries[k]? = some x → x.issued ≠ .never → x.issued < a.clock.now

theorem Lapsed.persist (h : Lapsed a) (persists : Persists a b) (timed : Timed b) : Lapsed b := by
  intro k x hx issued
  by_cases within : k < b.edge
  · obtain ⟨y, hy, point, -⟩ := rel_right (persists.kept k within) hx
    rw [point] at issued ⊢
    exact lt_of_lt_of_le (h k y hy issued) persists.later
  · exact absurd (timed.fresh k x hx (by omega)).issued issued

theorem Lapsed.enter {e' : Entry} {th : Thread} (h : Lapsed a) (timed : Timed a)
    (enters : Enters config a b e e' th) : Lapsed b := by
  intro k x hx issued
  rcases enters.entry_before hx with ⟨rfl, rfl⟩ | ⟨-, y, hy, listed⟩
  · exact absurd (enters.not_issued timed hx (le_refl _)).1 issued
  · rw [listed.frame] at issued ⊢
    rw [enters.clock]
    exact h k y hy issued

/-- When the clock has moved, all that has issued has done so in an earlier cycle. -/
theorem Attuned.lapsed (h : Attuned a) {clock : Clock} (later : a.clock.now < clock.now) :
    Lapsed { a with clock } :=
  fun k x hx issued => lt_of_le_of_lt (h.past k x hx issued) later

end Account

namespace Window

variable {M : Type} {w : Window M} {pass : IssuePass} {e : Entry}

/-- A serializing entry issues at the head only, once all stores have drained. -/
theorem judge_eq_issue_of_serializing (kind : e.u.op.serializing = true) (h : w.judge pass e = .issue) :
    pass.atHead = true ∧ w.lastStoreDone ≤ w.clock.now := by
  unfold judge storesDrained at h
  simp only [kind, if_true] at h
  split at h
  · cases h
  · split at h
    · cases h
    · split at h
      · rename_i may
        simpa using may
      · cases h

/-- A serializing entry that the pass goes past is not ready, or a load or store behind a fence. -/
theorem early_or_fenced_of_serializing (kind : e.u.op.serializing = true) (stays : w.judge pass e ≠ .issue)
    (goesOn : w.judge pass e ≠ .stop) :
    w.clock.now < e.ready ∨ pass.fenced = true ∧ (e.u.op.isLoad = true ∨ e.u.op.isStore = true) := by
  by_contra held
  rw [not_or] at held
  have verdict : w.judge pass e = if pass.atHead && w.storesDrained then .issue else .stop := by
    unfold judge
    rw [if_neg held.1, if_neg (by simpa using held.2), if_pos kind]
  rw [verdict] at stays goesOn
  split at stays
  · exact stays rfl
  · rename_i behind
    rw [if_neg behind] at goesOn
    exact goesOn rfl

/-- Only a fence holds back loads and stores. -/
theorem fence_of_judge (h : w.judge pass e = .fence) : e.u.op.fence = true := by
  unfold judge at h
  grind

end Window

namespace Account

variable {M : Type} {config : Config} {a b : Account} {e : Entry} {pass : Window.IssuePass} {n : Nat}

/-- What the pass over the window knows of the entries around position `n` when it comes there. -/
structure Scanned (config : Config) (pass : Window.IssuePass) (n : Nat) (a : Account) : Prop where
  /-- As long as nothing has stayed, everything so far has issued. -/
  atHead : pass.atHead = true → ∀ (m : Nat) (x : Entry), a.entries[m]? = some x → m < a.retired.length + n →
    x.issued ≠ .never
  /-- The serializing entries so far have issued, or hold nothing back. -/
  passed : ∀ (m : Nat) (z : Entry), a.entries[m]? = some z → m < a.retired.length + n →
    z.u.op.serializing = true → z.issued ≠ .never ∨ a.Passable config m z a.clock.now
  /-- If loads and stores are held back, it is by a fence that is not done. -/
  fence : pass.fenced = true → ∃ (m : Nat) (f : Entry), a.entries[m]? = some f ∧ m < a.retired.length + n ∧
    f.u.op.fence = true ∧ f.done = .never
  /-- What has issued and is still to come has done so in an earlier cycle. -/
  earlier : ∀ (m : Nat) (x : Entry), a.entries[m]? = some x → a.retired.length + n ≤ m → x.issued ≠ .never →
    x.issued < a.clock.now

/-- The times that a pass has noted make no difference to what it knows. -/
theorem Scanned.congr {pass' : Window.IssuePass} (h : Scanned config pass n a)
    (atHead : pass'.atHead = pass.atHead) (fenced : pass'.fenced = pass.fenced) :
    Scanned config pass' n a := by
  refine ⟨?_, h.passed, ?_, h.earlier⟩
  · rw [atHead]
    exact h.atHead
  · rw [fenced]
    exact h.fence

theorem Lapsed.scanned (h : Lapsed a) (timed : Timed a) (intime : a.clock.now ≠ .never) :
    Scanned config {} 0 a :=
  ⟨fun _ m x hx left => timed.issued_of_left intime hx (by omega),
    fun m z hz left _ => .inl (timed.issued_of_left intime hz (by omega)),
    fun fenced => (by cases fenced), fun m x hx _ issued => h m x hx issued⟩

theorem Scanned.quiet (h : Scanned config pass n a) (quiet : Quiet a b) : Scanned config pass n b := by
  obtain ⟨same, entries, -⟩ := quiet
  refine ⟨fun head m x hx before => ?_, fun m z hz before kind => ?_, fun fenced => ?_,
    fun m x hx behind issued => ?_⟩
  · obtain ⟨y, hy, point⟩ := entries.right hx
    rw [same.retired] at before
    rw [point]
    exact h.atHead head m y hy before
  · obtain ⟨y, hy, point⟩ := entries.right hz
    rw [same.retired] at before
    have op : z.u.op = y.u.op := by rw [point]
    have ready : z.ready = y.ready := by rw [point]
    have issued : z.issued = y.issued := by rw [point]
    rw [op] at kind
    rw [issued, same.clock]
    refine (h.passed m y hy before kind).imp_right fun passable => ?_
    refine passable.carry op (fun early => ready ▸ early) fun i f hf _ pending => ?_
    obtain ⟨f', hf', point'⟩ := entries.left hf
    refine ⟨f', hf', by rw [point'], ?_⟩
    rw [point']
    exact pending
  · obtain ⟨m, f, hf, before, kind, waiting⟩ := h.fence fenced
    obtain ⟨f', hf', point⟩ := entries.left hf
    refine ⟨m, f', hf', by rwa [same.retired], ?_, ?_⟩
    · rw [point]
      exact kind
    · rw [point]
      exact waiting
  · obtain ⟨y, hy, point⟩ := entries.right hx
    rw [same.retired] at behind
    rw [point] at issued ⊢
    rw [same.clock]
    exact h.earlier m y hy behind issued

/-- The pass goes past an entry that has issued. -/
theorem Scanned.skip (h : Scanned config pass n a) (entry : a.entries[a.retired.length + n]? = some e)
    (issued : e.issued ≠ .never) : Scanned config pass (n + 1) a := by
  refine ⟨fun head m x hx before => ?_, fun m z hz before kind => ?_, fun fenced => ?_,
    fun m x hx behind => h.earlier m x hx (by omega)⟩
  · by_cases here : m = a.retired.length + n
    · subst here
      rw [entry] at hx
      cases hx
      exact issued
    · exact h.atHead head m x hx (by omega)
  · by_cases here : m = a.retired.length + n
    · subst here
      rw [entry] at hz
      cases hz
      exact .inl issued
    · exact h.passed m z hz (by omega) kind
  · obtain ⟨m, f, hf, before, rest⟩ := h.fence fenced
    exact ⟨m, f, hf, by omega, rest⟩

/-- The pass goes past an entry that stays. -/
theorem Scanned.hold {w : Window M} (h : Scanned config pass n a) (clock : a.clock = w.clock)
    (free : config.window.inOrder = false) (entry : a.entries[a.retired.length + n]? = some e)
    (waiting : e.done = .never) (stays : w.judge pass e ≠ .issue) (goesOn : w.judge pass e ≠ .stop) :
    Scanned config (pass.hold w.clock.now e (w.judge pass e = .fence)) (n + 1) a := by
  refine ⟨fun head => (by cases head), fun m z hz before kind => ?_, fun fenced => ?_,
    fun m x hx behind => h.earlier m x hx (by omega)⟩
  · by_cases here : m = a.retired.length + n
    · subst here
      rw [entry] at hz
      cases hz
      refine .inr ⟨free, ?_⟩
      rw [clock]
      refine (Window.early_or_fenced_of_serializing kind stays goesOn).imp_right fun ⟨held, access⟩ => ?_
      obtain ⟨i, f, hf, before, fence, pending⟩ := h.fence held
      exact ⟨access, i, f, hf, before, fence, .inl pending⟩
    · exact h.passed m z hz (by omega) kind
  · by_cases held : pass.fenced = true
    · obtain ⟨m, f, hf, before, rest⟩ := h.fence held
      exact ⟨m, f, hf, by omega, rest⟩
    · have verdict : w.judge pass e = .fence := by simpa [Window.IssuePass.hold, held] using fenced
      exact ⟨_, e, entry, by omega, Window.fence_of_judge verdict, waiting⟩

/-- What the stage lets issue does not break the order around serializing micro-ops. -/
theorem Scanned.mayPass {w : Window M} {e' : Entry} (h : Scanned config pass n a)
    (verdict : w.judge pass e = .issue) (op : e'.u.op = e.u.op) :
    a.MayPass config (a.retired.length + n) e' :=
  ⟨fun kind => h.atHead (Window.judge_eq_issue_of_serializing (op ▸ kind) verdict).1,
    h.passed, fun k x hx behind => h.earlier k x hx (by omega)⟩

/-- The pass goes past an entry that issues. -/
theorem Scanned.issue {done : Time} (h : Scanned config pass n a) (order : InOrder config a)
    (attuned : Attuned a) (timed : Timed a) (intime : a.clock.now ≠ .never)
    (issues : Issues a b (a.retired.length + n) e done) : Scanned config pass (n + 1) b := by
  have timed' := timed.issue order issues
  have within := issues.inWindow
  have left : b.retired.length = a.retired.length := by rw [issues.same.retired]
  refine ⟨fun head m x hx before => ?_, fun m z hz before kind => ?_, fun fenced => ?_,
    fun m x hx behind issued => ?_⟩
  · obtain ⟨y, y', hy, -, stands, -, -, others, itself⟩ := issues.origin hx
    rw [stands.issued_eq]
    by_cases here : m = a.retired.length + n
    · rw [(itself here).2]
      exact intime
    · rw [others here]
      exact h.atHead head m y hy (by omega)
  · obtain ⟨y, y', hy, -, stands, u, -, others, itself⟩ := issues.origin hz
    rw [stands.op_eq, u] at kind
    rw [stands.issued_eq]
    -- the entry itself has issued now; one before it may still be passed as it might before
    by_cases here : m = a.retired.length + n
    · rw [(itself here).2]
      exact .inl intime
    · rw [others here, issues.same.clock]
      refine (h.passed m y hy (by omega) kind).imp_right fun passable => ?_
      exact passable.issue issues order attuned timed' hy hz (by omega) (by omega)
  · obtain ⟨m, f, hf, before, kind, waiting⟩ := h.fence fenced
    obtain ⟨f', hf', woken⟩ := issues.exists_other (by omega) hf
    refine ⟨m, f', hf', by omega, ?_, ?_⟩
    · rw [woken.frame]
      exact kind
    · rw [woken.frame]
      exact waiting
  · obtain ⟨y, y', hy, -, stands, -, -, others, -⟩ := issues.origin hx
    rw [stands.issued_eq, others (by omega)] at issued ⊢
    rw [issues.same.clock]
    exact h.earlier m y hy (by omega) issued

end Account

end CoreTiming
