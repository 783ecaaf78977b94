import CoreTiming.Proofs.AddressRecords

/-!
# Stores whose address is not known

Some of the writers of an address may have issued before the store entered the window, others issue while it waits,
and it is woken by the writers of its data as well.  Whenever an entry issues, what is on record of the address of
a store (`Account.Traced`) stays true: the store looks up those of the writers again that it has taken down.

So both invariants hold along every path of a core, and `Chronicle.addresses_known` says it for all points of all
runs.  Registers outside the table have no writer on record, and nobody waits for them
(`Chronicle.load_ahead_of_untracked_address`).
-/

namespace CoreTiming

namespace Account

variable {config : Config} {phase : Phase} {a b : Account} {e e' p x x' : Entry} {j k : Nat}

/-! ## Section 1: An entry issues -/

section Issue

variable {done : Time} {i : Nat} (step : Step config a b) (reached : Reachable config a)
  (intime : a.clock.now ≠ .never) (issues : Issues a b i e done)

include issues in
/-- What does not issue lingers. -/
theorem Issues.rel_lingers (other : j ≠ i) : Option.Rel Entry.Lingers a.entries[j]? b.entries[j]? := by
  have woken := issues.woken j
  rw [List.getElem?_set_ne (Ne.symm other)] at woken
  exact rel_mono (fun _ _ => Entry.Woken.lingers) woken

include issues in
/-- Whatever was there is still there. -/
theorem Issues.exists_after (hp : a.entries[j]? = some p) : ∃ p', b.entries[j]? = some p' ∧ p'.seq = p.seq := by
  have inside : j < b.entries.length := by
    rw [issues.woken.length_eq, List.length_set]
    exact (List.getElem?_eq_some_iff.mp hp).1
  have hp' := List.getElem?_eq_getElem inside
  obtain ⟨q, hq, ⟨seq, -⟩, -⟩ := issues.exists_before hp'
  rw [hp] at hq
  cases hq
  exact ⟨_, hp', seq⟩

include issues in
/-- What has no result had none. -/
theorem Issues.pending_before (hp : a.entries[j]? = some p) (hx : b.entries[j]? = some x) (pending : x.done = .never) :
    p.done = .never := by
  obtain ⟨q, hq, -, others, itself⟩ := issues.exists_before hx
  rw [hp] at hq
  cases hq
  by_cases here : j = i
  · rw [(itself here).1]
    exact issues.waiting
  · rw [← (others here).done_eq]
    exact pending

include step reached issues in
/-- If the entry that issues is none of the writers of an address, nothing happens to them. -/
theorem Traced.apart {y : Entry} (h : a.Traced k y) (hy : a.entries[k]? = some y) (within : k < a.edge)
    (same : y.SameAddress x) (apart : ¬a.AddressWriter k y i) : b.Traced k x := by
  refine h.carry same (step.addressWriter_iff reached hy within same.op_eq same.dispatched_eq) fun j writer =>
    issues.rel_lingers ?_
  rintro rfl
  exact apart writer

section Review

variable {y : Entry} (h : a.Traced k y) (hy : a.entries[k]? = some y) (within : k < a.edge)
  (seq : x.seq = y.seq) (dispatched : x.dispatched = y.dispatched) (store : y.u.op.isStore = true)
  (open_ : y.addressReady = .never) (reviews : y.Reviews b.thread.ring.toList a.thread.base e.seq done x)

include reached issues h store open_ reviews in
/-- The entry that issues counts if it is a writer of the address. -/
theorem Traced.readyMax_of_writer (writer : a.AddressWriter k y i) :
    x.addressReadyMax = max y.addressReadyMax done := by
  have number := reached.inOrder.seq_of_le issues.inRing issues.entry
  rw [reviews.latest store open_, if_pos ⟨(h.told i e writer issues.entry issues.waiting).1, by omega⟩]

include reached issues h store open_ reviews in
/-- No other entry does. -/
theorem Traced.readyMax_of_other (other : ¬a.AddressWriter k y i) : x.addressReadyMax = y.addressReadyMax := by
  rw [reviews.latest store open_, if_neg]
  rintro ⟨mem, -⟩
  obtain ⟨j, p, writer, hp, number⟩ := h.named _ mem
  obtain rfl := reached.inOrder.position_unique hp issues.entry number
  exact other writer

include step reached issues h hy within dispatched store open_ reviews

include intime in
/-- The latest time that a store has on record of its address is that of one of the writers. -/
theorem Traced.latest_reviewed : x.addressReadyMax = 0 ∨ ∃ (j : Nat) (p : Entry),
    b.AddressWriter k x j ∧ b.entries[j]? = some p ∧ p.issued ≠ .never ∧ x.addressReadyMax = p.done := by
  have writer_iff : ∀ {j : Nat}, b.AddressWriter k x j ↔ a.AddressWriter k y j :=
    step.addressWriter_iff reached hy within reviews.op dispatched
  obtain ⟨new, hnew, -⟩ := issues.exists_after issues.entry
  obtain ⟨_, -, -, -, itself⟩ := issues.exists_before hnew
  obtain ⟨-, result, time⟩ := itself rfl
  have issued : new.issued ≠ .never := time ▸ intime
  have old : x.addressReadyMax = y.addressReadyMax → x.addressReadyMax = 0 ∨ ∃ (j : Nat) (p : Entry),
      b.AddressWriter k x j ∧ b.entries[j]? = some p ∧ p.issued ≠ .never ∧ x.addressReadyMax = p.done := by
    intro same
    rw [same]
    refine h.latest.imp_right fun ⟨j, p, writer, hp, issued', eq⟩ => ?_
    by_cases here : j = i
    · -- it had issued in vain, and has again
      subst here
      rw [issues.entry] at hp
      cases hp
      refine ⟨j, new, writer_iff.mpr writer, hnew, issued, ?_⟩
      rw [eq, result, reached.lasting.done_of_again issues issued']
      exact issues.waiting
    · obtain ⟨p', hp', lingers⟩ := rel_left (issues.rel_lingers here) hp
      exact ⟨j, p', writer_iff.mpr writer, hp', lingers.issued_eq ▸ issued', eq.trans lingers.done_eq.symm⟩
  by_cases writer : a.AddressWriter k y i
  · have counts := h.readyMax_of_writer reached issues store open_ reviews writer
    rcases max_choice y.addressReadyMax done with same | later
    · exact old (counts.trans same)
    · exact .inr ⟨i, new, writer_iff.mpr writer, hnew, issued, (counts.trans later).trans result.symm⟩
  · exact old (h.readyMax_of_other reached issues store open_ reviews writer)

include intime in
/-- A store does not know its address as long as one of the writers has no result. -/
theorem Traced.waits_reviewed {p' : Entry} (writer : b.AddressWriter k x j) (hp' : b.entries[j]? = some p')
    (pending : p'.done = .never) : x.addressReady = .never := by
  have writer := (step.addressWriter_iff reached hy within reviews.op dispatched).mp writer
  obtain ⟨p, hp, ⟨number', -⟩, -⟩ := issues.exists_before hp'
  have waits := issues.pending_before hp hp' pending
  have mem := (h.told j p writer hp waits).1
  rcases reviews.resolved store open_ with ⟨delivered, -⟩ | ⟨-, never⟩
  · -- what has no result has not left
    have inRing : a.retired.length ≤ j := by
      by_contra left
      obtain ⟨r, gone, rfl⟩ := mem_retired_of_lt (not_le.mp left) hp
      exact reached.timed.done_of_mem_retired intime gone waits
    have := reached.inOrder.seq_of_le inRing hp
    obtain ⟨z, mem', same, result⟩ := delivered p.seq mem (by omega)
    obtain rfl := (Reachable.step reached step).inOrder.eq_of_seq hp' mem' (same.trans number'.symm)
    exact absurd pending result
  · exact never

/-- Once all of them have one, it knows its address. -/
theorem Traced.ready_reviewed
    (all : ∀ (j : Nat) (p : Entry), b.AddressWriter k x j → b.entries[j]? = some p → p.done ≠ .never) :
    x.addressReady = x.addressReadyMax := by
  rcases reviews.resolved store open_ with ⟨-, ready⟩ | ⟨⟨q, mem, -, z, mem', same, pending⟩, -⟩
  · exact ready
  · obtain ⟨j, p, writer, hp, number'⟩ := h.named q mem
    obtain ⟨p', hp', same'⟩ := issues.exists_after hp
    obtain rfl := (Reachable.step reached step).inOrder.eq_of_seq hp' mem'
      (same.trans (number'.symm.trans same'.symm))
    have writer := (step.addressWriter_iff reached hy within reviews.op dispatched).mpr writer
    exact absurd pending (all j z writer hp')

include intime seq in
/-- A store that waits for the writers of its address and is woken looks them up. -/
theorem Traced.review : b.Traced k x := by
  have writer_iff : ∀ {j : Nat}, b.AddressWriter k x j ↔ a.AddressWriter k y j :=
    step.addressWriter_iff reached hy within reviews.op dispatched
  have grows : y.addressReadyMax ≤ x.addressReadyMax := by
    rw [reviews.latest store open_]
    split
    · exact le_max_left _ _
    · exact le_refl _
  refine
    { named := fun q mem => ?_, told := fun j p' writer hp' pending => ?_
      known := fun j p' writer hp' result => ?_
      latest := h.latest_reviewed step reached intime issues hy within dispatched store open_ reviews
      waits := fun j p' => h.waits_reviewed step reached intime issues hy within dispatched store open_ reviews
      ready := h.ready_reviewed step reached issues hy within dispatched store open_ reviews }
  · rw [reviews.producers] at mem
    obtain ⟨j, p, writer, hp, number⟩ := h.named q mem
    obtain ⟨p', hp', same⟩ := issues.exists_after hp
    exact ⟨j, p', writer_iff.mpr writer, hp', same.trans number⟩
  · obtain ⟨p, hp, ⟨number, dependants, -⟩, -⟩ := issues.exists_before hp'
    rw [reviews.producers, seq, number, dependants]
    exact h.told j p (writer_iff.mp writer) hp (issues.pending_before hp hp' pending)
  · obtain ⟨p, hp, -, others, itself⟩ := issues.exists_before hp'
    have writer := writer_iff.mp writer
    by_cases here : j = i
    · subst here
      rw [(itself rfl).2.1, h.readyMax_of_writer reached issues store open_ reviews writer]
      exact le_max_right _ _
    · rw [(others here).done_eq] at result ⊢
      exact le_trans (h.known j p writer hp result) grows

end Review

include step reached intime issues in
theorem Addressed.issue (h : Addressed a)
    (reviews : ∀ (k : Nat) (y x : Entry), a.entries[k]? = some y → b.entries[k]? = some x → a.retired.length ≤ k →
      k ≠ i → y.seq ∈ e.dependants.toList → y.Reviews b.thread.ring.toList a.thread.base e.seq done x) :
    Addressed b := by
  intro k x hx inRing within store waiting
  rw [issues.same.retired] at inRing
  rw [issues.same.edge_eq] at within
  obtain ⟨y, hy, ⟨seq, -, op, dispatched⟩, others, itself⟩ := issues.exists_before hx
  have other : k ≠ i := fun here => intime ((itself here).2.2.symm.trans waiting)
  rw [(others other).issued_eq] at waiting
  rw [op] at store
  have traced := h k y hy inRing within store waiting
  by_cases told : y.seq ∈ e.dependants.toList
  · have reviewed := reviews k y x hy hx inRing other told
    by_cases open_ : y.addressReady = .never
    · exact traced.review step reached intime issues hy within seq dispatched store open_ reviewed
    · -- the address is known, so all its writers have issued before
      obtain ⟨ready, latest⟩ := reviewed.settled open_
      exact traced.apart step reached issues hy within
        ⟨op, seq, dispatched, ready, latest, reviewed.producers⟩
        fun writer => open_ (traced.waits i e writer issues.entry issues.waiting)
  · rw [issues.others k y other hy told] at hx
    cases hx
    exact traced.apart step reached issues hy within ⟨rfl, rfl, rfl, rfl, rfl, rfl⟩
      fun writer => told (traced.told i e writer issues.entry issues.waiting).2

include step reached intime issues in
theorem Cautious.issue (h : Cautious a) (addressed : Addressed a)
    (clear : e.u.op.isLoad = true → ∀ (j : Nat) (x : Entry), a.entries[j]? = some x → a.retired.length ≤ j →
      j < i → x.u.op.isStore = true → x.issued = .never → x.addressReady ≤ a.clock.now) : Cautious b := by
  have timed := reached.timed
  intro j k x y hx hy older store load issued
  obtain ⟨x₀, hx₀, ⟨-, -, op, dispatched⟩, others, itself⟩ := issues.exists_before hx
  obtain ⟨y₀, hy₀, ⟨-, -, op', -⟩, others', itself'⟩ := issues.exists_before hy
  rw [op] at store
  rw [op'] at load
  have within : k < a.edge := by
    by_contra outside
    have fresh := (timed.issue reached.inOrder issues).fresh k y hy (by rw [issues.same.edge_eq]; omega)
    exact issued fresh.issued
  -- what the writers of the address had, they have
  have results : ∀ {t : Time}, t ≠ .never →
      (∀ (m : Nat) (p : Entry), a.AddressWriter j x₀ m → a.entries[m]? = some p → p.done ≤ t) →
      ∀ (m : Nat) (p : Entry), b.AddressWriter j x m → b.entries[m]? = some p → p.done ≤ t := by
    intro t known all m p writer hp
    have writer := (step.addressWriter_iff reached hx₀ (by omega) op dispatched).mp writer
    obtain ⟨p₀, hp₀, -, others, itself⟩ := issues.exists_before hp
    have le := all m p₀ writer hp₀
    have other : m ≠ i := by
      intro here
      rw [(itself here).1, issues.waiting] at le
      exact known (Time.never_le_iff.mp le)
    rw [(others other).done_eq]
    exact le
  by_cases here : k = i
  · obtain ⟨rfl, -, time⟩ := itself' here
    rw [time]
    by_cases waiting : x₀.issued = .never
    · right
      have inRing : a.retired.length ≤ j := by
        by_contra left
        exact timed.issued_of_left intime hx₀ (not_le.mp left) waiting
      have traced := addressed j x₀ hx₀ inRing (by omega) store waiting
      have ready := clear load j x₀ hx₀ inRing (by omega) store waiting
      have all : ∀ (m : Nat) (p : Entry), a.AddressWriter j x₀ m → a.entries[m]? = some p → p.done ≠ .never :=
        fun m p writer hp pending =>
          Time.ne_never_of_le ready intime (traced.waits m p writer hp pending)
      rw [traced.ready all] at ready
      exact results intime fun m p writer hp => le_trans (traced.known m p writer hp (all m p writer hp)) ready
    · have lingers := others (by omega)
      rw [lingers.issued_eq]
      exact .inl ⟨waiting, .inr (reached.lasting.past j x₀ hx₀ waiting)⟩
  · have same := (others' here).issued_eq
    rw [same] at issued ⊢
    refine (h j k x₀ y₀ hx₀ hy₀ older store load issued).imp (fun ⟨issued', early⟩ => ?_) (results issued)
    by_cases there : j = i
    · -- it had issued in vain, and has again
      obtain ⟨rfl, result, time⟩ := itself there
      rw [result, time, reached.lasting.done_of_again issues issued']
      exact ⟨intime, .inl rfl⟩
    · rw [(others there).issued_eq, (others there).done_eq]
      exact ⟨issued', early⟩

end Issue

/-! ## Section 2: All steps of a core -/

/-- What is told when an entry issues looks up the writers that its address waits for. -/
theorem InOrder.reviews_of_start {th : Thread} {i : Nat} {done latency : Time} (order : InOrder config a)
    (entry : a.thread.ring.get? i = some e)
    (started : Thread.start i e a.clock.now done latency a.thread = .ok () th)
    (hx : a.entries[k]? = some x) (hx' : (a.withThread th).entries[k]? = some x') (inRing : a.retired.length ≤ k)
    (other : k ≠ a.retired.length + i) (told : x.seq ∈ e.dependants.toList) :
    x.Reviews th.ring.toList a.thread.base e.seq done x' := by
  rw [← Ring.getElem?_toList] at entry
  rw [entries_of_le inRing] at hx
  rw [entries_withThread_of_le th inRing] at hx'
  rw [← order.oldestSeq_eq entry e]
  refine Thread.reviews_start order.nodup_seq entry started ?_ hx' told
  unfold Thread.issuedAt
  rw [List.getElem?_set_ne (by omega)]
  exact hx

/-- Nothing enters the window, and nothing issues. -/
abbrev Steady (config : Config) : Account → Account → Prop :=
  Relation.ReflTransGen fun a b => Step config a b ∧ Persists a b

/-- A step that the core makes, told apart by whether something enters the window or issues. -/
inductive PaceKind (config : Config) (phase : Phase) (a b : Account) : Prop
  /-- Neither. -/
  | steady (path : Steady config a b)
  /-- An entry enters the window. -/
  | enter {e e' : Entry} {th : Thread} (dispatching : phase = .dispatch) (step : Step config a b)
      (enters : Enters config a b e e' th)
      (linked : Thread.link config.window.forwarding e.fetched a.thread = .ok e' th)
  /-- An entry issues, after memory may have been asked. -/
  | issue {a' : Account} {i : Nat} {e : Entry} {done : Time} (path : Steady config a a') (step : Step config a' b)
      (issues : Issues a' b i e done)
      (reviews : ∀ (k : Nat) (y x : Entry), a'.entries[k]? = some y → b.entries[k]? = some x →
        a'.retired.length ≤ k → k ≠ i → y.seq ∈ e.dependants.toList →
        y.Reviews b.thread.ring.toList a'.thread.base e.seq done x)
      (clear : a'.clock.now ≠ .never → config.window.disambiguation = false → e.u.op.isLoad = true →
        ∀ (j : Nat) (x : Entry), a'.entries[j]? = some x → a'.retired.length ≤ j → j < i →
          x.u.op.isStore = true → x.issued = .never → x.addressReady ≤ a'.clock.now)
      (front : a'.clock.now ≠ .never → config.window.inOrder = true → ∀ (j : Nat) (x : Entry),
        a'.entries[j]? = some x → a'.retired.length ≤ j → j < i → x.issued ≠ .never)

theorem Steady.reachable (path : Steady config a b) (reached : Reachable config a) : Reachable config b :=
  reached.steps (Relation.ReflTransGen.mono (fun _ _ both => both.1) _ _ path)

/-- What each such step keeps, all of them keep. -/
theorem Steady.keeps {P : Account → Prop} (path : Steady config a b) (reached : Reachable config a) (h : P a)
    (keep : ∀ {a b : Account}, Step config a b → Persists a b → Reachable config a → P a → P b) : P b := by
  induction path with
  | refl => exact h
  | tail path both ih => exact keep both.1 both.2 (Steady.reachable path reached) ih

theorem Steady.of_drift (drift : Drift config a b) (order : InOrder config a) : Steady config a b :=
  .single ⟨drift.step, drift.persists order⟩

/-- Memory is asked about an entry. -/
theorem Steady.of_asked {th : Thread} {n : Nat} (inside : n < a.thread.inWindow)
    (entry : a.thread.ring.get? n = some e) (waiting : e.isDone = false) (asked : a.thread.Asked n e th e') :
    Steady config a (a.withThread th) := by
  rcases asked with ⟨rfl, -⟩ | ⟨_, _, u, resolved, rfl, rfl⟩
  · exact .refl
  · exact .single ⟨.work (.resolve inside entry waiting resolved),
      persists_quiet (quiet_resolve entry waiting resolved)⟩

theorem PaceKind.of_intake {th : Thread} (intake : Thread.Intake config a.clock a.thread th) :
    PaceKind config .dispatch a (a.withThread th) := by
  cases intake with
  | keep same => exact .steady (.single ⟨.work (.keep same), persists_quiet (quiet_of_sameFlow same)⟩)
  | fetch next => exact .steady (.single ⟨.work (.fetch next), persists_quiet (quiet_fetch next)⟩)
  | dispatch next linked => exact .enter rfl (.work (.dispatch next linked)) (enters_of_dispatch next linked) linked

theorem PaceKind.of_launching {th : Thread} (launched : Thread.Launching config a.clock a.thread th)
    (reached : Reachable config a) : PaceKind config .issue a (a.withThread th) := by
  cases launched with
  | note same => exact .steady (.single ⟨.work (.keep same), persists_quiet (quiet_of_sameFlow same)⟩)
  | @issue th₁ _ n e e₁ inside entry waiting ready clear front asked started =>
    obtain ⟨waiting', ready', span⟩ := asked.same
    have path : Steady config a (a.withThread th₁) := .of_asked inside entry waiting asked
    have order := (path.reachable reached).inOrder
    have inside' : n < th₁.inWindow := span ▸ inside
    have not_done : e₁.isDone = false := waiting' ▸ waiting
    have in_time : e₁.ready ≤ a.clock.now := ready' ▸ ready
    have at_n := asked.entry entry
    have step : Step config (a.withThread th₁) (a.withThread th) :=
      .work (.issue inside' at_n not_done in_time started)
    refine .issue path step (issues_of_start (a := a.withThread th₁) inside' at_n not_done in_time started)
      (fun k y x hy hx inRing other told =>
        order.reviews_of_start at_n started hy hx inRing other told)
      (fun intime cautious load j x hx inRing before store open_ => ?_)
      fun intime inOrder j x hx inRing before => ?_
    · rw [asked.op_eq] at load
      obtain ⟨m, rfl⟩ := Nat.exists_eq_add_of_le inRing
      rw [entries_add, Ring.getElem?_toList] at hx
      exact ((clear intime cautious load).ask asked) m x hx (by omega) store open_
    · obtain ⟨m, rfl⟩ := Nat.exists_eq_add_of_le inRing
      rw [entries_add, Ring.getElem?_toList] at hx
      exact ((front intime inOrder).ask asked) m x hx (by omega)

/-- Every step that the core makes is of one of the kinds. -/
theorem Paces.kind (pace : Paces config phase phase' a b) (reached : Reachable config a) :
    PaceKind config phase a b := by
  have order := reached.inOrder
  cases pace with
  | contact contacted => exact .steady (.of_drift contacted.drift order)
  | wait period later => exact .steady (.of_drift (.tick period later) order)
  | begin | turn | close => exact .steady .refl
  | accept intake => exact .of_intake intake
  | launch launched => exact .of_launching launched reached
  | leave left => exact .steady (.of_drift left.drift order)
  | @advance _ span histogram long =>
    have charge : Drift config a (a.withThread (a.thread.charge histogram a.clock.now span)) :=
      .keep ⟨rfl, rfl, rfl, rfl, rfl, rfl, rfl⟩
    have reached' : Reachable config (a.withThread (a.thread.charge histogram a.clock.now span)) :=
      .step reached charge.step
    exact .steady ((Steady.of_drift charge order).trans
      (Steady.of_drift (.tick rfl (Time.le_add_right _ _)) reached'.inOrder))

theorem Paced.addressed (h : Paced config phase a) (read : AddressesRead a.pushed) (intime : a.clock.now ≠ .never) :
    Addressed a := by
  induction h with
  | new made =>
    intro k x hx
    rw [entries_new made] at hx
    cases hx
  | @step phase phase' a b paced pace ih =>
    have intime' := Time.ne_never_of_le pace.later intime
    have read' : AddressesRead a.pushed := pace.of_pushed read
    have before := ih read' intime'
    have reached := paced.reachable
    cases pace.kind reached with
    | steady path => exact path.keeps reached before .persist
    | enter dispatching step enters linked =>
      refine before.enter step reached enters linked (fun r left => ?_) read'
      refine (paced.left_before intime' r left).2.resolve_left ?_
      rw [dispatching]
      exact Phase.noConfusion
    | issue path step issues reviews clear _ =>
      rw [issues.same.clock] at intime
      exact (path.keeps reached before .persist).issue step (path.reachable reached) intime issues reviews

/-- If loads have to wait for the addresses of older stores, they do. -/
theorem Paced.cautious (h : Paced config phase a) (read : AddressesRead a.pushed) (intime : a.clock.now ≠ .never)
    (waits : config.window.disambiguation = false) : Cautious a := by
  induction h with
  | new made =>
    intro j k x y hx
    rw [entries_new made] at hx
    cases hx
  | @step phase phase' a b paced pace ih =>
    have intime' := Time.ne_never_of_le pace.later intime
    have read' : AddressesRead a.pushed := pace.of_pushed read
    have before := ih read' intime'
    have reached := paced.reachable
    cases pace.kind reached with
    | steady path => exact path.keeps reached before .persist
    | enter dispatching step enters linked => exact before.enter step reached enters
    | issue path step issues reviews clear _ =>
      rw [issues.same.clock] at intime
      exact (path.keeps reached before .persist).issue step (path.reachable reached) intime issues
        (path.keeps reached (paced.addressed read' intime') .persist) (clear intime waits)

/-- The address of `e`, which stands at `k`, is known from the latest result of its writers on: not at all as long as
one of them has not issued, and at once if there are none. -/
structure AddressDue (a : Account) (k : Nat) (e : Entry) : Prop where
  /-- As long as a writer has not issued, the address is not known. -/
  waits : ∀ (j : Nat) (p : Entry), a.AddressWriter k e j → a.entries[j]? = some p → p.issued = .never →
    e.addressReady = .never
  /-- Once all have issued, it is known from the latest of their results on. -/
  known : (∀ (j : Nat) (p : Entry), a.AddressWriter k e j → a.entries[j]? = some p → p.issued ≠ .never) →
    (∀ (j : Nat) (p : Entry), a.AddressWriter k e j → a.entries[j]? = some p → p.done ≤ e.addressReady) ∧
    ((e.addressReady = 0 ∧ ∀ j, ¬a.AddressWriter k e j) ∨
      ∃ (j : Nat) (p : Entry), a.AddressWriter k e j ∧ a.entries[j]? = some p ∧ e.addressReady = p.done)

theorem Traced.due (h : a.Traced k e) (timed : Timed a) (at_k : a.entries[k]? = some e) : a.AddressDue k e := by
  refine ⟨fun j p writer hp open_ => h.waits j p writer hp ?_, fun _ => ?_⟩
  · by_contra result
    exact timed.issued_of_done hp result open_
  · by_cases all : ∀ (j : Nat) (p : Entry), a.AddressWriter k e j → a.entries[j]? = some p → p.done ≠ .never
    · have bound : ∀ (j : Nat) (p : Entry), a.AddressWriter k e j → a.entries[j]? = some p →
          p.done ≤ e.addressReadyMax := fun j p writer hp => h.known j p writer hp (all j p writer hp)
      rw [h.ready all]
      refine ⟨bound, ?_⟩
      rcases h.latest with zero | ⟨j, p, writer, hp, -, eq⟩
      · by_cases some_ : ∃ j, a.AddressWriter k e j
        · obtain ⟨j, writer⟩ := some_
          have inside : j < a.entries.length := by
            have := (List.getElem?_eq_some_iff.mp at_k).1
            have := writer.lt
            omega
          have hp := List.getElem?_eq_getElem inside
          exact .inr ⟨j, _, writer, hp, le_antisymm (zero ▸ Time.zero_le _) (bound j _ writer hp)⟩
        · exact .inl ⟨zero, fun j writer => some_ ⟨j, writer⟩⟩
      · exact .inr ⟨j, p, writer, hp, eq⟩
    · -- a result that does not come before the end of time
      push Not at all
      obtain ⟨j, p, writer, hp, pending⟩ := all
      have ready := h.waits j p writer hp pending
      rw [ready]
      exact ⟨fun _ _ _ _ => Time.le_never _, .inr ⟨j, p, writer, hp, pending.symm⟩⟩

end Account

/-! ## Section 3: All points of all runs -/

namespace Chronicle

/-- At every point of every run, whatever has been asked of the window before: if the stores of a thread read the
registers that form their addresses, the time from which on the address of a store is known that waits in the window
is that of the latest result of the writers of these registers that were in flight when the store entered.  If loads
have to wait for the addresses of older stores, a load that has issued before an older store did has done so no
earlier than at the results of all of these writers. -/
theorem addresses_known {M : Type} [MemorySystem M] {config : Config} {calls : List (Window.Call M)}
    {c c' : Chronicle M} {running : Running} {phase : Phase} {i : Nat} {lane : Lane M}
    (made : of Window.toEvent config calls = .ok c) (comes : Comes running c phase c')
    (intime : c'.window.clock.now ≠ .never) (read : Account.AddressesRead (c.pushed i))
    (found : c'.window.lanes[i]? = some lane) :
    (∀ (k : Nat) (x : Entry), (c'.account i lane).entries[k]? = some x → (c'.retired i).length ≤ k →
      k < (c'.account i lane).edge → x.u.op.isStore = true → x.issued = .never →
      (c'.account i lane).AddressDue k x) ∧
    (config.window.disambiguation = false → ∀ (j k : Nat) (x y : Entry),
      (c'.account i lane).entries[j]? = some x → (c'.account i lane).entries[k]? = some y → j < k →
      x.u.op.isStore = true → y.u.op.isLoad = true → y.issued ≠ .never →
      (x.issued = .never ∨ x.done ≠ .never ∧ y.issued < x.issued) →
      ∀ (m : Nat) (p : Entry), (c'.account i lane).AddressWriter j x m →
        (c'.account i lane).entries[m]? = some p → p.done ≤ y.issued) := by
  have paced := (comes.inPhase (inPhase_of made)).lanes i lane found
  have read : Account.AddressesRead (c'.account i lane).pushed := by
    show Account.AddressesRead (c'.pushed i)
    rw [comes.pushed_eq]
    exact read
  refine ⟨fun k x hx inRing within store waiting => ?_, fun waits j k x y hx hy older store load issued early => ?_⟩
  · exact (paced.addressed read intime k x hx inRing within store waiting).due paced.reachable.timed hx
  · refine (paced.cautious read intime waits j k x y hx hy older store load issued).resolve_left ?_
    rintro ⟨issued', done | earlier⟩
    · exact early.elim issued' fun both => both.1 done
    · exact early.elim issued' fun both => not_le.mpr both.2 earlier

/-- Loads have to wait for the addresses of older stores. -/
def cautious : Config := { window := { disambiguation := false } }

/-- Writers of registers 5, 6 and 7, the last of which reads register 6, a store whose address comes from register
5 and its data from register 6, a load, a store whose address comes from register 7, and what fills the window. -/
def stores : List OpInstance :=
  [{ op := { destinations := [5] } }, { op := { destinations := [6], latency := 50 } },
    { op := { sources := [6], destinations := [7] } },
    { op := { kind := .store, addressRegisters := [5], sources := [5, 6] }, address := 64 },
    { op := { kind := .load, destinations := [1] }, address := 128 },
    { op := { kind := .store, addressRegisters := [7], sources := [7] }, address := 192 }] ++
    List.replicate 12 { op := {} }

/-- A run over `stores` that stops for want of more to take in. -/
def storesCalls : List (Window.Call FixedMemory) :=
  [.initializeThread 0 default none, .push 0 stores, .execute #[true]]

/-- When the first entries of a thread have entered the window and issued. -/
def timesSeen {M : Type} (c : Chronicle M) (lane : Lane M) (i n : Nat) : List (Time × Time) :=
  ((c.account i lane).entries.take n).map fun e => (e.dispatched, e.issued)

/-- Where an entry has been seen, there is one of the micro-op that was pushed. -/
theorem exists_entry_of_seen {M : Type} {config : Config} {c : Chronicle M} {lane : Lane M} {i k n : Nat}
    {prog : List OpInstance} {seen : List (Time × Time)} {view : Time × Time}
    (order : (c.account i lane).InOrder config) (pushed : c.pushed i = prog) (times : c.timesSeen lane i n = seen)
    (at_k : seen[k]? = some view) :
    ∃ (e : Entry) (u : OpInstance), (c.account i lane).entries[k]? = some e ∧ prog[k]? = some u ∧
      e.u.op = u.op ∧ e.dispatched = view.1 ∧ e.issued = view.2 := by
  rw [← times, timesSeen, List.getElem?_map] at at_k
  obtain ⟨e, he, rfl⟩ := Option.map_eq_some_iff.mp at_k
  rw [List.getElem?_take] at he
  split at he
  · obtain ⟨u, hu, op, -⟩ := order.op_of_entry he
    have hu : (c.pushed i)[k]? = some u := hu
    rw [pushed] at hu
    exact ⟨e, u, he, hu, op.symm, rfl, rfl⟩
  · cases he

theorem addresses_known_of_stores :
    ∃ (c : Chronicle FixedMemory) (lane : Lane FixedMemory) (w w' x y x' : Entry),
      of Window.toEvent cautious storesCalls = .ok c ∧ c.window.clock.now ≠ .never ∧
      Account.AddressesRead (c.pushed 0) ∧ c.window.lanes[0]? = some lane ∧
      (c.account 0 lane).entries[0]? = some w ∧ (c.account 0 lane).entries[2]? = some w' ∧
      (c.account 0 lane).entries[3]? = some x ∧ (c.account 0 lane).entries[4]? = some y ∧
      (c.account 0 lane).entries[5]? = some x' ∧ (c.account 0 lane).AddressWriter 3 x 0 ∧
      (c.account 0 lane).AddressWriter 5 x' 2 ∧ w'.issued = .never ∧ x.issued = .never ∧ y.issued ≠ .never ∧
      x'.addressReady = .never ∧ x.addressReady = w.done ∧ w.done ≤ y.issued := by
  have computed : ((ofWithin Window.toEvent 20 cautious storesCalls).bind fun c =>
      c.window.lanes[0]?.map fun lane => (c.pushed 0, c.window.clock.now :: (c.retired 0).map (·.time),
        c.timesSeen lane 0 7)) =
      some (stores, [⟨1127820⟩, ⟨751880⟩], [(0, ⟨375940⟩), (0, ⟨375940⟩), (0, .never), (0, .never),
        (⟨375940⟩, ⟨751880⟩), (⟨375940⟩, .never), (⟨375940⟩, ⟨751880⟩)]) := by
    decide +kernel
  obtain ⟨c, computed, seen⟩ := Option.bind_eq_some_iff.mp computed
  obtain ⟨lane, found, seen⟩ := Option.map_eq_some_iff.mp seen
  simp only [Prod.mk.injEq, List.cons.injEq] at seen
  obtain ⟨pushed, ⟨now, left⟩, seen⟩ := seen
  have made := of_eq_ok computed
  have intime : c.window.clock.now ≠ .never := by
    rw [now]
    decide
  have read : Account.AddressesRead (c.pushed 0) := by
    rw [pushed]
    unfold Account.AddressesRead
    decide
  have reached := ((inPhase_of made).lanes 0 lane found).reachable
  have order := reached.inOrder
  obtain ⟨w, u₀, hw, -, -, -, issued_w⟩ := exists_entry_of_seen (k := 0) order pushed seen rfl
  obtain ⟨w', u₂, hw', -, -, -, open_⟩ := exists_entry_of_seen (k := 2) order pushed seen rfl
  obtain ⟨x, u₃, hx, at_3, op_x, dispatched, waiting⟩ := exists_entry_of_seen (k := 3) order pushed seen rfl
  obtain ⟨y, u₄, hy, at_4, op_y, -, issued⟩ := exists_entry_of_seen (k := 4) order pushed seen rfl
  obtain ⟨x', u₅, hx', at_5, op_x', -, waiting'⟩ := exists_entry_of_seen (k := 5) order pushed seen rfl
  obtain ⟨z, u₆, hz, -, -, -, issued_z⟩ := exists_entry_of_seen (k := 6) order pushed seen rfl
  cases at_3
  cases at_4
  cases at_5
  have one : (c.retired 0).length = 1 := by
    rw [← List.length_map, left]
    rfl
  -- what has issued is in the window, so both stores are
  have within : 6 < (c.account 0 lane).edge := by
    by_contra outside
    have fresh := (reached.timed.fresh 6 z hz (not_lt.mp outside)).issued
    rw [issued_z] at fresh
    cases fresh
  have writer : (c.account 0 lane).AddressWriter 3 x 0 := by
    refine ⟨⟨5, by rw [op_x]; exact List.mem_cons_self, by decide, ?_⟩, fun r _ => ?_⟩
    · show Youngest (c.pushed 0) _ _ _
      rw [pushed]
      decide
    · rw [dispatched]
      exact Time.zero_le _
  have only : ∀ {j : Nat}, (c.account 0 lane).AddressWriter 3 x j → j = 0 := by
    rintro j ⟨⟨r, mem, -, youngest⟩, -⟩
    rw [op_x, List.mem_singleton] at mem
    obtain ⟨⟨r', mem', -, youngest'⟩, -⟩ := writer
    rw [op_x, List.mem_singleton] at mem'
    rw [mem] at youngest
    rw [mem'] at youngest'
    exact youngest.unique youngest'
  have writer' : (c.account 0 lane).AddressWriter 5 x' 2 := by
    refine ⟨⟨7, by rw [op_x']; exact List.mem_cons_self, by decide, ?_⟩, fun r gone => ?_⟩
    · show Youngest (c.pushed 0) _ _ _
      rw [pushed]
      decide
    · have inside : 2 < (c.retired 0).length := (List.getElem?_eq_some_iff.mp gone).1
      omega
  have issued_y : y.issued ≠ .never := by
    rw [issued]
    decide
  obtain ⟨due, early⟩ := addresses_known made (.start : Comes #[true] c .rest c) intime read found
  obtain ⟨-, known⟩ := (due 3 x hx (by omega) (by omega) (by rw [op_x]; rfl) waiting).known fun j p writer hp => by
    obtain rfl := only writer
    rw [hw] at hp
    cases hp
    rw [issued_w]
    decide
  have latest : x.addressReady = w.done := by
    rcases known with ⟨-, none⟩ | ⟨j, p, writer, hp, eq⟩
    · exact absurd writer (none 0)
    · obtain rfl := only writer
      rw [hw] at hp
      cases hp
      exact eq
  exact ⟨c, lane, w, w', x, y, x', made, intime, read, found, hw, hw', hx, hy, hx', writer, writer', open_, waiting,
    issued_y, (due 5 x' hx' (by omega) (by omega) (by rw [op_x']; rfl) waiting').waits 2 w' writer' hw' open_, latest,
    early rfl 3 4 x y hx hy (by decide) (by rw [op_x]; rfl) (by rw [op_y]; rfl) issued_y (.inl waiting) 0 w writer hw⟩

/-- Writers of registers 400 and 6, a store whose address comes from register 400 and its data from register 6, and a
load. -/
def untracked : List OpInstance :=
  [{ op := { destinations := [400], latency := 50 } }, { op := { destinations := [6], latency := 50 } },
    { op := { kind := .store, addressRegisters := [400], sources := [400, 6] }, address := 64 },
    { op := { kind := .load, destinations := [1] }, address := 128 }]

/-- A run over `untracked`. -/
def untrackedCalls : List (Window.Call FixedMemory) :=
  [.initializeThread 0 default none, .push 0 untracked, .markEndOfStream 0, .execute #[true]]

/-- Registers outside the table are not tracked, so a load does not wait for an address that comes from one of
them. -/
theorem load_ahead_of_untracked_address :
    ∃ (c : Chronicle FixedMemory) (w x y : Retirement), of Window.toEvent cautious untrackedCalls = .ok c ∧
      c.window.clock.now ≠ .never ∧ Account.AddressesRead (c.pushed 0) ∧
      (c.retired 0)[0]? = some w ∧ (c.retired 0)[2]? = some x ∧ (c.retired 0)[3]? = some y ∧
      (untracked[2]?.map fun u => (u.op.isStore, u.op.addressRegisters)) = some (true, [400]) ∧
      (untracked[3]?.map fun u => u.op.isLoad) = some true ∧ c.pushed 0 = untracked ∧
      Youngest (c.pushed 0) (OpInstance.Writes 400) 2 0 ∧ x.entry.dispatched < w.entry.done ∧
      y.entry.issued < x.entry.issued ∧ y.entry.issued < w.entry.done := by
  have computed : ((ofWithin Window.toEvent 80 cautious untrackedCalls).map fun c =>
      (c.window.clock.now, c.pushed 0,
        (c.retired 0).map fun x => (x.entry.dispatched, x.entry.issued, x.entry.done))) =
      some (⟨19924820⟩, untracked, [(0, ⟨375940⟩, ⟨19172940⟩), (0, ⟨375940⟩, ⟨19172940⟩),
        (0, ⟨19172940⟩, ⟨19548880⟩), (0, ⟨375940⟩, ⟨751880⟩)]) := by
    decide +kernel
  obtain ⟨c, made, same⟩ := exists_of_computed computed
  simp only [Prod.mk.injEq] at same
  obtain ⟨now, pushed, seen⟩ := same
  obtain ⟨w, at_w, view_w⟩ := exists_retired (k := 0) seen rfl
  obtain ⟨x, at_x, view_x⟩ := exists_retired (k := 2) seen rfl
  obtain ⟨y, at_y, view_y⟩ := exists_retired (k := 3) seen rfl
  simp only [Prod.mk.injEq] at view_w view_x view_y
  refine ⟨c, w, x, y, made, ?_, ?_, at_w, at_x, at_y, rfl, rfl, pushed, ?_, ?_, ?_, ?_⟩
  · rw [now]
    decide
  · rw [pushed]
    unfold Account.AddressesRead
    decide
  · rw [pushed]
    decide
  · rw [view_x.1, view_w.2.2]
    decide
  · rw [view_y.2.1, view_x.2.1]
    decide
  · rw [view_y.2.1, view_w.2.2]
    decide

end Chronicle

end CoreTiming
