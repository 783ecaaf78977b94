import CoreTiming.Proofs.Passage
import CoreTiming.Proofs.Seniority
import Mathlib.Tactic.ByContra

/-!
# What an entry waits for

An entry in the window lists its producers, each of which lists the entry in turn and tells it when it
issues.  `Account.Attuned` says that the two lists agree: what an entry still waits for is older, has not
issued, and will wake it; what it has been told comes from older entries that have issued.  So once all
older entries have left, nothing holds an entry back but the cycle in which it entered the window
(`Attuned.ready_of_oldest`).

All of this holds as long as the clock has not reached the end of time, and for micro-ops as the front end
hands them over, which list no producers of their own.
-/

namespace CoreTiming

/-- None of the micro-ops lists producers of its own. -/
def Unlinked (prog : List OpInstance) : Prop := ∀ u ∈ prog, u.producers.toList = []

/-- When its result is available if the entry issues at `now`. -/
def Entry.doneAt (e : Entry) (period : Period) (now : Time) : Time := e.doneFrom ⟨period, now⟩

/-- What issues later, or takes longer, is not done earlier. -/
theorem Entry.doneAt_mono {e e' : Entry} (op : e'.u.op = e.u.op) (latency : e.u.latency ≤ e'.u.latency)
    (period : Period) {now now' : Time} (later : now ≤ now') :
    e.doneAt period now ≤ e'.doneAt period now' := by
  unfold Entry.doneAt Entry.doneFrom
  rw [op]
  split
  · exact Time.add_le_add later (le_refl _)
  · exact Time.add_le_add later (Period.cycles_le latency)

namespace Account

variable {config : Config} {a b : Account} {e p : Entry} {j k : Nat}

/-! ## Section 1: Three kinds of steps -/

/-- On the way from `a` to `b` nothing enters the window, and nothing issues. -/
structure Persists (a b : Account) : Prop where
  /-- Cycles are as long as before. -/
  period : b.clock.period = a.clock.period
  /-- Time does not go back. -/
  later : a.clock.now ≤ b.clock.now
  /-- What has left has left. -/
  left : a.retired.length ≤ b.retired.length
  /-- The window does not grow. -/
  edge : b.edge ≤ a.edge
  /-- What is in the window, or has left, is at the same point. -/
  kept : ∀ k, k < b.edge →
    Option.Rel (fun e e' => e.SamePoint e' ∧ e.Lengthens e') a.entries[k]? b.entries[k]?
  /-- What is buffered was buffered before, or starts over. -/
  buffered : ∀ (k : Nat) (x : Entry), b.edge ≤ k → b.entries[k]? = some x →
    (x.dependants.toList = [] ∧ x.readyMax = 0) ∨ a.edge ≤ k ∧
      ∃ y, a.entries[k]? = some y ∧ x.dependants = y.dependants ∧ x.readyMax = y.readyMax
  /-- The window ends where it did and the fence on record is the same, unless the window is empty. -/
  fence : (b.edge = a.edge ∧ b.thread.stores.fence = a.thread.stores.fence) ∨ b.edge = b.retired.length

theorem persists_quiet (quiet : Quiet a b) : Persists a b := by
  obtain ⟨same, entries, latencies⟩ := quiet
  refine ⟨by rw [same.clock], le_of_eq (by rw [same.clock]), le_of_eq (by rw [same.retired]),
    le_of_eq same.edge_eq, fun k _ => ?_, fun k x outside hx => ?_,
    .inl ⟨same.edge_eq, by rw [same.stores]⟩⟩
  · exact rel_and (entries k) (latencies k)
  · obtain ⟨y, hy, point⟩ := entries.right hx
    rw [same.edge_eq] at outside
    refine .inr ⟨outside, y, hy, ?_, ?_⟩
    · rw [point]
    · rw [point]

/-- Nothing has happened to an entry. -/
theorem rel_same (o : Option Entry) :
    Option.Rel (fun e e' => Entry.SamePoint e e' ∧ Entry.Lengthens e e') o o :=
  rel_refl (fun e => ⟨.refl e, .refl e⟩) o

theorem persists_take {u : OpInstance} (order : InOrder config a) (takes : Takes a b u e)
    (fresh : e.readyMax = 0) : Persists a b := by
  have inside := order.edge_le
  refine ⟨by rw [takes.clock], le_of_eq (by rw [takes.clock]), le_of_eq (by rw [takes.retired]),
    le_of_eq takes.edge_eq, fun k within => ?_, fun k x outside hx => ?_,
    .inl ⟨takes.edge_eq, by rw [takes.stores]⟩⟩
  · rw [takes.edge_eq] at within
    rw [takes.entries, List.getElem?_append_left (by omega)]
    exact rel_same _
  · rcases takes.entry_before hx with ⟨-, rfl⟩ | hx
    · exact .inl ⟨takes.dependants, fresh⟩
    · rw [takes.edge_eq] at outside
      exact .inr ⟨outside, x, hx, rfl, rfl⟩

theorem persists_release (oldest : a.thread.oldest? = some e) : Persists a (a.release config e) := by
  have entries := entries_release config oldest
  have edge : (a.release config e).edge = a.edge := edge_release oldest
  refine ⟨rfl, le_refl _, ?_, le_of_eq edge, fun k _ => ?_, fun k x outside hx => ?_, .inl ⟨edge, rfl⟩⟩
  · rw [length_release]
    exact Nat.le_succ _
  · rw [entries]
    exact rel_same _
  · rw [entries] at hx
    rw [edge] at outside
    exact .inr ⟨outside, x, hx, rfl, rfl⟩

theorem persists_restart (oldest : a.thread.oldest? = some e)
    (restarts : Restarts (a.release config e) b) : Persists a b := by
  have edge := restarts.edge_eq
  have inside := (entries_oldest oldest).2
  have length := length_release config a e
  refine ⟨by rw [restarts.clock], le_of_eq (by rw [restarts.clock]), ?_, by omega, fun k within => ?_,
    fun k x outside hx => ?_, .inr ?_⟩
  · rw [restarts.retired, length]
    exact Nat.le_succ _
  · rw [restarts.left k (by omega), entries_release config oldest]
    exact rel_same _
  · rcases restarts.entry_before hx with ⟨left, -⟩ | ⟨-, y, seq, -, rfl⟩
    · omega
    · exact .inl ⟨rfl, rfl⟩
  · rw [edge, restarts.retired]

theorem persists_tick {clock : Clock} (period : clock.period = a.clock.period)
    (later : a.clock.now ≤ clock.now) : Persists a { a with clock } :=
  ⟨period, later, Nat.le_refl _, Nat.le_refl _, fun _ _ => rel_same _,
    fun _ x outside hx => .inr ⟨outside, x, hx, rfl, rfl⟩, .inl ⟨rfl, rfl⟩⟩

/-- A step, told apart by whether something enters the window or issues. -/
inductive Proceeds (config : Config) (a b : Account) : Prop
  /-- Neither. -/
  | persists (persists : Persists a b)
  /-- An entry has entered the window. -/
  | enter {e e' : Entry} {th : Thread} (enters : Enters config a b e e' th)
  /-- An entry has issued. -/
  | issue {k : Nat} {e : Entry} {done : Time} (issues : Issues a b k e done)

theorem InOrder.proceeds (order : InOrder config a) (step : Step config a b) : Proceeds config a b := by
  cases step with
  | work work =>
    cases moves_of_work work with
    | quiet same entries latencies => exact .persists (persists_quiet ⟨same, entries, latencies⟩)
    | enter enters => exact .enter enters
    | issue issues => exact .issue issues
  | push same pushed => exact .persists (persists_take order (takes_of_enqueue order same pushed) rfl)
  | retire oldest done stays => exact .persists (persists_release oldest)
  | flush oldest done flushes flushed =>
    exact .persists (persists_restart oldest (restarts_of_flush flushed))
  | tick period later => exact .persists (persists_tick period later)

/-! ## Section 2: The invariant -/

/-- The time `t` is that of the result of an entry before position `k` that has issued, if not earlier. -/
def Known (a : Account) (k : Nat) (t : Time) : Prop :=
  t = 0 ∨ ∃ (j : Nat) (p : Entry), a.entries[j]? = some p ∧ j < k ∧ p.issued ≠ .never ∧ t ≤ p.done

/-- Entries and the producers that they wait for know of each other. -/
structure Attuned (a : Account) : Prop where
  /-- What is buffered wakes nobody, and has been told nothing. -/
  untouched : ∀ (k : Nat) (e : Entry), a.entries[k]? = some e → a.edge ≤ k →
    e.dependants.toList = [] ∧ e.readyMax = 0
  /-- What is in the window lists no producer twice. -/
  nodup : ∀ (k : Nat) (e : Entry), a.entries[k]? = some e → a.retired.length ≤ k → k < a.edge →
    e.u.producers.toList.Nodup
  /-- What an entry waits for is older, has not issued, and will wake it. -/
  pending : ∀ (k : Nat) (e : Entry), a.entries[k]? = some e → a.retired.length ≤ k → k < a.edge →
    ∀ q ∈ e.u.producers.toList, ∃ (j : Nat) (p : Entry), a.entries[j]? = some p ∧ a.retired.length ≤ j ∧
      j < k ∧ p.seq = q ∧ p.done = .never ∧ e.seq ∈ p.dependants.toList
  /-- What an entry is to wake is younger. -/
  listed : ∀ (j k : Nat) (p e : Entry), a.entries[j]? = some p → a.entries[k]? = some e →
    a.retired.length ≤ j → e.seq ∈ p.dependants.toList → j < k
  /-- What has issued has issued by now. -/
  past : ∀ (k : Nat) (e : Entry), a.entries[k]? = some e → e.issued ≠ .never → e.issued ≤ a.clock.now
  /-- A result that does not come before the end of time never does, however often the entry issues. -/
  lasting : ∀ (k : Nat) (e : Entry), a.entries[k]? = some e → a.retired.length ≤ k → e.issued ≠ .never →
    e.done ≤ e.doneAt a.clock.period e.issued
  /-- What an entry has been told comes from an older one that has issued. -/
  told : ∀ (k : Nat) (e : Entry), a.entries[k]? = some e → a.retired.length ≤ k → k < a.edge →
    a.Known k e.readyMax
  /-- What waits for no producer is ready by the next cycle. -/
  prompt : ∀ (k : Nat) (e : Entry), a.entries[k]? = some e → a.retired.length ≤ k → k < a.edge →
    e.u.producers.toList = [] → e.ready ≤ max e.readyMax (e.dispatched + a.clock.period.length)

/-- A thread that has just been set up has no entries. -/
theorem entries_new {clock : Clock} {th : Thread} {predictor : Option Predictor} {windowSize : Nat}
    {loadHistogram : Bool} (made : Thread.new windowSize loadHistogram predictor = .ok th) (k : Nat) :
    ({ clock, thread := th } : Account).entries[k]? = none := by
  obtain ⟨capacity, rfl⟩ := Thread.new_eq_ok made
  rfl

theorem attuned_new {clock : Clock} {th : Thread} {predictor : Option Predictor} {windowSize : Nat}
    {loadHistogram : Bool} (made : Thread.new windowSize loadHistogram predictor = .ok th) :
    Attuned { clock, thread := th } := by
  have none : ∀ k : Nat, ({ clock, thread := th } : Account).entries[k]? = none := entries_new made
  refine ⟨?_, ?_, ?_, fun j k p e hp => ?_, ?_, ?_, ?_, ?_⟩
  case refine_4 =>
    rw [none] at hp
    cases hp
  all_goals
    intro k e he
    rw [none] at he
    cases he

/-- A number that is lower stands before. -/
theorem InOrder.lt_of_seq_lt (h : InOrder config a) (at_j : a.entries[j]? = some p)
    (at_k : a.entries[k]? = some e) (lt : p.seq < e.seq) : j < k := by
  rcases Nat.lt_trichotomy j k with before | same | behind
  · exact before
  · rw [same, at_k] at at_j
    cases at_j
    omega
  · have := h.seq_lt_seq at_k at_j behind
    omega

/-! ## Section 3: What has issued -/

/-- What has issued keeps the time at which it did, and its result comes in time. -/
structure Lasting (a : Account) : Prop where
  /-- What has issued has issued by now. -/
  past : ∀ (k : Nat) (e : Entry), a.entries[k]? = some e → e.issued ≠ .never → e.issued ≤ a.clock.now
  /-- A result that does not come before the end of time never does, however often the entry issues. -/
  lasting : ∀ (k : Nat) (e : Entry), a.entries[k]? = some e → a.retired.length ≤ k → e.issued ≠ .never →
    e.done ≤ e.doneAt a.clock.period e.issued

theorem Attuned.toLasting (h : Attuned a) : Lasting a := ⟨h.past, h.lasting⟩

/-- What has issued and has no result does not get one by issuing again. -/
theorem Lasting.done_eq_never (h : Lasting a) (at_k : a.entries[k]? = some e) (inRing : a.retired.length ≤ k)
    (issued : e.issued ≠ .never) (waiting : e.done = .never) : e.doneFrom a.clock = .never := by
  have lasting := h.lasting k e at_k inRing issued
  rw [waiting, Time.never_le_iff] at lasting
  rw [← Time.never_le_iff, ← lasting]
  exact Entry.doneAt_mono rfl (Nat.le_refl _) _ (h.past k e at_k issued)

theorem Lasting.done_of_again {done : Time} {i : Nat} (h : Lasting a) (issues : Issues a b i e done)
    (issued : e.issued ≠ .never) : done = .never :=
  issues.result.trans (h.done_eq_never issues.entry issues.inRing issued issues.waiting)

theorem Lasting.persist (h : Lasting a) (persists : Persists a b) (timed : Timed b) : Lasting b := by
  have left := persists.left
  have edge := persists.edge
  have within : ∀ {k : Nat} {x : Entry}, b.entries[k]? = some x → x.issued ≠ .never → k < b.edge := by
    intro k x hx issued
    by_contra outside
    exact issued (timed.fresh k x hx (by omega)).issued
  refine ⟨fun k x hx issued => ?_, fun k x hx inRing issued => ?_⟩
  · obtain ⟨y, hy, point, -⟩ := rel_right (persists.kept k (within hx issued)) hx
    rw [point] at issued ⊢
    exact le_trans (h.past k y hy issued) persists.later
  · obtain ⟨y, hy, point, latency⟩ := rel_right (persists.kept k (within hx issued)) hx
    have issued' : y.issued ≠ .never := by
      rw [point] at issued
      exact issued
    have lasting := h.lasting k y hy (by omega) issued'
    have done : x.done = y.done := by rw [point]
    have same : x.issued = y.issued := by rw [point]
    have op : x.u.op = y.u.op := by rw [point]
    rw [done, same, persists.period]
    exact le_trans lasting (Entry.doneAt_mono op latency.latency_le _ (le_refl _))

theorem Lasting.enter {e' : Entry} {th : Thread} (h : Lasting a) (timed : Timed a)
    (enters : Enters config a b e e' th) : Lasting b := by
  -- what has just entered has not issued
  have before : ∀ {k : Nat} {x : Entry}, b.entries[k]? = some x → x.issued ≠ .never →
      ∃ y, a.entries[k]? = some y ∧ y.Listed e.seq x := by
    intro k x hx issued
    refine enters.entry_elsewhere hx ?_
    rintro rfl
    exact issued (enters.not_issued timed hx (Nat.le_refl _)).1
  refine ⟨fun k x hx issued => ?_, fun k x hx inRing issued => ?_⟩
  · obtain ⟨y, hy, grown⟩ := before hx issued
    rw [enters.clock]
    rw [grown.frame] at issued ⊢
    exact h.past k y hy issued
  · obtain ⟨y, hy, grown⟩ := before hx issued
    rw [enters.retired] at inRing
    rw [enters.clock]
    rw [grown.frame] at issued ⊢
    exact h.lasting k y hy inRing issued

/-- Before an entry may have been woken it had its number, its producers, and its consumers. -/
theorem Issues.exists_woken {done : Time} {i : Nat} {x : Entry} (issues : Issues a b i e done)
    (hx : b.entries[k]? = some x) :
    ∃ y y', a.entries[k]? = some y ∧ y'.Woken e.seq done x ∧ y'.u = y.u ∧ y'.dependants = y.dependants ∧
      y'.readyMax = y.readyMax ∧ y'.ready = y.ready ∧ y'.dispatched = y.dispatched ∧
      (k ≠ i → y' = y) ∧ (k = i → y = e ∧ y' = { e with issued := a.clock.now, done }) := by
  rcases issues.entry_before hx with ⟨rfl, woken⟩ | ⟨hne, y, hy, woken⟩
  · exact ⟨e, _, issues.entry, woken, rfl, rfl, rfl, rfl, rfl, fun other => absurd rfl other,
      fun _ => ⟨rfl, rfl⟩⟩
  · exact ⟨y, y, hy, woken, rfl, rfl, rfl, rfl, rfl, fun _ => rfl, fun same => absurd same hne⟩

theorem Lasting.issue {done : Time} {i : Nat} (h : Lasting a) (issues : Issues a b i e done) : Lasting b := by
  have clock := issues.same.clock
  have left : b.retired.length = a.retired.length := by rw [issues.same.retired]
  refine ⟨fun k x hx issued => ?_, fun k x hx inRing issued => ?_⟩
  · rw [clock]
    obtain ⟨y, y', hy, woken, -, -, -, -, -, others, itself⟩ := issues.exists_woken hx
    rw [woken.frame] at issued ⊢
    by_cases same : k = i
    · rw [(itself same).2]
    · rw [others same] at issued ⊢
      exact h.past k y hy issued
  · rw [clock]
    obtain ⟨y, y', hy, woken, -, -, -, -, -, others, itself⟩ := issues.exists_woken hx
    have result : x.done = y'.done := by rw [woken.frame]
    have time : x.issued = y'.issued := by rw [woken.frame]
    have op : x.u.op = y'.u.op := by rw [woken.frame]
    have latency : x.u.latency = y'.u.latency := by rw [woken.frame]
    have lasting : y'.done ≤ y'.doneAt a.clock.period y'.issued := by
      by_cases same : k = i
      · rw [(itself same).2]
        show done ≤ e.doneFrom a.clock
        rw [issues.result]
      · rw [time] at issued
        rw [others same] at issued ⊢
        exact h.lasting k y hy (by omega) issued
    rw [result, time]
    exact le_trans lasting (Entry.doneAt_mono op (le_of_eq latency.symm) _ (le_refl _))

theorem Reachable.lasting (h : Reachable config a) : Lasting a := by
  induction h with
  | new made =>
    refine ⟨fun k e he => ?_, fun k e he => ?_⟩
    all_goals
      rw [entries_new made] at he
      cases he
  | step reached step ih =>
    have timed' := (Reachable.step reached step).timed
    cases reached.inOrder.proceeds step with
    | persists persists => exact ih.persist persists timed'
    | enter enters => exact ih.enter reached.timed enters
    | issue issues => exact ih.issue issues

/-! ## Section 4: Steps on which nothing enters or issues -/

theorem Attuned.persist (h : Attuned a) (persists : Persists a b) (timed : Timed b) (lasting : Lasting b)
    (intime : b.clock.now ≠ .never) : Attuned b := by
  have left := persists.left
  have edge := persists.edge
  -- what is found in the window, or has left, was there before
  have before : ∀ {k : Nat} {x : Entry}, b.entries[k]? = some x → k < b.edge →
      ∃ y, a.entries[k]? = some y ∧ y.SamePoint x ∧ y.Lengthens x := by
    intro k x hx within
    obtain ⟨y, hy, point, latency⟩ := rel_right (persists.kept k within) hx
    exact ⟨y, hy, point, latency⟩
  have untouched : ∀ (k : Nat) (e : Entry), b.entries[k]? = some e → b.edge ≤ k →
      e.dependants.toList = [] ∧ e.readyMax = 0 := by
    intro k x hx outside
    rcases persists.buffered k x outside hx with fresh | ⟨outside, y, hy, dependants, readyMax⟩
    · exact fresh
    · rw [dependants, readyMax]
      exact h.untouched k y hy outside
  refine ⟨untouched, fun k x hx inRing within => ?_, fun k x hx inRing within q hq => ?_,
    fun j k p x hp hx inRing mem => ?_, lasting.past, lasting.lasting,
    fun k x hx inRing within => ?_, fun k x hx inRing within none => ?_⟩
  · obtain ⟨y, hy, point, -⟩ := before hx within
    rw [point]
    exact h.nodup k y hy (by omega) (by omega)
  · obtain ⟨y, hy, point, -⟩ := before hx within
    rw [point] at hq
    obtain ⟨j, p, hp, inRing', older, seq, waiting, tells⟩ := h.pending k y hy (by omega) (by omega) q hq
    obtain ⟨p', hp', point', -⟩ := rel_left (persists.kept j (by omega)) hp
    rw [point]
    refine ⟨j, p', hp', ?_, older, ?_, ?_, ?_⟩
    · -- it has not issued, so it has not left
      by_contra gone
      rw [not_le] at gone
      obtain ⟨r, mem, same⟩ := mem_retired_of_lt gone hp'
      have done := timed.settled r mem
      rw [same, point'] at done
      exact intime (Time.never_le_iff.mp (waiting ▸ done))
    · rw [point']
      exact seq
    · rw [point']
      exact waiting
    · rw [point']
      exact tells
  · by_cases within : j < b.edge
    · obtain ⟨q, hq, point, -⟩ := before hp within
      rw [point] at mem
      by_cases within' : k < b.edge
      · obtain ⟨y, hy, point', -⟩ := before hx within'
        rw [point'] at mem
        exact h.listed j k q y hq hy (by omega) mem
      · omega
    · rw [(untouched j p hp (by omega)).1] at mem
      cases mem
  · obtain ⟨y, hy, point, -⟩ := before hx within
    rw [point]
    refine (h.told k y hy (by omega) (by omega)).imp_right ?_
    rintro ⟨j, p, hp, older, issued, le⟩
    obtain ⟨p', hp', point', -⟩ := rel_left (persists.kept j (by omega)) hp
    refine ⟨j, p', hp', older, ?_, ?_⟩
    · rw [point']
      exact issued
    · rw [point']
      exact le
  · obtain ⟨y, hy, point, -⟩ := before hx within
    rw [point] at none ⊢
    rw [persists.period]
    exact h.prompt k y hy (by omega) (by omega) none

/-! ## Section 5: An entry enters the window -/

/-- Micro-ops that list no producers of their own leave none astray. -/
theorem not_stray (unlinked : Unlinked a.pushed) (q : Nat) : ¬a.Stray q := by
  rintro ⟨u, mem, listed⟩
  rw [unlinked u mem] at listed
  cases listed

/-- What an entry looks for when it enters the window is older. -/
theorem Enters.seeks_lt {e' : Entry} {th : Thread} {q : Nat} (enters : Enters config a b e e' th)
    (order : InOrder config a) (tabled : Tabled a) (senior : Senior a) (unlinked : Unlinked a.pushed)
    (seeks : a.thread.Seeks e.fetched q) : q < e.seq :=
  (senior.lt_of_seeks order tabled enters.next seeks).resolve_right (not_stray unlinked _)

/-- What is about to enter the window lists no producers yet. -/
theorem Enters.unlisted {e' : Entry} {th : Thread} (enters : Enters config a b e e' th) (senior : Senior a)
    (unlinked : Unlinked a.pushed) : e.fetched.u.producers.toList.Nodup := by
  have none : e.fetched.u.producers.toList = [] := by
    rw [List.eq_nil_iff_forall_not_mem]
    exact fun q listed => not_stray unlinked q (senior.unlinked _ e enters.next (Nat.le_refl _) q listed)
  rw [none]
  exact List.nodup_nil

/-- What is known before the edge stays known when an entry enters the window there. -/
theorem Known.enter {e' : Entry} {th : Thread} {t : Time} (known : a.Known k t)
    (enters : Enters config a b e e' th) (within : k ≤ a.edge) : b.Known k t := by
  refine known.imp_right ?_
  rintro ⟨j, p, hp, before, issued, le⟩
  obtain ⟨p', hp', grown⟩ := rel_left (enters.others j (by omega)) hp
  refine ⟨j, p', hp', before, ?_, ?_⟩
  · rw [grown.frame]
    exact issued
  · rw [grown.done_eq]
    exact le

section Enter

variable {e' : Entry} {th : Thread} (h : Attuned a) (order : InOrder config a) (tabled : Tabled a)
  (senior : Senior a) (timed : Timed a) (unlinked : Unlinked a.pushed) (enters : Enters config a b e e' th)

include h order tabled senior unlinked enters

/-- The entry that enters the window is listed only by what it looks for. -/
theorem Attuned.lists_entered {x : Entry} (inRing : a.retired.length ≤ j) (hne : j ≠ a.edge)
    (hp : a.entries[j]? = some p) (hx : b.entries[j]? = some x) (mem : e.seq ∈ x.dependants.toList) :
    j < a.edge := by
  -- in the ring, positions in the thread are positions in the account
  have inThread : a.thread.ring.toList[j - a.retired.length]? = some p := by
    rwa [entries_of_le inRing] at hp
  have inThread' : th.ring.toList[j - a.retired.length]? = some x := by
    have := enters.ring (j - a.retired.length) (by unfold Account.edge at hne; omega)
    rwa [Nat.add_sub_cancel' inRing, hx, eq_comm] at this
  rcases enters.linked.others _ p x inThread inThread' mem with old | seeks
  · exact h.listed j _ p e hp enters.next inRing old
  · exact order.lt_of_seq_lt hp enters.next (enters.seeks_lt order tabled senior unlinked seeks)

theorem Attuned.pending_enter {x : Entry} {q : Nat} (nodup : e.fetched.u.producers.toList.Nodup)
    (hx : b.entries[k]? = some x) (inRing : a.retired.length ≤ k) (within : k < a.edge + 1)
    (hq : q ∈ x.u.producers.toList) :
    ∃ (j : Nat) (p : Entry), b.entries[j]? = some p ∧ a.retired.length ≤ j ∧ j < k ∧ p.seq = q ∧
      p.done = .never ∧ x.seq ∈ p.dependants.toList := by
  have link := enters.linked
  rcases enters.entry_before hx with ⟨rfl, rfl⟩ | ⟨hne, y, hy, grown⟩
  · obtain ⟨i, p, p', hp, hp', seq, waiting, tells⟩ := link.pending nodup q hq
    have at_j : a.entries[a.retired.length + i]? = some p := by
      rw [entries_add]
      exact hp
    have older := enters.seeks_lt order tabled senior unlinked (link.fewer q hq)
    have before := order.lt_of_seq_lt at_j enters.next (seq ▸ older)
    have at_j' : b.entries[a.retired.length + i]? = some p' := by
      rw [enters.ring i (by unfold Account.edge at before; omega)]
      exact hp'
    obtain ⟨y, hy, grown⟩ := enters.entry_elsewhere at_j' (by omega)
    rw [at_j] at hy
    cases hy
    refine ⟨_, p', at_j', Nat.le_add_right _ _, by omega, grown.seq_eq.trans seq,
      grown.done_eq.trans waiting, ?_⟩
    show e'.seq ∈ _
    rw [link.seq_eq]
    exact tells
  · rw [grown.frame] at hq
    obtain ⟨j, p, hp, inRing', before, seq, waiting, tells⟩ := h.pending k y hy inRing (by omega) q hq
    obtain ⟨p', hp', grown'⟩ := rel_left (enters.others j (by omega)) hp
    refine ⟨j, p', hp', inRing', before, grown'.seq_eq.trans seq, grown'.done_eq.trans waiting, ?_⟩
    rw [grown.seq_eq]
    exact grown'.keeps _ tells

theorem Attuned.listed_enter {p x : Entry} (hp : b.entries[j]? = some p) (hx : b.entries[k]? = some x)
    (inRing : a.retired.length ≤ j) (mem : x.seq ∈ p.dependants.toList) : j < k := by
  have at_j : j ≠ a.edge := by
    rintro rfl
    rw [enters.entered] at hp
    cases hp
    have same : e'.dependants = e.dependants := enters.linked.dependants_eq
    have mem : x.seq ∈ e'.dependants.toList := mem
    rw [same, (h.untouched _ e enters.next (Nat.le_refl _)).1] at mem
    cases mem
  obtain ⟨p₀, hp₀, grown⟩ := enters.entry_elsewhere hp at_j
  -- the consumer was there before, under the same number
  obtain ⟨x₀, hx₀, seq⟩ : ∃ x₀, a.entries[k]? = some x₀ ∧ x.seq = x₀.seq := by
    rcases enters.entry_before hx with ⟨rfl, rfl⟩ | ⟨hne, y, hy, grown'⟩
    · exact ⟨e, enters.next, enters.linked.seq_eq⟩
    · exact ⟨y, hy, grown'.seq_eq⟩
  rw [seq] at mem
  rcases grown.fewer _ mem with old | new
  · exact h.listed j k p₀ x₀ hp₀ hx₀ inRing old
  · have here : k = a.edge := order.position_unique hx₀ enters.next new
    rw [new] at mem
    rw [here]
    exact h.lists_entered order tabled senior unlinked enters inRing at_j hp₀ hp mem

include timed

theorem Attuned.told_enter {x : Entry} (hx : b.entries[k]? = some x) (inRing : a.retired.length ≤ k)
    (within : k < a.edge + 1) : b.Known k x.readyMax := by
  rcases enters.entry_before hx with ⟨rfl, rfl⟩ | ⟨hne, y, hy, grown⟩
  · have nothing := (h.untouched _ e enters.next (Nat.le_refl _)).2
    -- it takes over the times of what it looks for, which is older
    refine Known.enter (enters.linked.times (a.Known a.edge) (.inl nothing) fun p mem seeks => ?_) enters
      (Nat.le_refl _)
    obtain ⟨i, hi⟩ := List.getElem?_of_mem mem
    rw [← entries_add] at hi
    have before := order.lt_of_seq_lt hi enters.next (enters.seeks_lt order tabled senior unlinked seeks)
    refine ⟨fun done => .inr ⟨_, p, hi, before, timed.issued_of_done hi done, le_refl _⟩, ?_⟩
    refine (h.told _ p hi (Nat.le_add_right _ _) before).imp_right ?_
    rintro ⟨j, p', hp', before', issued, le⟩
    exact ⟨j, p', hp', by omega, issued, le⟩
  · rw [grown.frame]
    exact (h.told k y hy inRing (by omega)).enter enters (by omega)

theorem Attuned.enter (lasting : Lasting b) : Attuned b := by
  have link := enters.linked
  have edge := enters.edge_eq
  have left : a.retired.length ≤ a.edge := by
    unfold Account.edge
    omega
  have nodup := enters.unlisted senior unlinked
  refine ⟨fun k x hx outside => ?_, fun k x hx inRing within => ?_, fun k x hx inRing within q hq => ?_,
    fun j k p x hp hx inRing mem => ?_, lasting.past, lasting.lasting,
    fun k x hx inRing within => ?_, fun k x hx inRing within none => ?_⟩
  · -- behind the edge
    obtain ⟨y, hy, grown⟩ := enters.entry_elsewhere hx (by omega)
    obtain ⟨none, zero⟩ := h.untouched k y hy (by omega)
    refine ⟨List.eq_nil_iff_forall_not_mem.mpr fun q mem => ?_, ?_⟩
    · rcases grown.fewer q mem with old | rfl
      · rw [none] at old
        cases old
      · have := h.lists_entered order tabled senior unlinked enters (by omega) (by omega) hy hx mem
        omega
    · rw [grown.frame]
      exact zero
  · rw [enters.retired] at inRing
    rcases enters.entry_before hx with ⟨rfl, rfl⟩ | ⟨hne, y, hy, grown⟩
    · exact link.nodup nodup
    · rw [grown.frame]
      exact h.nodup k y hy inRing (by omega)
  · rw [enters.retired] at inRing ⊢
    exact h.pending_enter order tabled senior unlinked enters nodup hx inRing (by omega) hq
  · rw [enters.retired] at inRing
    exact h.listed_enter order tabled senior unlinked enters hp hx inRing mem
  · rw [enters.retired] at inRing
    exact h.told_enter order tabled senior timed unlinked enters hx inRing (by omega)
  · rw [enters.retired] at inRing
    rw [enters.clock]
    rcases enters.entry_before hx with ⟨rfl, rfl⟩ | ⟨hne, y, hy, grown⟩
    · have none : e'.u.producers.toList = [] := none
      have ready : e'.ready = e'.readyMax := by
        rw [link.ready, if_pos (by simp [BoundedList.isEmpty, none])]
      show max e'.ready a.clock.next ≤ _
      rw [ready]
      exact le_refl _
    · rw [grown.frame] at none ⊢
      exact h.prompt k y hy inRing (by omega) none

end Enter

/-! ## Section 6: An entry issues -/

/-- What is buffered is told nothing. -/
theorem Timed.asleep {done : Time} {i : Nat} {x : Entry} (timed : Timed a) (order : InOrder config a)
    (issues : Issues a b i e done) (outside : a.edge ≤ k) (hx : a.entries[k]? = some x) :
    b.entries[k]? = some x := by
  have inWindow := issues.inWindow
  refine issues.others k x (by omega) hx fun listed => ?_
  have bound := timed.consumers i e issues.entry issues.inRing x.seq listed
  unfold Account.edge at outside
  have := order.seq_of_le (by omega) hx
  omega

section Issue

variable {done : Time} {i : Nat} (h : Attuned a) (order : InOrder config a) (timed : Timed a)
  (intime : b.clock.now ≠ .never) (issues : Issues a b i e done)

include h intime issues in
/-- What an entry that has issued has told is as late as before, or later. -/
theorem Known.issue {t : Time} (known : a.Known k t) : b.Known k t := by
  have now : a.clock.now ≠ .never := issues.same.clock ▸ intime
  refine known.imp_right ?_
  rintro ⟨j, p, hp, older, issued, le⟩
  by_cases same : j = i
  · subst same
    rw [issues.entry] at hp
    cases hp
    obtain ⟨x, hx, woken⟩ := issues.exists_issued
    refine ⟨j, x, hx, older, ?_, ?_⟩
    · rw [woken.frame]
      exact now
    · -- it has issued before, in vain, and has again
      rw [woken.frame]
      show t ≤ done
      rw [h.toLasting.done_of_again issues issued]
      exact Time.le_never t
  · obtain ⟨x, hx, woken⟩ := issues.exists_other same hp
    refine ⟨j, x, hx, older, ?_, ?_⟩
    · rw [woken.frame]
      exact issued
    · rw [woken.frame]
      exact le

include h issues in
theorem Attuned.pending_issue {x : Entry} {q : Nat} (order' : InOrder config b) (hx : b.entries[k]? = some x)
    (inRing : a.retired.length ≤ k) (within : k < a.edge) (hq : q ∈ x.u.producers.toList) :
    ∃ (j : Nat) (p : Entry), b.entries[j]? = some p ∧ a.retired.length ≤ j ∧ j < k ∧ p.seq = q ∧
      p.done = .never ∧ x.seq ∈ p.dependants.toList := by
  obtain ⟨y, y', hy, woken, u, -⟩ := issues.exists_woken hx
  have listed : q ∈ y.u.producers.toList := by
    rw [← u]
    exact woken.fewer q hq
  obtain ⟨j, p, hp, inRing', older, seq, waiting, tells⟩ := h.pending k y hy inRing within q listed
  by_cases same : j = i
  · -- the producer has issued, and has told the entry
    subst same
    rw [issues.entry] at hp
    cases hp
    obtain ⟨m, z, z', hz, hz', number, hears⟩ := issues.heard y.seq tells
    obtain ⟨z'', hz'', woken'⟩ := issues.woken.left hz
    have here : m = k := by
      refine order'.position_unique hz'' hx ?_
      rw [woken'.seq_eq, number, woken.seq_eq, Entry.seq, Entry.seq, u]
    subst here
    rw [hx] at hz'
    cases hz'
    have other : m ≠ j := by omega
    rw [List.getElem?_set_ne (Ne.symm other), hy] at hz
    cases hz
    rw [← seq] at hq
    exact absurd hq (hears.freed (h.nodup m y hy inRing within))
  · obtain ⟨p', hp', woken'⟩ := issues.exists_other same hp
    refine ⟨j, p', hp', inRing', older, woken'.seq_eq.trans seq, ?_, ?_⟩
    · rw [woken'.frame]
      exact waiting
    · rw [woken'.frame, woken.seq_eq, Entry.seq, u]
      exact tells

include h intime issues in
theorem Attuned.told_issue {x : Entry} (hx : b.entries[k]? = some x) (inRing : a.retired.length ≤ k)
    (within : k < a.edge) : b.Known k x.readyMax := by
  obtain ⟨y, y', hy, woken, u, -, readyMax, -, -, others, itself⟩ := issues.exists_woken hx
  have told := (h.told k y hy inRing within).issue h intime issues
  by_cases younger : i < k
  · -- the entry that has issued may have told it
    have result : b.Known k done := by
      obtain ⟨x', hx', woken'⟩ := issues.exists_issued
      refine .inr ⟨i, x', hx', younger, ?_, ?_⟩
      · rw [woken'.frame]
        exact issues.same.clock ▸ intime
      · rw [woken'.frame]
    rcases woken.readyMax_eq with same | new
    · rw [same, readyMax]
      exact told
    · rw [new, readyMax]
      exact max_rec' _ told result
  · -- others are told nothing
    have asleep : y.seq ∉ e.dependants.toList := fun mem =>
      younger (h.listed i k e y issues.entry hy issues.inRing mem)
    have unchanged : x.readyMax = y.readyMax := by
      by_cases same : k = i
      · obtain ⟨rfl, -⟩ := itself same
        have := issues.itself asleep
        rw [← same, hx] at this
        cases this
        rfl
      · have := issues.others k y same hy asleep
        rw [hx] at this
        cases this
        rfl
    rw [unchanged]
    exact told

include h order timed intime issues in
theorem Attuned.issue (order' : InOrder config b) (lasting : Lasting b) : Attuned b := by
  have edge := issues.same.edge_eq
  have left : b.retired.length = a.retired.length := by rw [issues.same.retired]
  have clock := issues.same.clock
  refine ⟨fun k x hx outside => ?_, fun k x hx inRing within => ?_, fun k x hx inRing within q hq => ?_,
    fun j k p x hp hx inRing mem => ?_, lasting.past, lasting.lasting,
    fun k x hx inRing within => ?_, fun k x hx inRing within none => ?_⟩
  · rw [edge] at outside
    obtain ⟨y, -, hy, -⟩ := issues.exists_woken hx
    have same := timed.asleep order issues outside hy
    rw [hx] at same
    cases same
    exact h.untouched k x hy outside
  · obtain ⟨y, y', hy, woken, u, -⟩ := issues.exists_woken hx
    refine woken.nodup ?_
    rw [u]
    exact h.nodup k y hy (by omega) (by omega)
  · rw [left] at inRing ⊢
    exact h.pending_issue issues order' hx inRing (by omega) hq
  · -- issuing adds nobody to a list of consumers
    obtain ⟨q, q', hq, woken, -, dependants, -⟩ := issues.exists_woken hp
    obtain ⟨y, y', hy, woken', u, -⟩ := issues.exists_woken hx
    rw [woken.frame, woken'.seq_eq, Entry.seq, u] at mem
    have mem : y.seq ∈ q'.dependants.toList := mem
    rw [dependants] at mem
    exact h.listed j k q y hq hy (by omega) mem
  · exact h.told_issue intime issues hx (by omega) (by omega)
  · rw [clock]
    obtain ⟨y, y', hy, woken, u, -, readyMax, ready, dispatched, -⟩ := issues.exists_woken hx
    have same : x.dispatched = y.dispatched := by
      rw [woken.frame]
      exact dispatched
    -- either the last producer had issued before, or it is the one that issues now
    rcases woken.prompt none with ⟨none', unchanged⟩ | le
    · rw [u] at none'
      have := h.prompt k y hy (by omega) (by omega) none'
      rw [unchanged, ready, same]
      refine le_trans this (max_le_max ?_ (le_refl _))
      rw [← readyMax]
      exact woken.readyMax_le
    · exact le_trans le (le_max_left _ _)

end Issue

/-! ## Section 7: All steps -/

theorem Proceeds.later (h : Proceeds config a b) : a.clock.now ≤ b.clock.now := by
  cases h with
  | persists persists => exact persists.later
  | enter enters => rw [enters.clock]
  | issue issues => rw [issues.same.clock]

/-- What was pushed stays pushed. -/
theorem Step.unlinked (step : Step config a b) (h : Unlinked b.pushed) : Unlinked a.pushed := by
  cases step with
  | push same pushed => exact fun u mem => h u (List.mem_append_left _ mem)
  | _ => exact h

theorem Attuned.step (h : Attuned a) (reached : Reachable config a) (step : Step config a b)
    (unlinked : Unlinked b.pushed) (intime : b.clock.now ≠ .never) : Attuned b := by
  have order := reached.inOrder
  have reached' : Reachable config b := .step reached step
  cases order.proceeds step with
  | persists persists => exact h.persist persists reached'.timed reached'.lasting intime
  | enter enters =>
    exact h.enter order reached.tabled reached.senior reached.timed (step.unlinked unlinked) enters
      reached'.lasting
  | issue issues => exact h.issue order reached.timed intime issues reached'.inOrder reached'.lasting

theorem Reachable.attuned (h : Reachable config a) (unlinked : Unlinked a.pushed)
    (intime : a.clock.now ≠ .never) : Attuned a := by
  induction h with
  | new made => exact attuned_new made
  | step reached step ih =>
    have before := Time.ne_never_of_le (reached.inOrder.proceeds step).later intime
    exact (ih (step.unlinked unlinked) before).step reached step unlinked intime

/-! ## Section 8: The oldest entry -/

/-- Once everything older has left, an entry waits for no producer. -/
theorem Attuned.producers_of_oldest (h : Attuned a) (inside : a.retired.length < a.edge)
    (oldest : a.entries[a.retired.length]? = some e) : e.u.producers.toList = [] := by
  rw [List.eq_nil_iff_forall_not_mem]
  intro q listed
  obtain ⟨j, p, -, inRing, older, -⟩ := h.pending _ e oldest (Nat.le_refl _) inside q listed
  omega

/-- Once everything older has left, an entry is ready by the cycle after it entered the window. -/
theorem Attuned.ready_of_oldest (h : Attuned a) (timed : Timed a) (inside : a.retired.length < a.edge)
    (oldest : a.entries[a.retired.length]? = some e) :
    e.ready ≤ max a.clock.now (e.dispatched + a.clock.period.length) := by
  refine le_trans (h.prompt _ e oldest (Nat.le_refl _) inside (h.producers_of_oldest inside oldest)) ?_
  refine max_le_max ?_ (le_refl _)
  rcases h.told _ e oldest (Nat.le_refl _) inside with start | ⟨j, p, hp, older, -, le⟩
  · rw [start]
    exact Time.zero_le _
  · obtain ⟨r, mem, rfl⟩ := mem_retired_of_lt older hp
    exact le_trans le (timed.settled r mem)

end Account

end CoreTiming
