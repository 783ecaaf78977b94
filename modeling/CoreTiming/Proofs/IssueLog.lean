import CoreTiming.Proofs.Gathering
import CoreTiming.Proofs.ReadAfterWrite
import CoreTiming.Proofs.Serialization

/-!
# The issue log

The issue log of a series of calls lists all that the issue stages let issue on a core, on whichever thread and
whether or not the window starts over before it leaves, in the order in which it issues: cycle by cycle, in each
cycle thread by thread in the order of their turns, and in each turn the oldest entry first.

What issues in a turn is what has a result after it and had none before.  `Account.Turned` says what a turn does
to a thread: each entry that issues in it issues now, and a serializing one lets all stores drain that have
issued, so no store has issued before it in the same turn.
-/

namespace CoreTiming

/-! ## Section 1: What issues -/

/-- A micro-op that has issued. -/
structure Issuance where
  /-- The thread. -/
  thread : Nat
  /-- The number of the entry. -/
  seq : Nat
  /-- What is issued. -/
  op : MicroOp
  /-- When it issued. -/
  time : Time
  /-- When it has drained if it is a store: a cycle after it has been executed. -/
  drained : Time

/-- The record of the entry, which has issued on thread `i`. -/
def Entry.issuance (i : Nat) (period : Period) (e : Entry) : Issuance :=
  { thread := i, seq := e.seq, op := e.u.op, time := e.issued, drained := e.drained period }

/-- The record of an entry that was `e` and now is `e'`, if it has issued in the meantime. -/
def Entry.issuance? (i : Nat) (period : Period) (e e' : Entry) : Option Issuance :=
  if !e.isDone && e'.isDone then some (e'.issuance i period) else none

/-- What has issued on thread `i`, which was `th` and now is `th'`, the oldest entry first. -/
def Thread.issuances (i : Nat) (period : Period) (th th' : Thread) : List Issuance :=
  (th.ring.toList.zip th'.ring.toList).filterMap fun (e, e') => e.issuance? i period e'

/-- If `s` is a store and `z` serializing, `s` has drained when `z` issues. -/
def Issuance.Clears (s z : Issuance) : Prop :=
  s.op.isStore = true → z.op.serializing = true → s.drained ≤ z.time

namespace Window

variable {M : Type}

/-- What has issued on lane `i` on the way from `w` to `v`. -/
def issuances (w v : Window M) (i : Nat) : List Issuance :=
  match w.lanes[i]?, v.lanes[i]? with
  | some lane, some lane' => lane.thread.issuances i w.clock.period lane'.thread
  | _, _ => []

variable [MemorySystem M]

/-- What issues in the cycle that begins with `w`. -/
def issuancesInCycle (running : Running) (w : Window M) : List Issuance :=
  match dispatch running w with
  | .error _ _ => []
  | .ok _ v =>
    match issue v with
    | .error _ _ => []
    | .ok _ x => (v.rotation (v.issueTurn % v.lanes.size)).flatMap (v.issuances x)

/-- What issues in a cycle issues in its issue stage, lane by lane. -/
theorem issuancesInCycle_eq {running : Running} {w v x : Window M} {event event' : Time}
    (dispatched : dispatch running w = .ok event v) (issued : issue v = .ok event' x) :
    issuancesInCycle running w = (v.rotation (v.issueTurn % v.lanes.size)).flatMap (v.issuances x) := by
  unfold issuancesInCycle
  rw [dispatched]
  dsimp only
  rw [issued]

/-- What issues in a call of `w`. -/
def Call.issuances (stride : Stride M) : Call M → (w : Window M) → List Issuance
  | .execute running, w => (cycles stride running lastCycles w).flatMap (issuancesInCycle running)
  | _, _ => []

end Window

namespace Chronicle

variable {M : Type} [MemorySystem M]

/-- What issues in a series of calls. -/
def issuances (stride : Window.Stride M) (c : Chronicle M) : List (Window.Call M) → List Issuance
  | [] => []
  | call :: calls =>
    call.issuances stride c.window ++
      match c.after stride call with
      | .ok c' => issuances stride c' calls
      | .error _ => []

/-- What issues in a series of calls of a new window. -/
def issueLog (stride : Window.Stride M) (config : Config) (calls : List (Window.Call M)) : List Issuance :=
  match Window.new config with
  | .ok window => issuances stride { window } calls
  | .error _ => []

end Chronicle

/-! ## Section 2: A turn of a thread -/

namespace Entry

variable {e e' e'' : Entry}

/-- The entry `e'` is `e` later on.  If `e` had a result, it is on record under the same issuance. -/
structure Lasts (e e' : Entry) : Prop where
  /-- It is the same micro-op. -/
  op_eq : e'.u.op = e.u.op
  /-- A result does not get lost. -/
  done : e.done ≠ .never → e'.done ≠ .never
  /-- What has issued has issued as it has. -/
  issuance_eq : e.done ≠ .never → ∀ i period, e'.issuance i period = e.issuance i period

theorem Lasts.refl (e : Entry) : e.Lasts e := ⟨rfl, id, fun _ _ _ => rfl⟩

theorem Lasts.trans (h : e.Lasts e') (h' : e'.Lasts e'') : e.Lasts e'' :=
  ⟨h'.op_eq.trans h.op_eq, fun done => h'.done (h.done done),
    fun done i period => (h'.issuance_eq (h.done done) i period).trans (h.issuance_eq done i period)⟩

theorem Stands.lasts (h : e.Stands e') (seq : e'.seq = e.seq) : e.Lasts e' := by
  refine ⟨h.op_eq, fun done => h.done_eq ▸ done, fun done i period => ?_⟩
  unfold issuance drained
  rw [seq, h.op_eq, h.issued_eq, h.latency_eq done]

theorem SamePoint.lasts (h : e.SamePoint e') (latency : e.Lengthens e') : e.Lasts e' := by
  refine (h.stands latency).lasts ?_
  rw [h]
  rfl

theorem Woken.lasts {seq : Nat} {done : Time} (h : e.Woken seq done e') : e.Lasts e' := by
  refine Stands.lasts ⟨?_, ?_, ?_, fun _ => ?_⟩ h.seq_eq
  all_goals rw [h.frame]

/-- A store has not drained before the next cycle. -/
theorem lt_drained {clock : Clock} (intime : clock.now ≠ .never) (now : e.issued = clock.now) :
    clock.now < e.drained clock.period := by
  have long := clock.period.length_pos
  have finite := Time.toNat_lt_limit intime
  unfold drained
  rw [now, Time.lt_iff_toNat_lt, Time.toNat_add, Time.toNat_add]
  omega

end Entry

namespace Account

variable {config : Config} {a b c : Account} {e x : Entry} {drained drained' drained'' : Time} {i j k l m n : Nat}

/-- On the way from `a` to `b` the entry at position `k`, which is `x` then, has issued. -/
def IssuesAt (a b : Account) (k : Nat) (x : Entry) : Prop :=
  ∃ y, a.entries[k]? = some y ∧ y.done = .never ∧ b.entries[k]? = some x ∧ x.done ≠ .never

/-- In a turn of the thread, which has led from `a` to `b`, entries from position `n` up to position `m` have
issued in order; `drained` and `drained'` are when the last store has drained that had issued on the core before
and after the turn. -/
structure Turned (drained drained' : Time) (n m : Nat) (a b : Account) : Prop where
  /-- The clock stands still. -/
  clock : b.clock = a.clock
  /-- Nothing leaves. -/
  retired : b.retired = a.retired
  /-- Stores drain no earlier. -/
  later : drained ≤ drained'
  /-- What had a result before is as it was. -/
  lasts : Pointwise Entry.Lasts a.entries b.entries
  /-- What issues does so within these bounds. -/
  within : ∀ k x, IssuesAt a b k x → n ≤ k ∧ k < m
  /-- It issues now. -/
  now : ∀ k x, IssuesAt a b k x → x.issued = a.clock.now
  /-- Stores are taken into account. -/
  stores : ∀ k x, IssuesAt a b k x → x.u.op.isStore = true → x.drained a.clock.period ≤ drained'
  /-- A serializing entry issues when all stores have drained. -/
  settled : ∀ k x, IssuesAt a b k x → x.u.op.serializing = true → drained ≤ a.clock.now
  /-- Unless time is up, no store issues before it in the same turn. -/
  alone : a.clock.now ≠ .never → ∀ j k y x, IssuesAt a b j y → IssuesAt a b k x → j < k →
    x.u.op.serializing = true → y.u.op.isStore = false

theorem turned_quiet (drained : Time) (n m : Nat) (quiet : Quiet a b) : Turned drained drained n m a b := by
  have nothing : ∀ k x, ¬IssuesAt a b k x := by
    rintro k x ⟨y, hy, waiting, hx, done⟩
    obtain ⟨z, hz, point⟩ := quiet.entries.right hx
    rw [hy] at hz
    cases hz
    rw [point] at done
    exact done waiting
  refine ⟨quiet.same.clock, quiet.same.retired, le_refl _, fun k => ?_,
    fun k x issues => absurd issues (nothing k x), fun k x issues => absurd issues (nothing k x),
    fun k x issues => absurd issues (nothing k x), fun k x issues => absurd issues (nothing k x),
    fun _ j k y x issues => absurd issues (nothing j y)⟩
  exact rel_mono (fun _ _ same => same.1.lasts same.2) (rel_and (quiet.entries k) (quiet.latencies k))

theorem Turned.widen {n' m' : Nat} (h : Turned drained drained' n m a b) (le : n' ≤ n) (le' : m ≤ m') :
    Turned drained drained' n' m' a b :=
  { h with within := fun k x issues => (h.within k x issues).imp (le_trans le) fun lt => lt_of_lt_of_le lt le' }

theorem turned_refl (drained : Time) (n m : Nat) (a : Account) : Turned drained drained n m a a :=
  turned_quiet drained n m (quiet_of_sameFlow (.refl a.thread))

/-- A single entry issues. -/
theorem turned_issue {done : Time} (issues : Issues a b k e done)
    (settled : e.u.op.serializing = true → drained ≤ a.clock.now) :
    Turned drained (e.drainedFrom drained a.clock) k (k + 1) a b := by
  -- waking the consumers gives none of them a result, so nothing else issues in this step
  have only : ∀ m x, IssuesAt a b m x → m = k := by
    rintro m x ⟨y, hy, waiting, hx, done⟩
    by_contra other
    obtain ⟨-, y', hy', woken⟩ := (issues.entry_before hx).resolve_left fun here => other here.1
    rw [hy] at hy'
    cases hy'
    rw [woken.frame] at done
    exact done waiting
  have itself : ∀ m x, IssuesAt a b m x → x.u.op = e.u.op ∧ x.issued = a.clock.now ∧
      x.u.latency = e.u.latency := by
    intro m x at_m
    obtain rfl := only m x at_m
    obtain ⟨-, -, -, hx, -⟩ := at_m
    obtain ⟨x', hx', woken⟩ := issues.exists_issued
    rw [hx] at hx'
    cases hx'
    refine ⟨?_, ?_, ?_⟩
    all_goals rw [woken.frame]
  have issued : Entry.Lasts e { e with issued := a.clock.now, done } :=
    ⟨rfl, fun result => absurd issues.waiting result, fun result => absurd issues.waiting result⟩
  refine ⟨issues.same.clock, issues.same.retired, e.le_drainedFrom _ _, ?_, fun m x at_m => ?_,
    fun m x at_m => (itself m x at_m).2.1, fun m x at_m store => ?_,
    fun m x at_m kind => settled ((itself m x at_m).1 ▸ kind), fun _ j m y x at_j at_m before => ?_⟩
  · have first : Pointwise Entry.Lasts a.entries (a.entries.set k { e with issued := a.clock.now, done }) :=
      .set Entry.Lasts.refl issues.entry issued
    exact first.trans (fun _ _ _ => .trans) (issues.woken.mono fun _ _ => Entry.Woken.lasts)
  · have := only m x at_m
    omega
  · obtain ⟨op, now, latency⟩ := itself m x at_m
    rw [op] at store
    unfold Entry.drained Entry.drainedFrom
    rw [now, latency, if_pos store]
    exact le_max_right _ _
  · have := only j y at_j
    have := only m x at_m
    omega

/-- What issues on the way from `a` to `c` does so on the way to `b` or on the way from there. -/
theorem IssuesAt.split (h : IssuesAt a c k x) (second : Pointwise Entry.Lasts b.entries c.entries) :
    (∃ x', IssuesAt a b k x' ∧ x'.Lasts x) ∨ IssuesAt b c k x := by
  obtain ⟨y, hy, waiting, hx, done⟩ := h
  obtain ⟨z, hz, lasts⟩ := second.right hx
  by_cases result : z.done = .never
  · exact .inr ⟨z, hz, result, hx, done⟩
  · exact .inl ⟨z, ⟨y, hy, waiting, hz, result⟩, lasts⟩

theorem Turned.trans (h : Turned drained drained' n m a b) (h' : Turned drained' drained'' m l b c)
    (le : n ≤ m) (le' : m ≤ l) : Turned drained drained'' n l a c := by
  -- what has issued on the way to `b` is as it was then
  have same : ∀ {k : Nat} {x' x : Entry}, IssuesAt a b k x' → x'.Lasts x → x.u.op = x'.u.op ∧
      x.issued = x'.issued ∧ x.drained a.clock.period = x'.drained a.clock.period := by
    intro k x' x issues lasts
    obtain ⟨-, -, -, -, done⟩ := issues
    have eq := lasts.issuance_eq done 0 a.clock.period
    exact ⟨lasts.op_eq, congrArg Issuance.time eq, congrArg Issuance.drained eq⟩
  refine ⟨h'.clock.trans h.clock, h'.retired.trans h.retired, le_trans h.later h'.later,
    h.lasts.trans (fun _ _ _ => .trans) h'.lasts, fun k x issues => ?_, fun k x issues => ?_,
    fun k x issues store => ?_, fun k x issues kind => ?_,
    fun intime j k y x earlier issues before kind => ?_⟩
  · rcases issues.split h'.lasts with ⟨x', issued, -⟩ | issued
    · have := h.within k x' issued
      omega
    · have := h'.within k x issued
      omega
  · rcases issues.split h'.lasts with ⟨x', issued, lasts⟩ | issued
    · rw [(same issued lasts).2.1]
      exact h.now k x' issued
    · rw [← h.clock]
      exact h'.now k x issued
  · rcases issues.split h'.lasts with ⟨x', issued, lasts⟩ | issued
    · obtain ⟨op, -, drains⟩ := same issued lasts
      rw [drains]
      exact le_trans (h.stores k x' issued (op ▸ store)) h'.later
    · rw [← h.clock]
      exact h'.stores k x issued store
  · rcases issues.split h'.lasts with ⟨x', issued, lasts⟩ | issued
    · exact h.settled k x' issued ((same issued lasts).1 ▸ kind)
    · rw [← h.clock]
      exact le_trans h.later (h'.settled k x issued kind)
  · rcases earlier.split h'.lasts with ⟨y', first, lasts⟩ | first
    · rcases issues.split h'.lasts with ⟨x', issued, lasts'⟩ | issued
      · rw [(same first lasts).1]
        exact h.alone intime j k y' x' first issued before ((same issued lasts').1 ▸ kind)
      · -- a store that has just issued would not have drained
        by_contra store
        rw [Bool.not_eq_false, (same first lasts).1] at store
        have late : a.clock.now < y'.drained a.clock.period := Entry.lt_drained intime (h.now j y' first)
        have settled := h'.settled k x issued kind
        rw [h.clock] at settled
        exact absurd (le_trans (h.stores j y' first store) settled) (not_le.mpr late)
    · rcases issues.split h'.lasts with ⟨x', issued, -⟩ | issued
      · have := h.within k x' issued
        have := h'.within j y first
        omega
      · exact h'.alone (h.clock ▸ intime) j k y x first issued before kind

/-! ## Section 3: What a turn adds to the log -/

end Account

theorem Entry.issuance?_eq_some_iff {i : Nat} {period : Period} {e e' : Entry} {s : Issuance} :
    e.issuance? i period e' = some s ↔ e.done = .never ∧ e'.done ≠ .never ∧ e'.issuance i period = s := by
  simp [issuance?, isDone, Time.isNever, and_assoc]

namespace Account

variable {a : Account} {th : Thread} {drained drained' : Time} {i k n m : Nat} {period : Period} {x : Entry}
  {s : Issuance}

/-- What is on record of the pair at position `k` of the ring is what has issued there. -/
theorem issuesAt_of_zip {p : Entry × Entry} (entries : (a.thread.ring.toList.zip th.ring.toList)[k]? = some p)
    (issues : p.1.issuance? i period p.2 = some s) :
    IssuesAt a (a.withThread th) (a.retired.length + k) p.2 ∧ p.2.issuance i period = s := by
  obtain ⟨first, second⟩ := List.getElem?_zip_eq_some.mp entries
  obtain ⟨waiting, done, same⟩ := Entry.issuance?_eq_some_iff.mp issues
  refine ⟨⟨p.1, ?_, waiting, ?_, done⟩, same⟩
  · rw [entries_add]
    exact first
  · rw [entries_withThread_of_le _ (Nat.le_add_right _ _), Nat.add_sub_cancel_left]
    exact second

theorem exists_issuesAt (mem : s ∈ a.thread.issuances i period th) :
    ∃ k x, IssuesAt a (a.withThread th) k x ∧ x.issuance i period = s := by
  obtain ⟨p, mem, issues⟩ := List.mem_filterMap.mp mem
  obtain ⟨k, entries⟩ := List.getElem?_of_mem mem
  exact ⟨_, _, issuesAt_of_zip entries issues⟩

/-- What has issued is on record. -/
theorem IssuesAt.mem_issuances (h : IssuesAt a (a.withThread th) k x) (i : Nat) (period : Period) :
    x.issuance i period ∈ a.thread.issuances i period th := by
  obtain ⟨y, hy, waiting, hx, done⟩ := h
  by_cases left : k < a.retired.length
  · rw [entries_withThread_of_lt th left, hy] at hx
    cases hx
    exact absurd waiting done
  · rw [not_lt] at left
    rw [entries_of_le left] at hy
    rw [entries_withThread_of_le th left] at hx
    exact List.mem_filterMap.mpr ⟨(y, x), List.mem_of_getElem? (List.getElem?_zip_eq_some.mpr ⟨hy, hx⟩),
      Entry.issuance?_eq_some_iff.mpr ⟨waiting, done, rfl⟩⟩

/-- Where nothing has happened, nothing has issued. -/
theorem issuances_self (i : Nat) (period : Period) (th : Thread) : th.issuances i period th = [] := by
  refine List.filterMap_eq_nil_iff.mpr fun p mem => ?_
  obtain ⟨k, entries⟩ := List.getElem?_of_mem mem
  obtain ⟨first, second⟩ := List.getElem?_zip_eq_some.mp entries
  have same : p.1 = p.2 := Option.some.inj (first.symm.trans second)
  simp [Entry.issuance?, same]

/-- No store issues before a serializing entry in the same turn. -/
theorem Turned.pairwise (h : Turned drained drained' n m a (a.withThread th)) (intime : a.clock.now ≠ .never)
    (i : Nat) (period : Period) : (a.thread.issuances i period th).Pairwise Issuance.Clears := by
  unfold Thread.issuances
  rw [List.pairwise_filterMap, List.pairwise_iff_getElem]
  intro j k hj hk before s issues z issues' store kind
  obtain ⟨at_j, rfl⟩ := issuesAt_of_zip (List.getElem?_eq_getElem hj) issues
  obtain ⟨at_k, rfl⟩ := issuesAt_of_zip (List.getElem?_eq_getElem hk) issues'
  have alone := h.alone intime _ _ _ _ at_j at_k (by omega) kind
  exact absurd (alone.symm.trans store) Bool.false_ne_true

end Account

/-! ## Section 4: Chronicles with their logs -/

namespace Chronicle

variable {M : Type} [MemorySystem M] {config : Config} {stride : Window.Stride M} {c : Chronicle M}
  {P : List Issuance → Chronicle M → Prop}

/-- The issue log is what is seen of the cycles by an observer of what issues in them. -/
theorem issueLog_eq (calls : List (Window.Call M)) :
    issueLog stride config calls = record stride Window.issuancesInCycle config calls := by
  have call_eq (call : Window.Call M) (w : Window M) :
      call.issuances stride w = call.record stride Window.issuancesInCycle w := by
    cases call
    all_goals rfl
  have from_eq (c : Chronicle M) : c.issuances stride calls = c.recordFrom stride Window.issuancesInCycle calls := by
    induction calls generalizing c with
    | nil => rfl
    | cons call others ih =>
      rw [issuances, recordFrom, call_eq]
      cases c.after stride call with
      | ok c' =>
        dsimp only
        rw [ih]
      | error f => rfl
  unfold issueLog record
  cases Window.new config with
  | ok w => exact from_eq _
  | error f => rfl

/-- What holds of a new window and the empty log, and goes on to hold with every cycle and every other call, holds of
every chronicle and its issue log. -/
theorem induction_log
    (cycle : ∀ {log : List Issuance} {c : Chronicle M} {running : Running} {v : Window M}, P log c →
      Window.cycle stride running c.window = .ok () v → P (log ++ Window.issuancesInCycle running c.window)
        { c with
          window := v
          retired := fun i => c.retired i ++ Window.leavingInCycle running i c.window })
    (other : ∀ {log : List Issuance} {c c' : Chronicle M} {call : Window.Call M}, P log c → Truthful config c →
      (∀ running, call ≠ .execute running) → c.after stride call = .ok c' → P log c')
    (new : ∀ w, Window.new config = .ok w → P [] { window := w }) {calls : List (Window.Call M)}
    (made : of stride config calls = .ok c) : P (issueLog stride config calls) c := by
  rw [issueLog_eq]
  exact induction_record (P := P) cycle other new made

end Chronicle

end CoreTiming
