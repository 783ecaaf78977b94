import CoreTiming.Proofs.Positions

/-!
# Starting over behind a branch

When a branch that was predicted wrongly leaves, everything behind it goes back to the buffer and the
front end is held up for the penalty.  This module follows a thread from there: `Account.Behind` says
that whatever has left since then entered the window after the penalty and under a new number, and that
the same goes for what is in the window now.  Each move of the thread keeps it; it begins with the
flush, however far dispatch and issue had come.
-/

namespace CoreTiming

open Faulting

/-! ## Section 1: What a flush leaves behind -/

/-- Nothing is on record about the passage of the entry, and it is linked to no other. -/
structure Entry.Pristine (e : Entry) : Prop where
  /-- It has not entered the window. -/
  dispatched : e.dispatched = .never
  /-- It is not known when it may issue. -/
  ready : e.ready = .never
  /-- It knows of no result. -/
  readyMax : e.readyMax = 0
  /-- If it is a store, its address is not known. -/
  addressReady : e.addressReady = .never
  /-- Nor any part of it. -/
  addressReadyMax : e.addressReadyMax = 0
  /-- It has not issued. -/
  issued : e.issued = .never
  /-- It has no result. -/
  done : e.done = .never
  /-- It waits for nobody. -/
  producers : e.u.producers = .empty
  /-- Nobody waits for it. -/
  dependants : e.dependants = .empty
  /-- Nor does its address wait for anybody. -/
  addressProducers : e.addressProducers = .empty

theorem Entry.pristine_restart (e : Entry) (seq : Nat) : (e.restart seq).Pristine :=
  ⟨rfl, rfl, rfl, rfl, rfl, rfl, rfl, rfl, rfl, rfl⟩

namespace Thread

variable {clock : Clock} {th th' : Thread} {penalty : Nat}

/-- The thread has just started over under the numbers from `n` on. -/
structure Flushed (clock : Clock) (penalty n : Nat) (th : Thread) : Prop where
  /-- Every entry is as if it had just been pushed. -/
  pristine : ∀ e ∈ th.ring.toList, e.Pristine
  /-- The window is empty. -/
  inWindow : th.inWindow = 0
  /-- No register has a writer. -/
  registers : th.registers = .empty
  /-- No store is in flight. -/
  stores : th.stores.stores.toList = []
  /-- No fence is. -/
  fence : th.stores.fence = none
  /-- The numbers in the ring begin with `n`. -/
  base : th.base = n
  /-- The front end is held up for the penalty. -/
  stalledUntil : th.stalledUntil = clock.afterCycles penalty

theorem flushed_flush (h : th.flush clock penalty = .ok th') :
    th'.Flushed clock penalty th.nextSeq := by
  obtain ⟨ring, nextSeq, -, frame⟩ := flush_eq_ok h
  have stalledUntil : th'.stalledUntil = clock.afterCycles penalty := by
    unfold flush at h
    obtain ⟨_, -, made⟩ := Except.bind_eq_ok.mp h
    cases made
    rfl
  refine
    { pristine := ?_, inWindow := ?_, registers := ?_, stores := ?_, fence := ?_, base := ?_,
      stalledUntil := stalledUntil }
  · intro e mem
    rw [ring, List.mem_mapIdx] at mem
    obtain ⟨i, inside, rfl⟩ := mem
    exact Entry.pristine_restart _ _
  · rw [frame]
  · rw [frame]
  · rw [frame]
    exact Ring.toList_clear _
  · rw [frame]
    rfl
  · have length : th'.ring.length = th.ring.length := by
      rw [← Ring.length_toList, ring, List.length_mapIdx, Ring.length_toList]
    unfold base
    omega

/-- If the last entry that leaves in a commit stage is a branch that was predicted wrongly, the thread
starts over. -/
theorem flushed_commit {keepLog : Bool} {width freed : Nat} {branch : Retirement}
    (h : commit clock penalty keepLog width th = .ok freed th')
    (last : (th.leaving clock.now width).getLast? = some branch)
    (flushes : branch.entry.flushes = true) : th'.Flushed clock penalty th.nextSeq := by
  induction width generalizing th with
  | zero =>
    unfold leaving leavingAmong at last
    cases last
  | succ width ih =>
    cases departure_of_commit h with
    | empty nothing =>
      rw [leaving_of_empty nothing] at last
      cases last
    | early oldest early =>
      rw [leaving_of_early oldest early] at last
      cases last
    | flush _ _ _ flushed =>
      have started := flushed_flush flushed
      exact started
    | @leave e _ _ oldest done stays rest =>
      rw [leaving_of_done oldest done keepLog, if_neg (ne_true_of_eq_false stays)] at last
      have later : ((th.retire keepLog clock.now e).leaving clock.now width).getLast? = some branch := by
        cases more : (th.retire keepLog clock.now e).leaving clock.now width with
        | nil =>
          -- an entry behind which nothing else leaves is the last one, but no such branch
          rw [more, List.getLast?_singleton, Option.some.injEq] at last
          rw [← last, stays] at flushes
          cases flushes
        | cons r rs =>
          rw [more, List.getLast?_cons_cons] at last
          exact last
      have started := ih rest later
      exact started

end Thread

/-! ## Section 2: Behind the branch -/

namespace Account

variable {config : Config} {a b : Account} {bound : Time} {n left : Nat}

/-- What stands at position `left` or behind has not entered the window before `bound`, nor under a
lower number than `n`. -/
structure Late (bound : Time) (n left : Nat) (a : Account) : Prop where
  /-- All that was in front has left. -/
  left_le : left ≤ a.retired.length
  /-- What has entered the window has done so late. -/
  dispatched : ∀ k e, left ≤ k → k < a.edge → a.entries[k]? = some e → bound ≤ e.dispatched
  /-- Numbers begin late in the ring. -/
  base : n ≤ a.thread.base
  /-- What has left had such a number. -/
  numbered : ∀ k e, left ≤ k → k < a.retired.length → a.entries[k]? = some e → n ≤ e.seq

/-- As long as the penalty lasts the window stays empty; what enters it later comes late. -/
structure Behind (bound : Time) (n left : Nat) (a : Account) : Prop where
  /-- The penalty is over, or the front end is held up in front of an empty window. -/
  held : bound ≤ a.clock.now ∨ a.thread.inWindow = 0 ∧ bound ≤ a.thread.stalledUntil
  /-- Nothing has come early. -/
  late : a.Late bound n left

theorem Late.of_pointwise (h : a.Late bound n left) (retired : b.retired = a.retired)
    (edge : b.edge = a.edge) (base : b.thread.base = a.thread.base)
    (entries : Pointwise (fun e e' => e'.seq = e.seq ∧ e'.dispatched = e.dispatched) a.entries b.entries) :
    b.Late bound n left := by
  refine ⟨retired ▸ h.left_le, fun k e' hk inside at_k => ?_, base ▸ h.base, fun k e' hk gone at_k => ?_⟩
  · obtain ⟨e, at_k, -, same⟩ := entries.right at_k
    rw [same]
    exact h.dispatched k e hk (edge ▸ inside) at_k
  · obtain ⟨e, at_k, same, -⟩ := entries.right at_k
    rw [same]
    exact h.numbered k e hk (retired ▸ gone) at_k

/-- An entry that issues has entered the window before. -/
theorem Late.issue {k : Nat} {e : Entry} {done : Time} (h : a.Late bound n left)
    (issues : Issues a b k e done) : b.Late bound n left := by
  refine h.of_pointwise issues.same.retired issues.same.edge_eq issues.same.base ?_
  have started : Pointwise (fun e e' : Entry => e'.seq = e.seq ∧ e'.dispatched = e.dispatched) a.entries
      (a.entries.set k { e with issued := a.clock.now, done }) :=
    .set (fun _ => ⟨rfl, rfl⟩) issues.entry ⟨rfl, rfl⟩
  refine started.trans ?_ (issues.woken.mono fun x x' woken => ⟨woken.seq_eq, ?_⟩)
  · exact fun _ _ _ first second => ⟨second.1.trans first.1, second.2.trans first.2⟩
  · rw [woken.frame]

/-- What enters the window once it may comes late enough. -/
theorem Late.enter {e e' : Entry} {th : Thread} (h : a.Late bound n left) (due : bound ≤ a.clock.now)
    (enters : Enters config a b e e' th) : b.Late bound n left := by
  refine ⟨enters.retired ▸ h.left_le, fun k x hk inside at_k => ?_, enters.base ▸ h.base,
    fun k x hk gone at_k => ?_⟩
  · by_cases here : k = a.edge
    · rw [here, enters.entered] at at_k
      cases at_k
      exact due
    · rw [enters.edge_eq] at inside
      obtain ⟨y, at_k, listed⟩ := rel_right (enters.others k here) at_k
      rw [listed.frame]
      exact h.dispatched k y hk (by omega) at_k
  · rw [enters.retired] at gone
    rw [enters.left k gone] at at_k
    exact h.numbered k x hk gone at_k

/-- What leaves has entered the window late, and had a number from the ring. -/
theorem Late.release {e : Entry} (h : a.Late bound n left) (order : InOrder config a)
    (oldest : a.thread.oldest? = some e) : (a.release config e).Late bound n left := by
  have base := order.base_release oldest
  have length := length_release config a e
  refine ⟨?_, fun k x hk inside at_k => ?_, ?_, fun k x hk gone at_k => ?_⟩
  · have := h.left_le
    omega
  · rw [edge_release oldest] at inside
    rw [entries_release config oldest] at at_k
    exact h.dispatched k x hk inside at_k
  · have := h.base
    omega
  · rw [entries_release config oldest] at at_k
    by_cases before : k < a.retired.length
    · exact h.numbered k x hk before at_k
    · rw [order.seq_of_le (by omega) at_k]
      have := h.base
      omega

/-- Another flush gives out still higher numbers. -/
theorem Late.flush {th : Thread} {penalty : Nat} (h : a.Late bound n left)
    (flushed : a.thread.flush a.clock penalty = .ok th) : (a.withThread th).Late bound n left := by
  have restarts := restarts_of_flush flushed
  have same : ∀ k, k < a.retired.length → (a.withThread th).entries[k]? = a.entries[k]? := restarts.left
  refine ⟨h.left_le, fun k x hk inside at_k => ?_, ?_, fun k x hk gone at_k => ?_⟩
  · rw [restarts.edge_eq] at inside
    rw [same k inside] at at_k
    refine h.dispatched k x hk ?_ at_k
    unfold edge
    omega
  · show n ≤ th.base
    rw [(Thread.flushed_flush flushed).base]
    exact le_trans h.base (Nat.sub_le _ _)
  · rw [same k gone] at at_k
    exact h.numbered k x hk gone at_k

/-- On a drift nothing enters the window. -/
theorem Late.drift (h : a.Late bound n left) (order : InOrder config a) (drift : Drift config a b) :
    b.Late bound n left := by
  cases drift with
  | keep same =>
    have quiet := quiet_of_sameFlow same
    refine h.of_pointwise rfl quiet.same.edge_eq quiet.same.base (quiet.entries.mono fun x x' point => ?_)
    rw [point]
    exact ⟨rfl, rfl⟩
  | push same pushed =>
    have takes := takes_of_enqueue order same pushed
    have old : ∀ k, k < a.edge → k < a.entries.length := fun k inside => lt_of_lt_of_le inside order.edge_le
    refine ⟨h.left_le, fun k x hk inside at_k => ?_, takes.base ▸ h.base, fun k x hk gone at_k => ?_⟩
    · rw [takes.edge_eq] at inside
      rw [takes.entries, List.getElem?_append_left (old k inside)] at at_k
      exact h.dispatched k x hk inside at_k
    · have inside : k < a.edge := by
        unfold edge
        have : k < a.retired.length := gone
        omega
      rw [takes.entries, List.getElem?_append_left (old k inside)] at at_k
      exact h.numbered k x hk gone at_k
  | retire oldest => exact h.release order oldest
  | flush oldest _ _ flushed => exact (h.release order oldest).flush flushed
  | tick period later => exact ⟨h.left_le, h.dispatched, h.base, h.numbered⟩

/-- Once the penalty is over, nothing comes early any more. -/
theorem Late.step (h : a.Late bound n left) (order : InOrder config a) (due : bound ≤ a.clock.now)
    (step : Step config a b) : b.Late bound n left := by
  cases step with
  | work work =>
    cases moves_of_work work with
    | quiet same entries latencies =>
      refine h.of_pointwise same.retired same.edge_eq same.base (entries.mono fun x x' point => ?_)
      rw [point]
      exact ⟨rfl, rfl⟩
    | enter enters => exact h.enter due enters
    | issue issues => exact h.issue issues
  | push same pushed => exact h.drift order (.push same pushed)
  | retire oldest done stays => exact h.drift order (.retire oldest done stays)
  | flush oldest done flushes flushed => exact h.drift order (.flush oldest done flushes flushed)
  | tick period later => exact h.drift order (.tick period later)

theorem Step.clock_le (step : Step config a b) : a.clock.now ≤ b.clock.now := by
  cases step with
  | tick period later => exact later
  | work | push | retire | flush => exact le_refl _

/-- The invariant holds of any thread that has just started over. -/
theorem behind_of_flushed {penalty : Nat} (flushed : a.thread.Flushed a.clock penalty n) :
    a.Behind (a.clock.afterCycles penalty) n a.retired.length := by
  refine ⟨.inr ⟨flushed.inWindow, le_of_eq flushed.stalledUntil.symm⟩, le_refl _, fun k e hk inside => ?_,
    le_of_eq flushed.base.symm, fun k e hk gone => ?_⟩
  · unfold edge at inside
    rw [flushed.inWindow] at inside
    omega
  · omega

theorem Behind.steps (h : a.Behind bound n left) (reached : Reachable config a)
    (due : bound ≤ a.clock.now) (steps : Steps config a b) : b.Behind bound n left := by
  suffices bound ≤ b.clock.now ∧ b.Late bound n left from ⟨.inl this.1, this.2⟩
  induction steps with
  | refl => exact ⟨due, h.late⟩
  | tail before step ih =>
    obtain ⟨due, late⟩ := ih
    exact ⟨le_trans due step.clock_le, late.step (reached.steps before).inOrder due step⟩

/-- A drift that leaves the front end held up in front of an empty window. -/
theorem Behind.drift (h : a.Behind bound n left) (reached : Reachable config a) (drift : Drift config a b)
    (inWindow : b.thread.inWindow = a.thread.inWindow)
    (stalledUntil : b.thread.stalledUntil = a.thread.stalledUntil) : b.Behind bound n left := by
  refine ⟨h.held.imp (fun due => le_trans due drift.step.clock_le) fun held => ?_,
    h.late.drift reached.inOrder drift⟩
  rw [inWindow, stalledUntil]
  exact held

/-- Every move of the thread keeps the invariant: while the front end is held up nothing can be
dispatched, and in an empty window nothing can issue or leave. -/
theorem Behind.move (h : a.Behind bound n left) (reached : Reachable config a) (move : Move config a b) :
    b.Behind bound n left := by
  rcases h.held with due | ⟨empty, held⟩
  · exact h.steps reached due move.steps
  · have kept : ∀ {a b : Account}, a.Behind bound n left → Reachable config a → a.thread.SameFlow b.thread →
        b = a.withThread b.thread → b.thread.stalledUntil = a.thread.stalledUntil → b.Behind bound n left := by
      intro a b h reached same frame stalledUntil
      rw [frame]
      exact h.drift reached (.keep same) same.inWindow stalledUntil
    cases move with
    | beat beat =>
      cases beat with
      | @dispatch th admitted =>
        cases admitted with
        | begin => exact kept h reached ⟨rfl, rfl, rfl, rfl, rfl, rfl, rfl⟩ rfl rfl
        | attempt awake tried =>
          -- the front end is up again, so the penalty is over
          have due : bound ≤ a.clock.now := le_trans held awake
          exact h.steps reached due (Beat.dispatch (.attempt awake tried)).steps
        | blame cause => exact kept h reached ⟨rfl, rfl, rfl, rfl, rfl, rfl, rfl⟩ rfl rfl
      | issue fired =>
        cases fired with
        | issue inside =>
          rw [empty] at inside
          exact absurd inside (Nat.not_lt_zero _)
        | account cutoff k =>
          refine kept h reached (Thread.sameFlow_accountLongLoad _ _ _ _) rfl ?_
          show (Thread.accountLongLoad _ _ _ _).stalledUntil = _
          unfold Thread.accountLongLoad
          split
          · rfl
          · split
            · rfl
            · rfl
        | look event => exact kept h reached ⟨rfl, rfl, rfl, rfl, rfl, rfl, rfl⟩ rfl rfl
      | leave left =>
        cases left with
        | retire oldest | flush oldest =>
          have inside := (Thread.oldest?_eq_some oldest).1
          rw [empty] at inside
          exact absurd inside (Nat.lt_irrefl _)
      | advance histogram span =>
        have charged : (a.withThread (a.thread.charge histogram a.clock.now span)).Behind bound n left :=
          kept h reached ⟨rfl, rfl, rfl, rfl, rfl, rfl, rfl⟩ rfl rfl
        refine charged.drift (reached.step (.work (.keep ⟨rfl, rfl, rfl, rfl, rfl, rfl, rfl⟩)))
          (.tick rfl (Time.le_add_right _ _)) rfl rfl
    | contact contacted =>
      cases contacted with
      | push same pushed =>
        have frame := (Window.enqueue_eq_ok pushed).1
        refine h.drift reached (.push same pushed) ?_ ?_
        · rw [frame]
        · rw [frame]
      | tell now reported endOfStream =>
        exact kept h reached ⟨rfl, rfl, rfl, rfl, rfl, rfl, rfl⟩ rfl rfl

end Account

/-! ## Section 3: Into a run and out of it -/

namespace Window

variable {M : Type} [MemorySystem M] {w v x : Window M}

/-- A run gets to its first cycle at once, and to the later ones by way of it. -/
theorem run_at_first {stride : Stride M} {running : Running} {grace : Nat} {ws ws' : List (Window M)}
    {y : Window M} (ran : cycle stride running w = .ok () y) (h : run stride running grace y = .ok () v)
    (split : w :: cycles stride running grace y = ws ++ x :: ws')
    (later : ∀ {ws : List (Window M)}, run stride running grace y = .ok () v →
      cycles stride running grace y = ws ++ x :: ws' →
      Leads Account.Beat noPushes (fun j => ws.flatMap (leavingInCycle running j)) y x ∧
      ∃ (rest : Nat) (z : Window M), cycle stride running x = .ok () z ∧
        run stride running rest z = .ok () v ∧ cycles stride running rest z = ws') :
    Leads Account.Beat noPushes (fun j => ws.flatMap (leavingInCycle running j)) w x ∧
    ∃ (rest : Nat) (z : Window M), cycle stride running x = .ok () z ∧
      run stride running rest z = .ok () v ∧ cycles stride running rest z = ws' := by
  cases ws with
  | nil =>
    obtain ⟨rfl, rest⟩ := List.cons.inj split
    exact ⟨.refl _, grace, y, ran, h, rest⟩
  | cons first ws =>
    obtain ⟨rfl, rest⟩ := List.cons.inj split
    obtain ⟨leads, goesOn⟩ := later h rest
    refine ⟨((leads_cycle ran).trans leads).congr rfl ?_, goesOn⟩
    funext j
    exact List.flatMap_cons

/-- A run gets to each of its cycles, makes it, and goes on from there. -/
theorem run_at_cycle {stride : Stride M} {running : Running} {grace : Nat} {ws ws' : List (Window M)}
    (h : run stride running grace w = .ok () v)
    (split : cycles stride running grace w = ws ++ x :: ws') :
    Leads Account.Beat noPushes (fun j => ws.flatMap (leavingInCycle running j)) w x ∧
    ∃ (rest : Nat) (y : Window M), cycle stride running x = .ok () y ∧
      run stride running rest y = .ok () v ∧ cycles stride running rest y = ws' := by
  fun_induction run stride running grace w generalizing ws with
  | case1 grace w can f u ran => cases h
  | case2 grace w can y ran later ih =>
    rw [cycles] at split
    simp only [can, ran, later, if_true] at split
    exact run_at_first ran h split ih
  | case3 => cases h
  | case4 w can y ran later grace ih =>
    rw [cycles] at split
    simp only [can, ran, later, if_true, if_false] at split
    exact run_at_first ran h split ih
  | case5 grace w stop =>
    rw [cycles] at split
    simp [stop] at split

/-- In the cycle that begins with `w`, the turn of lane `i` in the commit stage leads from `before` to
`after`.  The last entry that leaves in that turn is `branch`, which was predicted wrongly. -/
structure StartsOver (running : Running) (i : Nat) (w before : Window M) (branch : Retirement)
    (after : Window M) : Prop where
  /-- Dispatch, issue and the turns of the lanes in front lead to the turn. -/
  upToTurn : (do
    let _ ← dispatch running
    let _ ← issue
    (List.range i).forM commitLane : Faulting (Window M) Unit) w = .ok () before
  /-- The turn. -/
  turn : commitLane i before = .ok () after
  /-- The branch leaves last. -/
  last : (before.leaving i).getLast? = some branch
  /-- It was predicted wrongly. -/
  flushes : branch.entry.flushes = true

variable {running : Running} {i : Nat} {before after : Window M} {branch : Retirement}

theorem StartsOver.leads_before (h : StartsOver running i w before branch after) :
    ∃ rs, rs i = [] ∧ Leads Account.Beat noPushes rs w before := by
  obtain ⟨_, w₁, dispatched, rest⟩ := bind_eq_ok.mp h.upToTurn
  obtain ⟨_, w₂, issued, turns⟩ := bind_eq_ok.mp rest
  have first := (admissions_dispatch dispatched).leads (R := Account.Beat) .dispatch
  have second := (firings_issue issued).leads (R := Account.Beat) .issue
  have third := (leads_forM_commitLane List.nodup_range turns).mono Account.Beat.leave
  refine ⟨_, ?_, (first.trans second).trans third⟩
  simp

/-- What leaves in the cycle leaves in the turn. -/
theorem StartsOver.leaving_eq (h : StartsOver running i w before branch after) :
    leavingInCycle running i w = before.leaving i := by
  obtain ⟨_, w₁, dispatched, rest⟩ := bind_eq_ok.mp h.upToTurn
  obtain ⟨_, w₂, issued, turns⟩ := bind_eq_ok.mp rest
  have upToCommit : (do let _ ← dispatch running; issue : Faulting (Window M) Time) w = .ok _ w₂ :=
    bind_eq_ok.mpr ⟨_, _, dispatched, issued⟩
  have same : ∀ (todo : List Nat) (u : Window M), i ∉ todo → todo.forM commitLane u = .ok () before →
      before.leaving i = u.leaving i := by
    intro todo u fresh turns
    induction todo generalizing u with
    | nil =>
      rw [(pure_eq_ok.mp turns).2]
    | cons j todo ih =>
      obtain ⟨⟨⟩, u₁, first, turns⟩ := bind_eq_ok.mp turns
      rw [List.mem_cons, not_or] at fresh
      rw [ih u₁ fresh.2 turns, leaving_commitLane first (Ne.symm fresh.1)]
  unfold leavingInCycle
  rw [upToCommit]
  exact (same _ w₂ (by simp) turns).symm

/-- After the turn, the cycle goes on with the lanes behind. -/
theorem StartsOver.leads_after {stride : Stride M} {y : Window M}
    (h : StartsOver running i w before branch after) (ran : cycle stride running w = .ok () y) :
    ∃ rs, rs i = [] ∧ Leads Account.Beat noPushes rs after y := by
  obtain ⟨_, w₁, dispatched, rest⟩ := bind_eq_ok.mp h.upToTurn
  obtain ⟨_, w₂, issued, turns⟩ := bind_eq_ok.mp rest
  have inside : i < w₂.lanes.size := by
    have turn := h.turn
    obtain ⟨_, _, _, found, -, -⟩ := commitLane_eq_ok turn
    rw [← (leads_forM_commitLane List.nodup_range turns).size_eq]
    exact (Array.getElem?_eq_some_iff.mp found).1
  obtain ⟨_, _, _, _, _, w₃, dispatched', issued', committed, rfl⟩ := stages_of_cycle ran
  rw [dispatched] at dispatched'
  cases dispatched'
  rw [issued] at issued'
  cases issued'
  -- the turns of the stage are those in front, the one of lane `i`, and those behind
  have order : List.range w₂.lanes.size =
      List.range i ++ i :: (List.range w₂.lanes.size).drop (i + 1) := by
    have here : i < (List.range w₂.lanes.size).length := by rwa [List.length_range]
    have front : (List.range w₂.lanes.size).take i = List.range i := by
      rw [List.take_range, Nat.min_eq_left (le_of_lt inside)]
    calc List.range w₂.lanes.size
        = (List.range w₂.lanes.size).take i ++ (List.range w₂.lanes.size).drop i :=
          (List.take_append_drop i _).symm
      _ = _ := by rw [front, List.drop_eq_getElem_cons here, List.getElem_range]
  have nodup : (i :: (List.range w₂.lanes.size).drop (i + 1)).Nodup := by
    have all := List.nodup_range (n := w₂.lanes.size)
    rw [order] at all
    exact (List.nodup_append.mp all).2.1
  have stage := commit_eq_ok committed
  rw [order] at stage
  obtain ⟨u, front, stage⟩ := forM_append_eq_ok.mp stage
  rw [turns] at front
  cases front
  obtain ⟨⟨⟩, u, turn, behind⟩ := bind_eq_ok.mp stage
  rw [h.turn] at turn
  cases turn
  obtain ⟨fresh, nodup⟩ := List.nodup_cons.mp nodup
  have first := (leads_forM_commitLane nodup behind).mono Account.Beat.leave
  refine ⟨_, ?_, first.trans (leads_advance _ w₃)⟩
  simp [fresh]

/-- Thread `i` has let out `gone`; what is behind comes late. -/
structure PastBranch (config : Config) (i : Nat) (bound : Time) (n : Nat) (gone : List Retirement)
    (w : Window M) (us : List OpInstance) (rs : List Retirement) : Prop where
  /-- The parameters are those that the window was made with. -/
  config_eq : w.config = config
  /-- The thread is an account that keeps behind what is gone. -/
  lane : ∃ lane, w.lanes[i]? = some lane ∧
    Account.Reachable config { clock := w.clock, thread := lane.thread, pushed := us, retired := rs } ∧
    Account.Behind bound n gone.length
      { clock := w.clock, thread := lane.thread, pushed := us, retired := rs }
  /-- That has left first. -/
  first : gone <+: rs

variable {config : Config} {bound : Time} {n : Nat} {gone : List Retirement} {us : List OpInstance}
  {rs : List Retirement}

omit [MemorySystem M] in
theorem PastBranch.moves {us' : Nat → List OpInstance} {rs' : Nat → List Retirement}
    (h : PastBranch config i bound n gone w us rs) (moves : Leads Account.Move us' rs' w v) :
    PastBranch config i bound n gone v (us ++ us' i) (rs ++ rs' i) := by
  obtain ⟨lane, found, reached, behind⟩ := h.lane
  obtain ⟨lane', found', leads⟩ := rel_left (moves.lanes i) found
  rw [h.config_eq] at leads
  have kept := leads.keeps
    (P := fun a => Account.Reachable config a ∧ Account.Behind bound n gone.length a)
    (fun move holds => ⟨holds.1.steps (Account.Move.steps move), holds.2.move holds.1 move⟩) us rs
    ⟨reached, behind⟩
  exact ⟨moves.config.trans h.config_eq, ⟨lane', found', kept⟩, h.first.trans (List.prefix_append _ _)⟩

/-- The clock may be moved on. -/
theorem PastBranch.synchronize {j : Nat} {time : Time} (h : PastBranch config i bound n gone w us rs)
    (ran : synchronize j time w = .ok () v) : PastBranch config i bound n gone v us rs := by
  obtain ⟨w₁, now, told, clock, later, rfl⟩ := told_of_synchronize ran
  have same := h.moves (told.mono Account.Move.contact)
  simp only [List.append_nil] at same
  obtain ⟨lane, found, reached, behind⟩ := same.lane
  rw [clock] at reached behind
  have ticks : Account.Drift config
      { clock := w.clock, thread := lane.thread, pushed := us, retired := rs }
      { clock := { w.clock with now }, thread := lane.thread, pushed := us, retired := rs } :=
    .tick rfl later
  exact ⟨same.config_eq,
    ⟨lane, found, reached.step ticks.step, behind.drift reached ticks rfl rfl⟩, h.first⟩

omit [MemorySystem M] in
/-- A thread that joins the others does not concern them. -/
theorem PastBranch.initializeThread {j : Nat} {memory : M} {predictor : Option Predictor}
    (h : PastBranch config i bound n gone w us rs)
    (ran : initializeThread j memory predictor w = .ok () v) :
    PastBranch config i bound n gone v us rs := by
  obtain ⟨-, th, -, rfl⟩ := initializeThread_eq_ok ran
  obtain ⟨lane, found, rest⟩ := h.lane
  refine ⟨h.config_eq, ⟨lane, ?_, rest⟩, h.first⟩
  have inside := (Array.getElem?_eq_some_iff.mp found).1
  dsimp only
  rw [Array.getElem?_push, if_neg (ne_of_lt inside)]
  exact found

/-- Every call keeps what holds past a branch. -/
theorem PastBranch.perform {stride : Stride M} {call : Call M}
    (h : PastBranch config i bound n gone w us rs) (ran : call.perform stride w = .ok () v) :
    PastBranch config i bound n gone v (us ++ call.takesIn i) (rs ++ call.letsOut stride w i) := by
  cases call with
  | initializeThread j memory predictor =>
    simpa [Call.takesIn, Call.letsOut] using h.initializeThread ran
  | synchronize j time => simpa [Call.takesIn, Call.letsOut] using h.synchronize ran
  | _ => exact h.moves (Call.moves ran (by simp) (by simp))

end Window

namespace Chronicle

variable {M : Type} [MemorySystem M] {stride : Window.Stride M} {config : Config} {i : Nat}
  {c c₀ c₁ : Chronicle M}

theorem pastBranch_foldlM {bound : Time} {n : Nat} {gone : List Retirement} {calls : List (Window.Call M)}
    (h : c₀.window.PastBranch config i bound n gone (c₀.pushed i) (c₀.retired i))
    (ran : calls.foldlM (after stride) c₀ = .ok c) :
    c.window.PastBranch config i bound n gone (c.pushed i) (c.retired i) := by
  refine Except.keeps_of_foldlM
    (P := fun c => c.window.PastBranch config i bound n gone (c.pushed i) (c.retired i))
    ran (fun _ made past => ?_) h
  obtain ⟨v, performed, rfl⟩ := after_eq_ok.mp made
  exact past.perform performed

variable {running : Running} {ws ws' : List (Window M)} {w before after : Window M}
  {branch : Retirement} {lane lane' : Lane M}

/-- The turn in which a thread starts over ends with the window empty, its tables forgotten, and the
front end held up. -/
theorem flushed_of_startsOver (event : Window.StartsOver running i w before branch after)
    (found : before.lanes[i]? = some lane) (found' : after.lanes[i]? = some lane') :
    lane'.thread.Flushed before.clock before.config.predictor.penalty lane.thread.nextSeq ∧
      after.clock = before.clock ∧ branch.time = before.clock.now ∧
      ∀ j, j ≠ i → after.lanes[j]? = before.lanes[j]? := by
  have last := event.last
  have turn := event.turn
  unfold Window.leaving at last
  rw [found] at last
  obtain ⟨lane₀, th, freed, found₀, ran, rfl⟩ := Window.commitLane_eq_ok turn
  cases found.symm.trans found₀
  have inside := (Array.getElem?_eq_some_iff.mp found).1
  dsimp only at found'
  rw [Array.getElem?_setIfInBounds_self_of_lt inside] at found'
  cases found'
  refine ⟨Thread.flushed_commit ran last event.flushes, rfl, ?_, fun j other => ?_⟩
  · exact Thread.time_of_mem_leavingAmong (List.mem_of_getLast? last)
  · exact Array.getElem?_setIfInBounds_ne (Ne.symm other)

/-- What holds past a branch holds from the run on in which the thread starts over. -/
theorem pastBranch_of_startsOver (truthful : Truthful config c₀)
    (cycles : Window.cycles stride running Window.lastCycles c₀.window = ws ++ w :: ws')
    (event : Window.StartsOver running i w before branch after)
    (found : before.lanes[i]? = some lane) (ran : c₀.after stride (.execute running) = .ok c₁) :
    ∃ past, c₁.window.PastBranch config i (before.clock.afterCycles config.predictor.penalty)
      lane.thread.nextSeq (past ++ [branch]) (c₁.pushed i) (c₁.retired i) := by
  obtain ⟨v, performed, rfl⟩ := after_eq_ok.mp ran
  obtain ⟨toCycle, grace, y, cycled, onward, rest⟩ := Window.run_at_cycle performed cycles
  obtain ⟨rs, nothing, toTurn⟩ := event.leads_before
  obtain ⟨rs', nothing', fromTurn⟩ := event.leads_after cycled
  have turn := (Window.leads_commitLane event.turn).mono Account.Leave.drift
  have beats := toCycle.trans toTurn
  have truthful' := (truthful.leads (beats.lift Account.Beat.steps)).leads (turn.mono Account.Drift.step)
  obtain ⟨lane', found', -⟩ := rel_left (turn.lanes i) found
  obtain ⟨flushed, clock, -, -⟩ := flushed_of_startsOver event found found'
  have config_eq : before.config = config := beats.config.trans truthful.config_eq
  rw [config_eq] at flushed
  rw [← clock] at flushed ⊢
  -- the branch is the last of what has left by the end of the turn
  obtain ⟨front, gone⟩ := List.getLast?_eq_some_iff.mp event.last
  refine ⟨c₀.retired i ++ ws.flatMap (Window.leavingInCycle running i) ++ front, ?_⟩
  have reached : Account.Reachable config
      { clock := after.clock
        thread := lane'.thread
        pushed := c₀.pushed i
        retired := c₀.retired i ++ ws.flatMap (Window.leavingInCycle running i) ++ front ++ [branch] } := by
    simpa [account, nothing, Window.only, gone] using truthful'.reachable i lane' found'
  have past : after.PastBranch config i _ _ _ _ _ :=
    ⟨turn.config.trans config_eq, ⟨lane', found', reached, Account.behind_of_flushed flushed⟩,
      List.prefix_refl _⟩
  have goesOn := (past.moves (fromTurn.mono Account.Move.beat)).moves
    ((Window.leads_run onward).mono Account.Move.beat)
  simpa [Window.Call.takesIn, Window.Call.letsOut, cycles, nothing', rest, event.leaving_eq, gone]
    using goesOn

/-- Thread `i` has started over behind `branch`, in a turn that led from `before` to `after` and left
the thread on `lane`; the next number was `n` when the branch left, and `c` is what came of it. -/
structure StartedOver (config : Config) (i : Nat) (before : Window M) (n : Nat) (branch : Retirement)
    (after : Window M) (lane : Lane M) (c : Chronicle M) : Prop where
  /-- Whatever leaves behind the branch has entered the window after the penalty, and under a number
  that had not been given out when the branch left. -/
  late : ∃ past rest, c.retired i = past ++ branch :: rest ∧ ∀ r ∈ rest,
    branch.time + before.clock.period.cycles config.predictor.penalty ≤ r.entry.dispatched ∧
      n ≤ r.entry.seq
  /-- Right after the turn, nothing is left of the passage of any entry of the thread. -/
  pristine : ∀ e ∈ lane.thread.ring.toList, e.Pristine
  /-- No register has a writer. -/
  registers : lane.thread.registers = .empty
  /-- No store is in flight, and no fence. -/
  stores : lane.thread.stores.stores.toList = [] ∧ lane.thread.stores.fence = none
  /-- The other threads have not been touched. -/
  others : ∀ j, j ≠ i → after.lanes[j]? = before.lanes[j]?

/-- In whatever course of calls a branch leaves that was predicted wrongly, its thread starts over as it
should: the window forgets all about what is behind the branch, and none of that enters it again before
the penalty is over. -/
theorem starts_over_behind_branch {earlier later : List (Window.Call M)}
    (start : of stride config earlier = .ok c₀)
    (cycles : Window.cycles stride running Window.lastCycles c₀.window = ws ++ w :: ws')
    (event : Window.StartsOver running i w before branch after)
    (found : before.lanes[i]? = some lane) (found' : after.lanes[i]? = some lane')
    (made : of stride config (earlier ++ .execute running :: later) = .ok c) :
    StartedOver config i before lane.thread.nextSeq branch after lane' c := by
  obtain ⟨c', start', made⟩ := of_append made
  cases start.symm.trans start'
  obtain ⟨c₁, ran, made⟩ := Except.bind_eq_ok.mp made
  obtain ⟨past, behind⟩ := pastBranch_of_startsOver (truthful_of start) cycles event found ran
  obtain ⟨lane₁, -, -, -, late⟩ := (pastBranch_foldlM behind made).lane
  obtain ⟨rest, gone⟩ := (pastBranch_foldlM behind made).first
  obtain ⟨flushed, -, time, others⟩ := flushed_of_startsOver event found found'
  refine
    { late := ⟨past, rest, by rw [← gone, List.append_assoc]; rfl, fun r mem => ?_⟩
      pristine := flushed.pristine
      registers := flushed.registers
      stores := ⟨flushed.stores, flushed.fence⟩
      others := others }
  -- `r` stands behind what has left with the branch
  obtain ⟨k, at_k⟩ := List.getElem?_of_mem mem
  have there : (c.retired i)[(past ++ [branch]).length + k]? = some r := by
    rw [← gone, List.getElem?_append_right (Nat.le_add_right _ _), Nat.add_sub_cancel_left]
    exact at_k
  have inside := (List.getElem?_eq_some_iff.mp there).1
  have entry : (account c i lane₁).entries[(past ++ [branch]).length + k]? = some r.entry := by
    rw [Account.entries_of_lt (a := account c i lane₁) inside]
    show (c.retired i)[_]?.map _ = _
    rw [there]
    rfl
  rw [time]
  refine ⟨late.dispatched _ _ (Nat.le_add_right _ _) ?_ entry,
    late.numbered _ _ (Nat.le_add_right _ _) inside entry⟩
  unfold Account.edge
  exact lt_of_lt_of_le inside (Nat.le_add_right _ _)

end Chronicle

/-! ## Section 4: Flushes that can be computed -/

namespace Window

variable {M : Type} [MemorySystem M]

/-- The turn of lane `i` in the cycle that begins with `w`, if the thread starts over in it. -/
def startsOver? (running : Running) (i : Nat) (w : Window M) :
    Option (Window M × Retirement × Window M) :=
  match (do
    let _ ← dispatch running
    let _ ← issue
    (List.range i).forM commitLane : Faulting (Window M) Unit) w with
  | .error _ _ => none
  | .ok () before =>
    match commitLane i before, (before.leaving i).getLast? with
    | .ok () after, some branch => if branch.entry.flushes then some (before, branch, after) else none
    | _, _ => none

theorem startsOver_of_eq_some {running : Running} {i : Nat} {w before after : Window M}
    {branch : Retirement} (h : startsOver? running i w = some (before, branch, after)) :
    StartsOver running i w before branch after := by
  unfold startsOver? at h
  split at h
  · cases h
  · rename_i before' upToTurn
    split at h
    · rename_i after' branch' turn last
      split at h
      · rename_i flushes
        cases h
        exact ⟨upToTurn, turn, last, flushes⟩
      · cases h
    · cases h

end Window

namespace Chronicle

/-- A branch that was predicted wrongly, behind a micro-op that has issued. -/
def branchingCalls : List (Window.Call FixedMemory) :=
  let op : OpInstance := { op := {} }
  [.initializeThread 0 default none,
    .push 0 [op, { op := { kind := .branch }, mispredicted := true }, op, op], .markEndOfStream 0]

/-- What comes behind them, once they have been let run. -/
def trailingCalls : List (Window.Call FixedMemory) := [.push 0 [{ op := {} }], .execute #[true]]

theorem starts_over_behind_branch_of_four :
    ∃ (c₀ c : Chronicle FixedMemory) (ws ws' : List (Window FixedMemory))
      (w before after : Window FixedMemory) (branch : Retirement) (lane lane' : Lane FixedMemory),
      of Window.toEvent default branchingCalls = .ok c₀ ∧
      Window.cycles Window.toEvent #[true] Window.lastCycles c₀.window = ws ++ w :: ws' ∧
      Window.StartsOver #[true] 0 w before branch after ∧
      before.lanes[0]? = some lane ∧ after.lanes[0]? = some lane' ∧
      of Window.toEvent default (branchingCalls ++ .execute #[true] :: trailingCalls) = .ok c ∧
      lane.thread.nextSeq = 4 ∧ (c.retired 0).map (·.entry.seq) = [0, 1, 4, 5, 6] ∧
      StartedOver default 0 before lane.thread.nextSeq branch after lane' c := by
  have computed : ((ofWithin Window.toEvent 20 default branchingCalls).bind fun c₀ =>
      (Window.runWithin Window.toEvent #[true] 20 c₀.window).bind fun run =>
      run.1[2]?.bind fun w => (Window.startsOver? #[true] 0 w).bind fun event =>
      event.1.lanes[0]?.bind fun lane => event.2.2.lanes[0]?.map fun lane' =>
        lane.thread.nextSeq) = some 4 := by
    decide +kernel
  have computed' : (ofWithin Window.toEvent 20 default
      (branchingCalls ++ .execute #[true] :: trailingCalls)).map (fun c =>
        (c.retired 0).map (·.entry.seq)) = some [0, 1, 4, 5, 6] := by
    decide +kernel
  simp only [Option.bind_eq_some_iff, Option.map_eq_some_iff] at computed
  obtain ⟨c₀, start, ⟨cycles, x⟩, ran, w, at_two, ⟨before, branch, after⟩, event, lane, found, lane', found',
    nextSeq⟩ := computed
  obtain ⟨c, made, seqs⟩ := exists_of_computed computed'
  obtain ⟨ws, ws', split⟩ := List.append_of_mem (List.mem_of_getElem? at_two)
  have begins : Window.cycles Window.toEvent #[true] Window.lastCycles c₀.window = ws ++ w :: ws' :=
    (Window.run_of_runWithin ran).2.trans split
  have startsOver := Window.startsOver_of_eq_some event
  exact ⟨c₀, c, ws, ws', w, before, after, branch, lane, lane', of_eq_ok start, begins, startsOver, found,
    found', made, nextSeq, seqs,
    starts_over_behind_branch (of_eq_ok start) begins startsOver found found' made⟩

end Chronicle

end CoreTiming
