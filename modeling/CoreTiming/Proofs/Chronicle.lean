import CoreTiming.Proofs.Stages
import Mathlib.Data.List.Induction
import Mathlib.Data.List.TakeDrop

/-!
# Chronicles

The owner of a window makes calls: it sets up threads, pushes micro-ops, runs cycles.  A `Chronicle`
is a window together with what went into each of its threads and what left them in the course of the
calls.  The main result of this module is that every thread of a chronicle, with its share of the
chronicle, is an account that elementary steps lead to.
-/

namespace CoreTiming

open Faulting

/-! ## Section 1: What leaves -/

/-- Which of the entries `es`, the oldest one first, leave at `now` in a commit stage of the given
width: as many as are done, but none behind one at which the window starts over. -/
def leavingAmong (now : Time) : (width : Nat) → (es : List Entry) → List Retirement
  | 0, _ => []
  | _, [] => []
  | width + 1, e :: rest =>
    if now < e.done then []
    else { entry := e, time := now } :: if e.flushes then [] else leavingAmong now width rest

namespace Thread

/-- The entries in the window, the oldest one first. -/
def window (th : Thread) : List Entry := th.ring.toList.take th.inWindow

/-- What leaves the thread in a commit stage. -/
def leaving (now : Time) (width : Nat) (th : Thread) : List Retirement :=
  leavingAmong now width th.window

end Thread

namespace Window

variable {M : Type} [MemorySystem M]

/-- What leaves lane `i` of `w` in a commit stage. -/
def leaving (w : Window M) (i : Nat) : List Retirement :=
  match w.lanes[i]? with
  | some lane => lane.thread.leaving w.clock.now w.config.window.commitWidth
  | none => []

/-- What leaves lane `i` in the cycle that begins with `w`. -/
def leavingInCycle (running : Running) (i : Nat) (w : Window M) : List Retirement :=
  match (do let _ ← dispatch running; issue : Faulting (Window M) Time) w with
  | .ok _ v => v.leaving i
  | .error _ _ => []

/-- The windows with which the cycles of a run begin. -/
def cycles (stride : Stride M) (running : Running) (grace : Nat) (w : Window M) :
    List (Window M) :=
  if w.canExecute running then
    match cycle stride running w with
    | .error _ _ => []
    | .ok () v =>
      if w.clock.now < v.clock.now then w :: cycles stride running grace v
      else
        match grace with
        | 0 => []
        | grace + 1 => w :: cycles stride running grace v
  else []
termination_by (grace, Time.limit - w.clock.now.toNat)
decreasing_by
  · rename_i h
    have := Time.toNat_le_limit v.clock.now
    rw [Time.lt_iff_toNat_lt] at h
    apply Prod.Lex.right
    omega
  · exact Prod.Lex.left _ _ (Nat.lt_succ_self _)

/-! ## Section 2: Calls and chronicles -/

/-- What the owner of a window asks of it. -/
inductive Call (M : Type)
  /-- Sets up a hardware thread. -/
  | initializeThread (i : Nat) (memory : M) (predictor : Option Predictor)
  /-- Hands micro-ops to thread `i`. -/
  | push (i : Nat) (us : List OpInstance)
  /-- Runs cycles. -/
  | execute (running : Running)
  /-- Moves the time of thread `i`. -/
  | synchronize (i : Nat) (time : Time)
  /-- Collects the latency of thread `i`. -/
  | returnLatency (i : Nat) (inWakeup : Bool)
  /-- Says that thread `i` gets no more micro-ops. -/
  | markEndOfStream (i : Nat)
  /-- Splits the window anew because other threads run. -/
  | repartition (running : Running)

namespace Call

/-- Makes a call of a window whose clock moves by `stride`. -/
def perform (stride : Stride M) : Call M → Faulting (Window M) Unit
  | .initializeThread i memory predictor => Window.initializeThread i memory predictor
  | .push i us => Window.push i us
  | .execute running => Window.executeBy stride running
  | .synchronize i time => Window.synchronize i time
  | .returnLatency i inWakeup => do let _ ← Window.returnLatency i inWakeup
  | .markEndOfStream i => Window.markEndOfStream i
  | .repartition running => modify (Window.repartition running)

/-- The micro-ops that a call hands to thread `j`; those on a wrong path are dropped. -/
def takesIn : Call M → (j : Nat) → List OpInstance
  | .push i us, j => if i = j then us.filter (!·.squashed) else []
  | _, _ => []

/-- What leaves thread `j` in a call of `w`. -/
def letsOut (stride : Stride M) : Call M → (w : Window M) → (j : Nat) → List Retirement
  | .execute running, w, j =>
    (cycles stride running lastCycles w).flatMap (leavingInCycle running j)
  | _, _, _ => []

end Call

end Window

/-- A window, and what went into its threads and left them so far. -/
structure Chronicle (M : Type) where
  /-- The window. -/
  window : Window M
  /-- The micro-ops that each thread has taken in, in program order. -/
  pushed : (i : Nat) → List OpInstance := fun _ => []
  /-- What has left each thread, in the order in which it left. -/
  retired : (i : Nat) → List Retirement := fun _ => []

namespace Chronicle

variable {M : Type} [MemorySystem M]

/-- The chronicle after one more call. -/
def after (stride : Window.Stride M) (c : Chronicle M) (call : Window.Call M) :
    Except Fault (Chronicle M) :=
  match call.perform stride c.window with
  | .ok () window =>
    .ok
      { window
        pushed := fun i => c.pushed i ++ call.takesIn i
        retired := fun i => c.retired i ++ call.letsOut stride c.window i }
  | .error f _ => .error f

/-- The chronicle of a series of calls of a new window, if all of them go through. -/
def of (stride : Window.Stride M) (config : Config) (calls : List (Window.Call M)) :
    Except Fault (Chronicle M) := do
  let window ← Window.new config
  calls.foldlM (after stride) { window }

/-- The account of the thread on lane `i`. -/
def account (c : Chronicle M) (i : Nat) (lane : Lane M) : Account :=
  { clock := c.window.clock
    thread := lane.thread
    pushed := c.pushed i
    retired := c.retired i }

end Chronicle

/-! ## Section 3: Steps with what they take in and let out -/

/-- Whatever was before, steps of the kind `R` lead from `th` to `th'` that take in `us` and let out
`rs`. -/
def Thread.Leads (R : Account → Account → Prop) (us : List OpInstance) (rs : List Retirement)
    (clock : Clock) (th : Thread) (clock' : Clock) (th' : Thread) : Prop :=
  ∀ pushed retired, Relation.ReflTransGen R
    { clock, thread := th, pushed, retired }
    { clock := clock', thread := th', pushed := pushed ++ us, retired := retired ++ rs }

namespace Thread

variable {R : Account → Account → Prop} {config : Config} {clock clock' clock'' : Clock}
  {th th' th'' : Thread} {us us' : List OpInstance} {rs rs' : List Retirement}

theorem Leads.refl (R : Account → Account → Prop) (clock : Clock) (th : Thread) :
    Leads R [] [] clock th clock th := by
  intro pushed retired
  rw [List.append_nil, List.append_nil]

theorem Leads.trans (h : Leads R us rs clock th clock' th')
    (h' : Leads R us' rs' clock' th' clock'' th'') :
    Leads R (us ++ us') (rs ++ rs') clock th clock'' th'' := by
  intro pushed retired
  rw [← List.append_assoc, ← List.append_assoc]
  exact (h pushed retired).trans (h' _ _)

theorem Leads.mono {R' : Account → Account → Prop} (hr : ∀ {a b}, R a b → R' a b)
    (h : Leads R us rs clock th clock' th') : Leads R' us rs clock th clock' th' :=
  fun pushed retired => (h pushed retired).lift id fun _ _ => hr

/-- What one step of the kind `R` does, some steps of the kind `R'` do. -/
theorem Leads.lift {R' : Account → Account → Prop}
    (hr : ∀ {a b}, R a b → Relation.ReflTransGen R' a b) (h : Leads R us rs clock th clock' th') :
    Leads R' us rs clock th clock' th' :=
  fun pushed retired => (h pushed retired).trans_induction_on (fun _ => .refl) hr fun _ _ => .trans

/-- What every step keeps is kept on the way. -/
theorem Leads.keeps {P : Account → Prop} (hp : ∀ {a b}, R a b → P a → P b)
    (h : Leads R us rs clock th clock' th') (pushed : List OpInstance) (retired : List Retirement)
    (start : P { clock, thread := th, pushed, retired }) :
    P { clock := clock', thread := th', pushed := pushed ++ us, retired := retired ++ rs } := by
  have steps := h pushed retired
  generalize ({ clock := clock', thread := th', pushed := pushed ++ us, retired := retired ++ rs } :
    Account) = b at steps ⊢
  induction steps with
  | refl => exact start
  | tail _ step ih => exact hp step ih

/-- Steps inside a thread take nothing in and let nothing out. -/
theorem Leads.of_inside {W : Thread → Thread → Prop}
    (hw : ∀ {a : Account} {th}, a.clock = clock → W a.thread th → R a (a.withThread th))
    (h : Relation.ReflTransGen W th th') : Leads R [] [] clock th clock th' := by
  intro pushed retired
  rw [List.append_nil, List.append_nil]
  induction h with
  | refl => exact .refl
  | tail _ step ih => exact ih.tail (hw (a := { clock, pushed, retired, .. }) rfl step)

theorem Leads.of_tick (period : clock'.period = clock.period) (later : clock.now ≤ clock'.now) :
    Leads (Account.Drift config) [] [] clock th clock' th := by
  intro pushed retired
  rw [List.append_nil, List.append_nil]
  exact .single (.tick period later)

/-! ## Section 4: Commit, seen from the thread -/

theorem oldest?_eq (th : Thread) : th.oldest? = th.window.head? := by
  unfold oldest? window
  cases th.inWindow with
  | zero => rfl
  | succ n => rw [List.head?_take, if_neg (Nat.succ_ne_zero n), List.head?_eq_getElem?,
      Ring.getElem?_toList, if_neg (Nat.succ_ne_zero n), Ring.front?]

/-- What leaves in a commit stage leaves at its time. -/
theorem time_of_mem_leavingAmong {now : Time} {width : Nat} {es : List Entry} {r : Retirement}
    (h : r ∈ leavingAmong now width es) : r.time = now := by
  induction width generalizing es with
  | zero =>
    unfold leavingAmong at h
    cases h
  | succ width ih =>
    cases es with
    | nil =>
      unfold leavingAmong at h
      cases h
    | cons e rest =>
      unfold leavingAmong at h
      split at h
      · cases h
      · rcases List.mem_cons.mp h with rfl | h
        · rfl
        · split at h
          · cases h
          · exact ih h

/-- No more leave in a commit stage than it has room for. -/
theorem length_leavingAmong_le (now : Time) (width : Nat) (es : List Entry) :
    (leavingAmong now width es).length ≤ width := by
  induction width generalizing es with
  | zero =>
    unfold leavingAmong
    exact Nat.le_refl 0
  | succ width ih =>
    cases es with
    | nil =>
      unfold leavingAmong
      exact Nat.zero_le _
    | cons e rest =>
      unfold leavingAmong
      split
      · exact Nat.zero_le _
      · rw [List.length_cons]
        refine Nat.succ_le_succ ?_
        split
        · exact Nat.zero_le _
        · exact ih rest

theorem window_retire (keepLog : Bool) (now : Time) (e : Entry) (th : Thread) :
    (th.retire keepLog now e).window = th.window.tail := by
  show (th.ring.tail.toList).take (th.inWindow - 1) = (th.ring.toList.take th.inWindow).tail
  rw [Ring.toList_tail, List.tail_take_eq_take_tail]

/-- Nothing leaves an empty window. -/
theorem leaving_of_empty (nothing : th.oldest? = none) (now : Time) (width : Nat) : th.leaving now width = [] := by
  rw [oldest?_eq, List.head?_eq_none_iff] at nothing
  unfold leaving
  rw [nothing]
  cases width with
  | zero => rfl
  | succ width => rfl

/-- Nothing leaves before the oldest entry is done. -/
theorem leaving_of_early {e : Entry} {now : Time} (oldest : th.oldest? = some e) (early : now < e.done)
    (width : Nat) : th.leaving now width = [] := by
  obtain ⟨rest, entries⟩ := List.head?_eq_some_iff.mp (th.oldest?_eq ▸ oldest)
  unfold leaving
  rw [entries]
  cases width with
  | zero => rfl
  | succ width => exact if_pos early

/-- Once the oldest entry is done it leaves, and others may follow unless the window starts over. -/
theorem leaving_of_done {e : Entry} {now : Time} (oldest : th.oldest? = some e) (done : e.done ≤ now)
    (keepLog : Bool) (width : Nat) :
    th.leaving now (width + 1) =
      { entry := e, time := now } :: if e.flushes then [] else (th.retire keepLog now e).leaving now width := by
  obtain ⟨rest, entries⟩ := List.head?_eq_some_iff.mp (th.oldest?_eq ▸ oldest)
  unfold leaving
  rw [window_retire, entries]
  exact if_neg (not_lt_of_ge done)

theorem leads_commit {width freed : Nat}
    (h : commit clock config.predictor.penalty config.window.commitLog width th = .ok freed th') :
    Leads (Account.Leave config) [] (th.leaving clock.now width) clock th clock th' := by
  induction width generalizing th with
  | zero =>
    obtain ⟨-, rfl⟩ := pure_eq_ok.mp h
    exact .refl _ _ _
  | succ width ih =>
    cases departure_of_commit h with
    | empty nothing =>
      rw [leaving_of_empty nothing]
      exact .refl _ _ _
    | early oldest early =>
      rw [leaving_of_early oldest early]
      exact .refl _ _ _
    | flush oldest done flushes flushed =>
      rw [leaving_of_done oldest done config.window.commitLog, if_pos flushes]
      intro pushed retired
      rw [List.append_nil]
      exact .single (.flush oldest done flushes flushed)
    | @leave e _ _ oldest done flushes rest =>
      have first : Leads (Account.Leave config) [] [{ entry := e, time := clock.now }] clock th clock
          (th.retire config.window.commitLog clock.now e) := by
        intro pushed retired
        rw [List.append_nil]
        exact .single (.retire oldest done flushes)
      rw [leaving_of_done oldest done config.window.commitLog, flushes]
      exact first.trans (ih rest)

end Thread

/-! ## Section 5: Windows -/

namespace Window

variable {M : Type} {R : Config → Account → Account → Prop} {w v x : Window M}
  {us us' : Nat → List OpInstance} {rs rs' : Nat → List Retirement}

/-- From `w` to `v`, thread `i` has taken in `us i` and let out `rs i` in steps of the kind `R`. -/
structure Leads (R : Config → Account → Account → Prop) (us : Nat → List OpInstance)
    (rs : Nat → List Retirement) (w v : Window M) : Prop where
  /-- The parameters stay. -/
  config : v.config = w.config
  /-- Stores drain no earlier. -/
  drains : w.lastStoreDone ≤ v.lastStoreDone
  /-- No lane comes or goes, and steps lead from what was on it to what is on it. -/
  lanes : ∀ i : Nat, Option.Rel
    (fun l l' => Thread.Leads (R w.config) (us i) (rs i) w.clock l.thread v.clock l'.thread)
    w.lanes[i]? v.lanes[i]?
  /-- Where there is no lane, nothing comes or goes. -/
  absent : ∀ i, w.lanes[i]? = none → us i = [] ∧ rs i = []

/-- Nothing is taken in by any thread. -/
abbrev noPushes : Nat → List OpInstance := fun _ => []

/-- Nothing is let out of any thread. -/
abbrev noRetirements : Nat → List Retirement := fun _ => []

theorem Leads.refl (w : Window M) : Leads R noPushes noRetirements w w := by
  exact ⟨rfl, le_refl _, fun i => rel_refl (fun lane => .refl _ _ lane.thread) _, fun _ _ => ⟨rfl, rfl⟩⟩

theorem Leads.lanes_none {i : Nat} (h : Leads R us rs w v) (missing : w.lanes[i]? = none) :
    v.lanes[i]? = none := by
  have related := h.lanes i
  rw [missing] at related
  generalize v.lanes[i]? = o at related
  cases related with
  | none => rfl

theorem Leads.size_eq (h : Leads R us rs w v) : v.lanes.size = w.lanes.size :=
  Pointwise.size_eq h.lanes

theorem Leads.trans (h : Leads R us rs w v) (h' : Leads R us' rs' v x) :
    Leads R (fun i => us i ++ us' i) (fun i => rs i ++ rs' i) w x := by
  refine ⟨h'.config.trans h.config, le_trans h.drains h'.drains, fun i => ?_, fun i missing => ?_⟩
  · have second := h'.lanes i
    rw [h.config] at second
    refine rel_trans (fun _ _ _ first => ?_) (h.lanes i) second
    exact Thread.Leads.trans first
  · obtain ⟨us_nil, rs_nil⟩ := h.absent i missing
    obtain ⟨us_nil', rs_nil'⟩ := h'.absent i (h.lanes_none missing)
    simp [us_nil, rs_nil, us_nil', rs_nil']

theorem Leads.congr (h : Leads R us rs w v) (hus : us' = us) (hrs : rs' = rs) : Leads R us' rs' w v := by
  rw [hus, hrs]
  exact h

theorem Leads.mono {R' : Config → Account → Account → Prop}
    (hr : ∀ {config a b}, R config a b → R' config a b) (h : Leads R us rs w v) : Leads R' us rs w v :=
  ⟨h.config, h.drains, fun i => rel_mono (fun _ _ => .mono hr) (h.lanes i), h.absent⟩

theorem Leads.lift {R' : Config → Account → Account → Prop}
    (hr : ∀ {config a b}, R config a b → Relation.ReflTransGen (R' config) a b)
    (h : Leads R us rs w v) : Leads R' us rs w v :=
  ⟨h.config, h.drains, fun i => rel_mono (fun _ _ => .lift hr) (h.lanes i), h.absent⟩

theorem Worked.leads {W : Config → Clock → Thread → Thread → Prop}
    (hw : ∀ {config : Config} {a : Account} {th}, W config a.clock a.thread th →
      R config a (a.withThread th))
    (h : Worked W w v) : Leads R noPushes noRetirements w v := by
  refine ⟨h.config, h.drains, fun i => ?_, fun _ _ => ⟨rfl, rfl⟩⟩
  have related := h.lanes i
  rw [Array.getElem?_toList, Array.getElem?_toList] at related
  rw [h.clock]
  exact rel_mono (fun _ _ => .of_inside fun clock step => hw (clock ▸ step)) related

theorem leads_advance (span : Time) (w : Window M) :
    Leads Account.Beat noPushes noRetirements w (w.advance span) := by
  refine ⟨rfl, le_refl _, fun i => ?_, fun _ _ => ⟨rfl, rfl⟩⟩
  show Option.Rel _ w.lanes[i]? (w.lanes.map _)[i]?
  rw [Array.getElem?_map]
  refine rel_map (fun lane pushed retired => ?_) _
  rw [List.append_nil, List.append_nil]
  exact .single (.advance (a := { clock := w.clock, thread := lane.thread, pushed, retired }) _ _)

/-- What one lane takes in and lets out, seen from the window. -/
def only {α : Type} (i : Nat) (xs : List α) : Nat → List α := fun j => if i = j then xs else []

variable [MemorySystem M]

theorem Leads.onLane {α : Type} {i : Nat} {f : Faulting (Lane M) α} {a : α} {us : List OpInstance}
    {rs : List Retirement} (h : onLane i f w = .ok a v)
    (leads : ∀ lane lane', w.lanes[i]? = some lane → f lane = .ok a lane' →
      Thread.Leads (R w.config) us rs w.clock lane.thread w.clock lane'.thread) :
    Leads R (only i us) (only i rs) w v := by
  obtain ⟨lane, lane', found, ran, rfl⟩ := onLane_eq_ok.mp h
  have at_i : i < w.lanes.size := (Array.getElem?_eq_some_iff.mp found).1
  refine ⟨rfl, le_refl _, fun j => ?_, fun j missing => ?_⟩
  · show Option.Rel _ w.lanes[j]? (w.lanes.setIfInBounds i lane')[j]?
    by_cases same : i = j
    · subst same
      rw [found, Array.getElem?_setIfInBounds_self_of_lt at_i]
      simp only [only, if_true]
      exact .some (leads lane lane' found ran)
    · rw [Array.getElem?_setIfInBounds_ne same]
      simp only [only, same, if_false]
      exact (Leads.refl (R := R) w).lanes j
  · have other : i ≠ j := by
      rintro rfl
      rw [found] at missing
      cases missing
    simp [only, other]

theorem Leads.onThread {α : Type} {i : Nat} {f : Faulting Thread α} {a : α} {us : List OpInstance}
    {rs : List Retirement} (h : onThread i f w = .ok a v)
    (leads : ∀ lane th, w.lanes[i]? = some lane → f lane.thread = .ok a th →
      Thread.Leads (R w.config) us rs w.clock lane.thread w.clock th) :
    Leads R (only i us) (only i rs) w v := by
  refine .onLane h fun lane lane' found ran => ?_
  obtain ⟨th, done, rfl⟩ := zoom_eq_ok.mp ran
  exact leads lane th found done

/-! ## Section 6: A cycle, and a run -/

theorem leads_commitLane {i : Nat} (h : commitLane i w = .ok () v) :
    Leads Account.Leave noPushes (only i (w.leaving i)) w v := by
  unfold commitLane at h
  rw [get_bind] at h
  obtain ⟨freed, w₁, committed, h⟩ := bind_eq_ok.mp h
  rw [modify_eq_ok] at h
  subst h
  have step : Leads Account.Leave (only i []) (only i (w.leaving i)) w w₁ := .onThread committed
    fun lane th found ran => by
      have leads := Thread.leads_commit ran
      unfold leaving
      rw [found]
      exact leads
  have none : noPushes = only i [] := by
    funext j
    simp [only]
  rw [none]
  exact ⟨step.config, step.drains, step.lanes, step.absent⟩

/-- A lane is not touched in another lane's turn. -/
theorem leaving_commitLane {i j : Nat} (h : commitLane i w = .ok () v) (hne : i ≠ j) :
    v.leaving j = w.leaving j := by
  obtain ⟨lane, th, freed, -, -, rfl⟩ := commitLane_eq_ok h
  simp only [leaving]
  rw [Array.getElem?_setIfInBounds_ne hne]

theorem leads_forM_commitLane {lanes : List Nat} (nodup : lanes.Nodup)
    (h : lanes.forM commitLane w = .ok () v) :
    Leads Account.Leave noPushes (fun j => if j ∈ lanes then w.leaving j else []) w v := by
  induction lanes generalizing w with
  | nil =>
    obtain ⟨-, rfl⟩ := pure_eq_ok.mp h
    simpa using Leads.refl (R := Account.Leave) w
  | cons i rest ih =>
    obtain ⟨⟨⟩, w₁, first, h⟩ := bind_eq_ok.mp h
    obtain ⟨fresh, nodup⟩ := List.nodup_cons.mp nodup
    refine ((leads_commitLane first).trans (ih nodup h)).congr rfl ?_
    funext j
    by_cases same : i = j
    · subst same
      simp [only, fresh]
    · simp [only, same, Ne.symm same, leaving_commitLane first same]

theorem leads_commit {event : Time} (h : commit w = .ok event v) :
    Leads Account.Leave noPushes w.leaving w v := by
  refine (leads_forM_commitLane List.nodup_range (commit_eq_ok h)).congr rfl ?_
  funext j
  split
  · rfl
  · rename_i outside
    rw [List.mem_range, not_lt] at outside
    unfold leaving
    rw [Array.getElem?_eq_none outside]

/-- What leaves in a cycle is what leaves in its commit stage. -/
theorem leavingInCycle_eq {running : Running} {dispatchEvent issueEvent : Time}
    (dispatched : dispatch running w = .ok dispatchEvent v) (issued : issue v = .ok issueEvent x) (i : Nat) :
    leavingInCycle running i w = x.leaving i := by
  have upToCommit : (do let _ ← dispatch running; issue : Faulting (Window M) Time) w =
      .ok issueEvent x := bind_eq_ok.mpr ⟨_, _, dispatched, issued⟩
  unfold leavingInCycle
  rw [upToCommit]

/-- A cycle is a dispatch, an issue and a commit stage; then the clock moves. -/
theorem cycle_eq_ok {stride : Stride M} {running : Running} (h : cycle stride running w = .ok () v) :
    ∃ (dispatchEvent issueEvent event : Time) (w₁ w₂ w₃ : Window M),
      dispatch running w = .ok dispatchEvent w₁ ∧ issue w₁ = .ok issueEvent w₂ ∧
      Leads Account.Leave noPushes (leavingInCycle running · w) w₂ w₃ ∧
      v = w₃.advance (stride w₃ event) := by
  obtain ⟨dispatchEvent, issueEvent, _, w₁, w₂, w₃, dispatched, issued, committed, rfl⟩ := stages_of_cycle h
  refine ⟨_, _, _, w₁, w₂, w₃, dispatched, issued, (leads_commit committed).congr rfl ?_, rfl⟩
  funext i
  exact leavingInCycle_eq dispatched issued i

theorem leads_cycle {stride : Stride M} {running : Running} (h : cycle stride running w = .ok () v) :
    Leads Account.Beat noPushes (leavingInCycle running · w) w v := by
  obtain ⟨_, _, event, w₁, w₂, w₃, dispatched, issued, committed, rfl⟩ := cycle_eq_ok h
  have admits := (admissions_dispatch dispatched).leads (R := Account.Beat) .dispatch
  have fires := (firings_issue issued).leads (R := Account.Beat) .issue
  have leaves := committed.mono Account.Beat.leave
  refine (((admits.trans fires).trans leaves).trans (leads_advance _ w₃)).congr rfl ?_
  funext i
  simp

/-- Induction along a run: `P ws x` is about the cycles `ws` that have been run and the window `x` that they have
led to. -/
theorem induction_run {stride : Stride M} {running : Running} {grace : Nat}
    {P : List (Window M) → Window M → Prop} (h : run stride running grace w = .ok () v) (start : P [] w)
    (onward : ∀ {ws x y}, P ws x → x.canExecute running = true → cycle stride running x = .ok () y →
      P (ws ++ [x]) y) : P (cycles stride running grace w) v := by
  suffices general : ∀ ws, P ws w → P (ws ++ cycles stride running grace w) v from general [] start
  clear start
  fun_induction run stride running grace w with
  | case1 grace w can f u ran => cases h
  | case2 grace w can u ran later ih =>
    intro ws before
    rw [cycles]
    simpa [can, ran, later] using ih h _ (onward before can ran)
  | case3 => cases h
  | case4 w can u ran later grace ih =>
    intro ws before
    rw [cycles]
    simpa [can, ran, later] using ih h _ (onward before can ran)
  | case5 grace w stop =>
    cases h
    intro ws before
    rw [cycles]
    simpa [stop] using before

/-- What every cycle preserves, a run does. -/
theorem keeps_of_run {stride : Stride M} {running : Running} {grace : Nat} {P : Window M → Prop}
    (h : run stride running grace w = .ok () v)
    (onward : ∀ {x y}, cycle stride running x = .ok () y → P x → P y) (start : P w) : P v :=
  induction_run (P := fun _ x => P x) h start fun before _ ran => onward ran before

theorem leads_run {stride : Stride M} {running : Running} {grace : Nat}
    (h : run stride running grace w = .ok () v) :
    Leads Account.Beat noPushes
      (fun i => (cycles stride running grace w).flatMap (leavingInCycle running i)) w v := by
  refine induction_run (P := fun ws x => Leads Account.Beat noPushes (fun i => ws.flatMap (leavingInCycle running i)) w x)
    h (.refl w) fun before _ ran => (before.trans (leads_cycle ran)).congr rfl ?_
  funext i
  simp

end Window

/-! ## Section 7: Calls -/

namespace OpInstance.SameAtFront

variable {u v w : OpInstance}

theorem refl (u : OpInstance) : u.SameAtFront u := rfl

theorem trans (h : u.SameAtFront v) (h' : v.SameAtFront w) : u.SameAtFront w := by
  unfold SameAtFront at *
  rw [h', h]

end OpInstance.SameAtFront

namespace Window

variable {M : Type} [MemorySystem M] {w v : Window M}

theorem sameAtFront_checkPrediction (predictor : Option Predictor) (u : OpInstance) :
    u.SameAtFront (checkPrediction predictor u) := by
  unfold checkPrediction
  split
  · rfl
  · exact .refl u

/-- How the instruction of `u` is fetched. -/
inductive Fetches (period : Period) (u : OpInstance) (lane : Lane M) : OpInstance → Lane M → Prop
  /-- The fetch is settled already. -/
  | settled (known : ¬(u.op.first && u.fetchHit == .l1i) = true) : Fetches period u lane u lane
  /-- Memory has the instruction at hand. -/
  | hit {served : Served} {memory : M} (asks : (u.op.first && u.fetchHit == .l1i) = true)
      (answered : MemorySystem.fetch u.op.ip fetchBytes lane.memory = .ok served memory)
      (hit : served.hit = .l1i) : Fetches period u lane u { lane with memory }
  /-- The instruction has to come from farther away. -/
  | miss {served : Served} {memory : M} {cycles : Nat} (asks : (u.op.first && u.fetchHit == .l1i) = true)
      (answered : MemorySystem.fetch u.op.ip fetchBytes lane.memory = .ok served memory)
      (miss : served.hit ≠ .l1i) (rounded : served.latency.divideRounded period.length = .ok cycles) :
      Fetches period u lane (u.missFetch served.hit cycles) { lane with memory }

theorem fetches_of_fetch {period : Period} {u u' : OpInstance} {lane lane' : Lane M}
    (h : fetch period u lane = .ok u' lane') : Fetches period u lane u' lane' := by
  unfold fetch at h
  split at h
  · rename_i asks
    obtain ⟨served, lane₁, asked, h⟩ := bind_eq_ok.mp h
    obtain ⟨memory, answered, rfl⟩ := zoom_eq_ok.mp asked
    split at h
    · rename_i hit
      obtain ⟨rfl, rfl⟩ := pure_eq_ok.mp h
      exact .hit asks answered hit
    · rename_i miss
      simp only [bind_eq_ok, ofExcept_eq_ok, pure_eq_ok] at h
      obtain ⟨cycles, _, ⟨rounded, rfl⟩, rfl, rfl⟩ := h
      exact .miss asks answered miss rounded
  · rename_i known
    obtain ⟨rfl, rfl⟩ := pure_eq_ok.mp h
    exact .settled known

theorem fetch_eq_ok {period : Period} {u u' : OpInstance} {lane lane' : Lane M}
    (h : fetch period u lane = .ok u' lane') :
    u.SameAtFront u' ∧ lane'.thread = lane.thread := by
  cases fetches_of_fetch h with
  | settled | hit => exact ⟨.refl u, rfl⟩
  | miss => exact ⟨rfl, rfl⟩

/-- A micro-op that is squashed is dropped.  Any other one is fetched and put into the buffer. -/
theorem pushOne_eq_ok {period : Period} {i : Nat} {u : OpInstance} {lane lane' : Lane M}
    (h : pushOne period i u lane = .ok () lane') :
    (u.squashed = true ∧ lane' = lane) ∨
      (u.squashed = false ∧ ∃ (u' : OpInstance) (lane₁ : Lane M) (th : Thread),
        fetch period u lane = .ok u' lane₁ ∧
        enqueue i (checkPrediction lane₁.thread.predictor u') lane₁.thread = .ok () th ∧
        lane' = { lane₁ with thread := th }) := by
  unfold pushOne at h
  split at h
  · rename_i squashed
    exact .inl ⟨squashed, (pure_eq_ok.mp h).2.symm⟩
  · rename_i kept
    obtain ⟨u', lane₁, fetched, h⟩ := bind_eq_ok.mp h
    rw [get_bind] at h
    obtain ⟨th, queued, rfl⟩ := zoom_eq_ok.mp h
    exact .inr ⟨Bool.not_eq_true _ ▸ kept, u', lane₁, th, fetched, queued, rfl⟩

/-- Micro-ops are put into the buffer of one lane. -/
theorem push_eq_ok {i : Nat} {us : List OpInstance} (h : push i us w = .ok () v) :
    ∃ lane lane', w.lanes[i]? = some lane ∧ us.forM (pushOne w.clock.period i) lane = .ok () lane' ∧
      v = { w with lanes := w.lanes.setIfInBounds i lane' } := by
  unfold push at h
  exact onLane_eq_ok.mp h

/-- Once a thread has been asked what it has done, it has reported that, and unless it has just been woken it has
been told the time. -/
theorem returnLatency_eq_ok {i : Nat} {inWakeup : Bool} {result : Nat × Time}
    (h : returnLatency i inWakeup w = .ok result v) :
    modifyThread i (fun th => { th with
      reported := th.retired
      now := if inWakeup then th.now else max th.now w.clock.now }) w = .ok () v := by
  unfold returnLatency at h
  rw [get_bind] at h
  obtain ⟨lane, th, found, ran, rfl⟩ := onThread_eq_ok.mp h
  obtain ⟨-, rfl⟩ := Prod.ext_iff.mp (modifyGet_eq_ok.mp ran)
  exact modifyThread_eq_ok.mpr ⟨lane, found, rfl⟩

theorem Call.told_of_returnLatency {stride : Stride M} {i : Nat} {inWakeup : Bool}
    (h : (Call.returnLatency i inWakeup).perform stride w = .ok () v) :
    modifyThread i (fun th => { th with
      reported := th.retired
      now := if inWakeup then th.now else max th.now w.clock.now }) w = .ok () v := by
  obtain ⟨result, _, returned, h⟩ := bind_eq_ok.mp h
  obtain ⟨-, rfl⟩ := pure_eq_ok.mp h
  exact returnLatency_eq_ok returned

theorem leads_pushOne {config : Config} {clock : Clock} {period : Period} {i : Nat}
    {u : OpInstance} {lane lane' : Lane M} (h : pushOne period i u lane = .ok () lane') :
    Thread.Leads (Account.Contact config) ([u].filter (!·.squashed)) [] clock lane.thread clock lane'.thread := by
  rcases pushOne_eq_ok h with ⟨squashed, rfl⟩ | ⟨squashed, u', lane₁, th, fetched, queued, rfl⟩
  · rw [List.filter_singleton, squashed]
    exact .refl _ _ _
  · obtain ⟨same, thread⟩ := fetch_eq_ok fetched
    have pushed := same.trans (sameAtFront_checkPrediction lane₁.thread.predictor u')
    rw [List.filter_singleton, squashed]
    intro before retired
    rw [List.append_nil]
    rw [thread] at pushed queued
    exact .single (.push pushed queued)

theorem leads_forM_pushOne {config : Config} {clock : Clock} {period : Period} {i : Nat}
    {us : List OpInstance} {lane lane' : Lane M}
    (h : us.forM (pushOne period i) lane = .ok () lane') :
    Thread.Leads (Account.Contact config) (us.filter (!·.squashed)) [] clock lane.thread clock lane'.thread := by
  induction us generalizing lane with
  | nil =>
    obtain ⟨-, rfl⟩ := pure_eq_ok.mp h
    exact .refl _ _ _
  | cons u rest ih =>
    obtain ⟨⟨⟩, lane₁, first, h⟩ := bind_eq_ok.mp h
    have step : Thread.Leads (Account.Contact config) ([u].filter (!·.squashed) ++ rest.filter (!·.squashed)) ([] ++ [])
        clock lane.thread clock lane'.thread := (leads_pushOne first).trans (ih h)
    rw [← List.filter_append] at step
    exact step

theorem leads_push {i : Nat} {us : List OpInstance} (h : push i us w = .ok () v) :
    Leads Account.Contact (only i (us.filter (!·.squashed))) (only i []) w v := by
  exact .onLane (i := i) (onLane_eq_ok.mpr (push_eq_ok h)) fun lane lane' _ ran => leads_forM_pushOne ran

theorem only_nil {α : Type} (i : Nat) : only i ([] : List α) = fun _ => [] := by
  funext j
  simp [only]

/-- A thread may be told its time and the end of its stream, and asked what it has done. -/
theorem leads_tell {α : Type} {i : Nat} {f : Faulting Thread α} {a : α} (h : onThread i f w = .ok a v)
    (tells : ∀ th th', f th = .ok a th' → th' =
      { th with now := th'.now, reported := th'.reported, endOfStream := th'.endOfStream }) :
    Leads Account.Contact noPushes noRetirements w v := by
  have nothing : Leads Account.Contact (only i []) (only i []) w v :=
    .onThread h fun lane th _ ran => by
      intro pushed retired
      rw [List.append_nil, List.append_nil, tells lane.thread th ran]
      exact .single (.tell (a := { clock := w.clock, thread := lane.thread, pushed, retired }) _ _ _)
  exact nothing.congr (only_nil i).symm (only_nil i).symm

/-- The core's time may follow that of its threads, but never goes back. -/
theorem synchronize_eq_ok {i : Nat} {time : Time} (h : synchronize i time w = .ok () v) :
    ∃ (w₁ : Window M) (now : Time), modifyThread i (fun th => { th with now := time }) w = .ok () w₁ ∧
      w₁.clock = w.clock ∧ w.clock.now ≤ now ∧ v = { w₁ with clock := { w.clock with now } } := by
  unfold synchronize at h
  obtain ⟨⟨⟩, w₁, moved, h⟩ := bind_eq_ok.mp h
  have clock : w₁.clock = w.clock := by
    obtain ⟨lane, -, rfl⟩ := modifyThread_eq_ok.mp moved
    rfl
  rw [modify_eq_ok] at h
  dsimp only at h
  split at h
  · rename_i ahead
    rw [Bool.and_eq_true, decide_eq_true_iff] at ahead
    refine ⟨w₁, _, moved, clock, clock ▸ le_of_lt ahead.2, ?_⟩
    rw [← h, clock]
  · refine ⟨w₁, w.clock.now, moved, clock, le_refl _, ?_⟩
    rw [← h, ← clock]

omit [MemorySystem M] in
theorem leads_setNow {now : Time} (later : w.clock.now ≤ now) :
    Leads Account.Drift noPushes noRetirements w { w with clock := { w.clock with now } } := by
  refine ⟨rfl, le_refl _, fun i => ?_, fun _ _ => ⟨rfl, rfl⟩⟩
  exact rel_refl (fun _ => .of_tick rfl later) _

/-- A thread is told its time; then the clock may go on. -/
theorem told_of_synchronize {i : Nat} {time : Time} (h : synchronize i time w = .ok () v) :
    ∃ (w₁ : Window M) (now : Time), Leads Account.Contact noPushes noRetirements w w₁ ∧ w₁.clock = w.clock ∧
      w.clock.now ≤ now ∧ v = { w₁ with clock := { w.clock with now } } := by
  obtain ⟨w₁, now, moved, clock, later, same⟩ := synchronize_eq_ok h
  exact ⟨w₁, now, leads_tell moved fun th th' ran => (by rw [← modify_eq_ok.mp ran]), clock, later, same⟩

theorem leads_synchronize {i : Nat} {time : Time} (h : synchronize i time w = .ok () v) :
    Leads Account.Drift noPushes noRetirements w v := by
  obtain ⟨w₁, now, told, clock, later, rfl⟩ := told_of_synchronize h
  rw [← clock] at later ⊢
  exact ((told.mono Account.Contact.drift).trans (leads_setNow later)).congr rfl rfl

/-- What a call is for, as far as the threads are concerned. -/
inductive Call.Kind : Call M → Prop
  /-- It sets up a thread. -/
  | initializeThread (i : Nat) (memory : M) (predictor : Option Predictor) :
    Kind (.initializeThread i memory predictor)
  /-- It runs cycles. -/
  | execute (running : Running) : Kind (.execute running)
  /-- It does neither. -/
  | other {call : Call M} (old : ∀ i memory predictor, call ≠ .initializeThread i memory predictor)
    (idle : ∀ running, call ≠ .execute running) : Kind call

omit [MemorySystem M] in
theorem Call.kind (call : Call M) : call.Kind := by
  cases call with
  | initializeThread i memory predictor => exact .initializeThread i memory predictor
  | execute running => exact .execute running
  | _ => exact .other (by simp) (by simp)

/-- Calls that set up no thread, run no cycles and leave the core's time alone are contacts with the
threads. -/
theorem Call.contacts {stride : Stride M} {call : Call M} (h : call.perform stride w = .ok () v)
    (old : ∀ i memory predictor, call ≠ .initializeThread i memory predictor)
    (idle : ∀ running, call ≠ .execute running) (still : ∀ i time, call ≠ .synchronize i time) :
    Leads Account.Contact call.takesIn (call.letsOut stride w) w v := by
  cases call with
  | initializeThread i memory predictor => exact absurd rfl (old i memory predictor)
  | push i us => exact (leads_push h).congr rfl (only_nil i).symm
  | execute running => exact absurd rfl (idle running)
  | synchronize i time => exact absurd rfl (still i time)
  | returnLatency i inWakeup =>
    exact leads_tell (Call.told_of_returnLatency h) fun th th' ran => by rw [← modify_eq_ok.mp ran]
  | markEndOfStream i =>
    have marked : modifyThread i (fun th => { th with endOfStream := true }) w = .ok () v := h
    exact leads_tell marked fun th th' ran => by rw [← modify_eq_ok.mp ran]
  | repartition running =>
    obtain rfl := modify_eq_ok.mp h
    have same : Leads Account.Contact noPushes noRetirements w w := .refl w
    exact ⟨rfl, le_refl _, same.lanes, same.absent⟩

/-- Every call but the one that sets up a thread and the one that runs cycles leads on without moving
anything inside a thread. -/
theorem Call.drifts {stride : Stride M} {call : Call M} (h : call.perform stride w = .ok () v)
    (old : ∀ i memory predictor, call ≠ .initializeThread i memory predictor)
    (idle : ∀ running, call ≠ .execute running) :
    Leads Account.Drift call.takesIn (call.letsOut stride w) w v := by
  by_cases moves : ∃ i time, call = .synchronize i time
  · obtain ⟨i, time, rfl⟩ := moves
    exact leads_synchronize h
  · exact (Call.contacts h old idle fun i time same => moves ⟨i, time, same⟩).mono Account.Contact.drift

/-- Every call but the one that sets up a thread and the one that moves the core's time is a series of
moves. -/
theorem Call.moves {stride : Stride M} {call : Call M} (h : call.perform stride w = .ok () v)
    (old : ∀ i memory predictor, call ≠ .initializeThread i memory predictor)
    (still : ∀ i time, call ≠ .synchronize i time) :
    Leads Account.Move call.takesIn (call.letsOut stride w) w v := by
  cases call.kind with
  | initializeThread i memory predictor => exact absurd rfl (old i memory predictor)
  | execute running =>
    have ran := leads_run h
    exact ran.mono Account.Move.beat
  | other _ idle => exact (Call.contacts h old idle still).mono Account.Move.contact

/-- Every call but the one that sets up a thread leads on. -/
theorem Call.leads {stride : Stride M} {call : Call M} (h : call.perform stride w = .ok () v)
    (old : ∀ i memory predictor, call ≠ .initializeThread i memory predictor) :
    Leads Account.Step call.takesIn (call.letsOut stride w) w v := by
  by_cases moves : ∃ i time, call = .synchronize i time
  · obtain ⟨i, time, rfl⟩ := moves
    exact (leads_synchronize h).mono Account.Drift.step
  · exact (Call.moves h old fun i time same => moves ⟨i, time, same⟩).lift Account.Move.steps

end Window

/-! ## Section 8: Chronicles -/

namespace Chronicle

variable {M : Type} {config : Config} {c c' : Chronicle M}

/-- What a chronicle says of its threads is the result of elementary steps. -/
structure Truthful (config : Config) (c : Chronicle M) : Prop where
  /-- The parameters are those that the window was made with. -/
  config_eq : c.window.config = config
  /-- Every thread is an account that steps lead to. -/
  reachable : ∀ i lane, c.window.lanes[i]? = some lane → Account.Reachable config (c.account i lane)
  /-- Where there is no thread, nothing has happened. -/
  absent : ∀ i, c.window.lanes[i]? = none → c.pushed i = [] ∧ c.retired i = []

theorem truthful_new {w : Window M} (h : Window.new config = .ok w) :
    Truthful config { window := w } := by
  obtain ⟨period, rfl⟩ := Window.new_eq_ok h
  refine ⟨rfl, fun i lane found => ?_, fun _ _ => ⟨rfl, rfl⟩⟩
  simp at found

theorem Truthful.leads {us : Nat → List OpInstance} {rs : Nat → List Retirement} {w : Window M}
    (truthful : Truthful config c) (leads : Window.Leads Account.Step us rs c.window w) :
    Truthful config
      { window := w
        pushed := fun i => c.pushed i ++ us i
        retired := fun i => c.retired i ++ rs i } := by
  refine ⟨leads.config.trans truthful.config_eq, fun i lane' found' => ?_, fun i missing => ?_⟩
  · obtain ⟨lane, found, steps⟩ := rel_right (leads.lanes i) found'
    rw [truthful.config_eq] at steps
    exact (truthful.reachable i lane found).steps (steps _ _)
  · have related := leads.lanes i
    dsimp only at missing
    rw [missing] at related
    generalize found : c.window.lanes[i]? = o at related
    cases related with
    | none =>
      obtain ⟨pushed, retired⟩ := truthful.absent i found
      obtain ⟨us_nil, rs_nil⟩ := leads.absent i found
      simp [pushed, retired, us_nil, rs_nil]

/-- A thread that is set up has done nothing, and the others were there before. -/
theorem Truthful.setUp {l l' : Lane M} {i : Nat} (truthful : Truthful config c)
    (found : (c.window.lanes.push l')[i]? = some l) :
    (l = l' ∧ c.pushed i = [] ∧ c.retired i = []) ∨ c.window.lanes[i]? = some l := by
  rw [Array.getElem?_push] at found
  split at found
  · rename_i last
    cases found
    exact .inl ⟨rfl, truthful.absent i (Array.getElem?_eq_none (le_of_eq last.symm))⟩
  · exact .inr found

theorem truthful_initializeThread {i : Nat} {memory : M} {predictor : Option Predictor}
    {w : Window M} (truthful : Truthful config c)
    (h : Window.initializeThread i memory predictor c.window = .ok () w) :
    Truthful config { c with window := w } := by
  obtain ⟨-, th, made, rfl⟩ := Window.initializeThread_eq_ok h
  rw [truthful.config_eq] at made
  refine ⟨truthful.config_eq, fun j lane found => ?_, fun j missing => ?_⟩
  · rcases truthful.setUp found with ⟨rfl, pushed, retired⟩ | old
    · show Account.Reachable config { pushed := c.pushed j, retired := c.retired j, .. }
      rw [pushed, retired]
      exact .new made
    · exact truthful.reachable j lane old
  · dsimp only at missing
    rw [Array.getElem?_push] at missing
    split at missing
    · cases missing
    · exact truthful.absent j missing

variable [MemorySystem M] {stride : Window.Stride M}

/-- A call that goes through adds what it takes in and lets out. -/
theorem after_eq_ok {call : Window.Call M} : c.after stride call = .ok c' ↔
    ∃ v, call.perform stride c.window = .ok () v ∧ c' =
      { window := v
        pushed := fun i => c.pushed i ++ call.takesIn i
        retired := fun i => c.retired i ++ call.letsOut stride c.window i } := by
  unfold after
  cases call.perform stride c.window with
  | error f v => simp
  | ok u v => simp [eq_comm]

theorem truthful_after {call : Window.Call M} (truthful : Truthful config c)
    (h : c.after stride call = .ok c') : Truthful config c' := by
  obtain ⟨v, performed, rfl⟩ := after_eq_ok.mp h
  cases call.kind with
  | initializeThread i memory predictor =>
    have made := truthful_initializeThread truthful performed
    simpa [Window.Call.takesIn, Window.Call.letsOut] using made
  | execute running => exact truthful.leads (Window.Call.leads performed (by simp))
  | other old => exact truthful.leads (Window.Call.leads performed old)

theorem truthful_foldlM {calls : List (Window.Call M)} (truthful : Truthful config c)
    (h : calls.foldlM (after stride) c = .ok c') : Truthful config c' :=
  Except.keeps_of_foldlM h (fun _ made before => truthful_after before made) truthful

/-- A series of calls goes through in two parts. -/
theorem of_append {calls calls' : List (Window.Call M)} (made : of stride config (calls ++ calls') = .ok c) :
    ∃ c₀, of stride config calls = .ok c₀ ∧ calls'.foldlM (after stride) c₀ = .ok c := by
  obtain ⟨w, new, made⟩ := Except.bind_eq_ok.mp made
  rw [List.foldlM_append] at made
  obtain ⟨c₀, first, rest⟩ := Except.bind_eq_ok.mp made
  exact ⟨c₀, Except.bind_eq_ok.mpr ⟨w, new, first⟩, rest⟩

/-- A series of calls goes on with a call that goes through. -/
theorem of_concat_eq_ok {calls : List (Window.Call M)} {call : Window.Call M} :
    of stride config (calls ++ [call]) = .ok c ↔
      ∃ c₀, of stride config calls = .ok c₀ ∧ c₀.after stride call = .ok c := by
  unfold of
  cases Window.new config with
  | error f => simp [bind, Except.bind]
  | ok w =>
    show List.foldlM _ _ _ = _ ↔ ∃ c₀, List.foldlM _ _ _ = _ ∧ _
    simp [List.foldlM_append, Except.bind_eq_ok]

/-- What holds of a new window, and goes on to hold with every call, holds of whatever calls lead to. -/
theorem induction_of {P : List (Window.Call M) → Chronicle M → Prop}
    (new : ∀ w, Window.new config = .ok w → P [] { window := w })
    (after : ∀ {calls c call c'}, of stride config calls = .ok c → P calls c → c.after stride call = .ok c' →
      P (calls ++ [call]) c')
    {calls : List (Window.Call M)} (made : of stride config calls = .ok c) : P calls c := by
  induction calls using List.reverseRecOn generalizing c with
  | nil =>
    obtain ⟨w, first, made⟩ := Except.bind_eq_ok.mp made
    cases made
    exact new w first
  | append_singleton calls call ih =>
    obtain ⟨c₀, start, last⟩ := of_concat_eq_ok.mp made
    exact after start (ih start) last

/-- What holds of all accounts holds of every thread of a chronicle. -/
theorem truthful_of {calls : List (Window.Call M)} (h : of stride config calls = .ok c) :
    Truthful config c := by
  obtain ⟨w, made, h⟩ := Except.bind_eq_ok.mp h
  exact truthful_foldlM (truthful_new made) h

/-- What a thread has taken in is what the calls have handed to it. -/
theorem pushed_of {calls : List (Window.Call M)} (made : of stride config calls = .ok c) (i : Nat) :
    c.pushed i = calls.flatMap (·.takesIn i) := by
  refine induction_of (P := fun calls c => c.pushed i = calls.flatMap (·.takesIn i)) (fun _ _ => rfl)
    (fun _ ih step => ?_) made
  obtain ⟨v, -, rfl⟩ := after_eq_ok.mp step
  rw [List.flatMap_append, ← ih, List.flatMap_singleton]

end Chronicle

/-! ## Section 9: Chronicles that can be computed

A run has no bound in advance.  With one, a chronicle is a matter of computation. -/

namespace Window

variable {M : Type} [MemorySystem M]

/-- The windows with which the cycles of a run begin, and the one with which the run ends, if that is
within `n` cycles and each of them moves the clock. -/
def runWithin (stride : Stride M) (running : Running) :
    (n : Nat) → (w : Window M) → Option (List (Window M) × Window M)
  | 0, _ => none
  | n + 1, w =>
    if w.canExecute running then
      match cycle stride running w with
      | .error _ _ => none
      | .ok () v =>
        if w.clock.now < v.clock.now then
          (runWithin stride running n v).map fun (ws, x) => (w :: ws, x)
        else none
    else some ([], w)

theorem run_of_runWithin {stride : Stride M} {running : Running} {n grace : Nat} {w x : Window M}
    {ws : List (Window M)} (h : runWithin stride running n w = some (ws, x)) :
    run stride running grace w = .ok () x ∧ cycles stride running grace w = ws := by
  induction n generalizing w ws with
  | zero => cases h
  | succ n ih =>
    unfold runWithin at h
    rw [run, cycles]
    by_cases can : w.canExecute running
    · rw [if_pos can] at h ⊢
      rw [if_pos can]
      cases ran : cycle stride running w with
      | error f v =>
        rw [ran] at h
        cases h
      | ok u v =>
        rw [ran] at h
        dsimp only at h ⊢
        split at h
        · rename_i later
          obtain ⟨⟨ws', x'⟩, rest, same⟩ := Option.map_eq_some_iff.mp h
          cases same
          obtain ⟨ends, begins⟩ := ih rest
          rw [if_pos later, if_pos later, begins]
          exact ⟨ends, rfl⟩
        · cases h
    · rw [if_neg can] at h ⊢
      cases h
      rw [if_neg can]
      exact ⟨rfl, rfl⟩

/-- The window with which a run ends, if that is within `n` cycles, whether or not they move the clock. -/
def runToEnd (stride : Stride M) (running : Running) : (n : Nat) → (w : Window M) → Option (Window M)
  | 0, _ => none
  | n + 1, w =>
    if w.canExecute running then
      match cycle stride running w with
      | .error _ _ => none
      | .ok () v => runToEnd stride running n v
    else some w

theorem run_of_runToEnd {stride : Stride M} {running : Running} {n grace : Nat} {w x : Window M}
    (h : runToEnd stride running n w = some x) (few : n ≤ grace) : run stride running grace w = .ok () x := by
  induction n generalizing w grace with
  | zero => cases h
  | succ n ih =>
    unfold runToEnd at h
    rw [run]
    by_cases can : w.canExecute running
    · rw [if_pos can] at h ⊢
      cases ran : cycle stride running w with
      | error f v =>
        rw [ran] at h
        cases h
      | ok u v =>
        rw [ran] at h
        dsimp only at h ⊢
        split
        · exact ih h (by omega)
        · -- one of the cycles that are granted is used up
          obtain ⟨grace, rfl⟩ := Nat.exists_eq_add_of_lt few
          exact ih h (by omega)
    · rw [if_neg can] at h ⊢
      cases h
      rfl

/-- What a call leads to, and what leaves each thread in it, if no run takes more than `n` cycles. -/
def Call.performWithin (stride : Stride M) (n : Nat) (call : Call M) (w : Window M) :
    Option (Window M × ((i : Nat) → List Retirement)) :=
  match call with
  | .execute running =>
    (runWithin stride running n w).map fun (ws, v) =>
      (v, fun i => ws.flatMap (leavingInCycle running i))
  | call =>
    match call.perform stride w with
    | .ok () v => some (v, fun _ => [])
    | .error _ _ => none

theorem Call.perform_of_performWithin {stride : Stride M} {n : Nat} {call : Call M} {w v : Window M}
    {rs : (i : Nat) → List Retirement} (h : call.performWithin stride n w = some (v, rs)) :
    call.perform stride w = .ok () v ∧ call.letsOut stride w = rs := by
  cases call with
  | execute running =>
    obtain ⟨⟨ws, x⟩, ran, same⟩ := Option.map_eq_some_iff.mp h
    obtain ⟨ends, begins⟩ := @run_of_runWithin _ _ _ _ _ lastCycles _ _ _ ran
    cases same
    refine ⟨ends, ?_⟩
    funext i
    show (cycles stride running lastCycles w).flatMap _ = _
    rw [begins]
  | _ =>
    unfold performWithin at h
    split at h
    · contradiction
    · split at h
      · rename_i performed
        cases h
        exact ⟨performed, rfl⟩
      · cases h

end Window

namespace Chronicle

variable {M : Type} [MemorySystem M] {stride : Window.Stride M} {n : Nat} {config : Config}
  {c c' : Chronicle M}

/-- The chronicle after one more call, if no run takes more than `n` cycles. -/
def afterWithin (stride : Window.Stride M) (n : Nat) (c : Chronicle M) (call : Window.Call M) :
    Option (Chronicle M) :=
  (call.performWithin stride n c.window).map fun (window, rs) =>
    { window
      pushed := fun i => c.pushed i ++ call.takesIn i
      retired := fun i => c.retired i ++ rs i }

/-- The chronicle of a series of calls, if no run takes more than `n` cycles. -/
def ofWithin (stride : Window.Stride M) (n : Nat) (config : Config) (calls : List (Window.Call M)) :
    Option (Chronicle M) :=
  match Window.new config with
  | .ok window => calls.foldlM (afterWithin stride n) { window }
  | .error _ => none

theorem after_of_afterWithin {call : Window.Call M} (h : c.afterWithin stride n call = some c') :
    c.after stride call = .ok c' := by
  obtain ⟨⟨v, rs⟩, performed, rfl⟩ := Option.map_eq_some_iff.mp h
  obtain ⟨ends, out⟩ := Window.Call.perform_of_performWithin performed
  unfold after
  rw [ends]
  dsimp only
  rw [out]

theorem foldlM_of_foldlM_afterWithin {calls : List (Window.Call M)}
    (h : calls.foldlM (afterWithin stride n) c = some c') :
    calls.foldlM (after stride) c = .ok c' := by
  induction calls generalizing c with
  | nil =>
    cases h
    rfl
  | cons call rest ih =>
    obtain ⟨c₁, first, h⟩ := Option.bind_eq_some_iff.mp h
    exact Except.bind_eq_ok.mpr ⟨c₁, after_of_afterWithin first, ih h⟩

theorem of_eq_ok {calls : List (Window.Call M)} (h : ofWithin stride n config calls = some c) :
    of stride config calls = .ok c := by
  unfold ofWithin at h
  unfold of
  cases made : Window.new config with
  | error f =>
    rw [made] at h
    cases h
  | ok w =>
    rw [made] at h
    exact foldlM_of_foldlM_afterWithin h

/-- What can be computed of a chronicle is so. -/
theorem exists_of_computed {α : Type} {f : Chronicle M → α} {x : α} {calls : List (Window.Call M)}
    (h : (ofWithin stride n config calls).map f = some x) :
    ∃ c, of stride config calls = .ok c ∧ f c = x := by
  obtain ⟨c, found, same⟩ := Option.map_eq_some_iff.mp h
  exact ⟨c, of_eq_ok found, same⟩

/-- What can be computed of a window after a run that ends a series of calls, though the clock may stand still, is
so. -/
theorem exists_of_runToEnd {α : Type} {f : Window M → α} {x : α} {calls : List (Window.Call M)} {running : Running}
    (h : (ofWithin stride n config calls).bind (fun c =>
      (Window.runToEnd stride running n c.window).map f) = some x) (few : n ≤ Window.lastCycles) :
    ∃ c, of stride config (calls ++ [.execute running]) = .ok c ∧ f c.window = x := by
  obtain ⟨c₀, found, ran⟩ := Option.bind_eq_some_iff.mp h
  obtain ⟨w, ran, same⟩ := Option.map_eq_some_iff.mp ran
  exact ⟨_, of_concat_eq_ok.mpr ⟨c₀, of_eq_ok found, after_eq_ok.mpr ⟨w, Window.run_of_runToEnd ran few, rfl⟩⟩, same⟩

end Chronicle

end CoreTiming
