import CoreTiming.Proofs.Linking
import CoreTiming.Proofs.ProgramOrder

/-!
# What only the owner of a window tells its threads

Whether more micro-ops are to come, and up to which time it knows of latency, a thread is told from outside.
No cycle changes either, and a stream that has ended stays so.
-/

namespace CoreTiming

open Faulting

/-- What a thread has been told: whether its stream has ended, and its time. -/
def Thread.told (th : Thread) : Bool × Time := (th.endOfStream, th.now)

namespace Thread

variable {config : Config} {clock : Clock} {th th' : Thread}

theorem told_fetchNext (clock : Clock) (e : Entry) (th : Thread) :
    (th.fetchNext clock e).2.told = th.told := by
  rw [fetchNext_frame]
  rfl

theorem Admission.told_eq (h : Admission config clock th th') : th'.told = th.told := by
  cases h with
  | begin => rfl
  | attempt awake tried =>
    cases attempt_of_ok tried with
    | empty => rfl
    | fetch | full | loads => exact told_fetchNext clock _ th
    | @enter e e' th₂ next fetched station linked =>
      show th₂.told = th.told
      rw [(linked_link linked).thread]
      exact told_fetchNext clock e th
  | blame cause => rfl

theorem Firing.told_eq (h : Firing config clock th th') : th'.told = th.told := by
  cases h with
  | issue inside entry waiting ready asked started =>
    rw [(start_eq_ok started).1]
    rcases asked with ⟨rfl, -⟩ | ⟨_, _, _, -, -, rfl⟩
    · rfl
    · rfl
  | account cutoff n =>
    unfold accountLongLoad
    split
    · rfl
    · split
      · rfl
      · rfl
  | look event => rfl

end Thread

/-- No cycle tells a thread anything. -/
theorem Account.Beat.told_eq {config : Config} {a b : Account} (h : Account.Beat config a b) :
    b.thread.told = a.thread.told := by
  cases h with
  | dispatch admitted => exact admitted.told_eq
  | issue fired => exact fired.told_eq
  | leave left =>
    cases left with
    | retire => rfl
    | @flush e th oldest done flushes flushed =>
      show th.told = _
      rw [(Thread.flush_eq_ok flushed).2.2.2]
      rfl
  | advance histogram span => rfl

/-- A thread that gets micro-ops has been told nothing. -/
theorem Lane.told_pushOne {M : Type} [MemorySystem M] {period : Period} {i : Nat} {u : OpInstance}
    {l l' : Lane M} (h : Window.pushOne period i u l = .ok () l') : l'.thread.told = l.thread.told := by
  rcases Window.pushOne_eq_ok h with ⟨-, rfl⟩ | ⟨-, u', l₁, th, fetched, queued, rfl⟩
  · rfl
  · obtain ⟨-, thread⟩ := Window.fetch_eq_ok fetched
    obtain ⟨frame, -, -, -⟩ := Window.enqueue_eq_ok queued
    rw [frame, ← thread]
    rfl

theorem Lane.told_pushes {M : Type} [MemorySystem M] {period : Period} {i : Nat} {us : List OpInstance}
    {l l' : Lane M} (h : us.forM (Window.pushOne period i) l = .ok () l') :
    l'.thread.told = l.thread.told := by
  induction us generalizing l with
  | nil => rw [← (pure_eq_ok.mp h).2]
  | cons u us ih =>
    obtain ⟨⟨⟩, l₁, first, h⟩ := bind_eq_ok.mp h
    exact (ih h).trans (Lane.told_pushOne first)

namespace Window

variable {M : Type} {w v : Window M} {i : Nat}

/-- What the threads of a window have been told, in slot order. -/
def told (w : Window M) : Array (Bool × Time) := w.lanes.map fun l => l.thread.told

theorem getElem?_told (w : Window M) (i : Nat) :
    w.told[i]? = w.lanes[i]?.map fun l => l.thread.told := by
  unfold told
  rw [Array.getElem?_map]

/-- What a lane keeps of itself when it changes, all lanes keep. -/
theorem map_setLane {β : Type} {l l' : Lane M} (f : Lane M → β) (found : w.lanes[i]? = some l)
    (same : f l' = f l) : (w.lanes.setIfInBounds i l').map f = w.lanes.map f := by
  apply Array.ext_getElem?
  intro j
  rw [Array.getElem?_map, Array.getElem?_map]
  by_cases here : i = j
  · subst here
    rw [Array.getElem?_setIfInBounds_self_of_lt (Array.getElem?_eq_some_iff.mp found).1, found,
      Option.map_some, Option.map_some, same]
  · rw [Array.getElem?_setIfInBounds_ne here]

theorem told_setLane {l l' : Lane M} (found : w.lanes[i]? = some l)
    (same : l'.thread.told = l.thread.told) :
    ({ w with lanes := w.lanes.setIfInBounds i l' } : Window M).told = w.told :=
  map_setLane (fun l => l.thread.told) found same

variable [MemorySystem M] {α : Type} {a : α}

theorem told_onLane {f : Faulting (Lane M) α} (h : onLane i f w = .ok a v)
    (same : ∀ l l', f l = .ok a l' → l'.thread.told = l.thread.told) : v.told = w.told := by
  obtain ⟨l, l', found, ran, rfl⟩ := onLane_eq_ok.mp h
  exact told_setLane found (same l l' ran)

omit [MemorySystem M] in
/-- Whatever happens in cycles, nothing is told. -/
theorem told_of_leads {us : Nat → List OpInstance} {rs : Nat → List Retirement}
    (h : Leads Account.Beat us rs w v) : v.told = w.told := by
  apply Array.ext_getElem?
  intro i
  rw [getElem?_told, getElem?_told]
  have related := h.lanes i
  generalize w.lanes[i]? = o at related
  generalize v.lanes[i]? = o' at related
  cases related with
  | none => rfl
  | @some lane lane' leads =>
    have kept : lane'.thread.told = lane.thread.told :=
      Thread.Leads.keeps (P := fun a => a.thread.told = lane.thread.told)
        (fun beat same => (Account.Beat.told_eq beat).trans same) leads [] [] rfl
    rw [Option.map_some, Option.map_some, kept]

theorem told_cycle {stride : Stride M} {running : Running} (h : cycle stride running w = .ok () v) :
    v.told = w.told :=
  told_of_leads (leads_cycle h)

theorem told_run {stride : Stride M} {running : Running} {grace : Nat}
    (h : run stride running grace w = .ok () v) : v.told = w.told :=
  told_of_leads (leads_run h)

/-! ## Section 1: Streams that have ended -/

/-- The stream of thread `i` has ended. -/
def Ended (i : Nat) (w : Window M) : Prop := ∃ l, w.lanes[i]? = some l ∧ l.thread.endOfStream = true

omit [MemorySystem M] in
theorem Ended.of_told (h : w.Ended i) (same : v.told = w.told) : v.Ended i := by
  obtain ⟨l, found, ended⟩ := h
  have told := congrArg (fun told : Array (Bool × Time) => told[i]?) same
  simp only [getElem?_told, found, Option.map_some] at told
  obtain ⟨l', found', equal⟩ := Option.map_eq_some_iff.mp told
  exact ⟨l', found', (congrArg Prod.fst equal).trans ended⟩

omit [MemorySystem M] in
/-- A lane may change if its own stream does not go on. -/
theorem Ended.setLane {j : Nat} {l l' : Lane M} (h : w.Ended i) (found : w.lanes[j]? = some l)
    (kept : l.thread.endOfStream = true → l'.thread.endOfStream = true) :
    Ended i { w with lanes := w.lanes.setIfInBounds j l' } := by
  obtain ⟨m, at_i, ended⟩ := h
  by_cases here : j = i
  · subst here
    cases found.symm.trans at_i
    refine ⟨l', ?_, kept ended⟩
    exact Array.getElem?_setIfInBounds_self_of_lt (Array.getElem?_eq_some_iff.mp found).1
  · refine ⟨m, ?_, ended⟩
    dsimp only
    rw [Array.getElem?_setIfInBounds_ne here]
    exact at_i

/-- A call that does not set up a thread leaves ended streams so. -/
theorem Ended.perform {stride : Stride M} {call : Call M} (h : w.Ended i)
    (ran : call.perform stride w = .ok () v) : v.Ended i := by
  cases call with
  | initializeThread j memory predictor =>
    obtain ⟨l, found, ended⟩ := h
    have made : Window.initializeThread j memory predictor w = .ok () v := ran
    obtain ⟨-, th, -, rfl⟩ := Window.initializeThread_eq_ok made
    refine ⟨l, ?_, ended⟩
    -- the new lane comes last
    have inside := (Array.getElem?_eq_some_iff.mp found).1
    dsimp only
    rw [Array.getElem?_push, if_neg (ne_of_lt inside)]
    exact found
  | push j us =>
    exact h.of_told (told_onLane (onLane_eq_ok.mpr (push_eq_ok ran)) fun _ _ => Lane.told_pushes)
  | execute running =>
    exact h.of_told (told_run ran)
  | synchronize j time =>
    obtain ⟨⟨⟩, w₁, moved, done⟩ := bind_eq_ok.mp ran
    obtain ⟨l, found, rfl⟩ := modifyThread_eq_ok.mp moved
    have later : Ended i
        { w with lanes := w.lanes.setIfInBounds j { l with thread := { l.thread with now := time } } } :=
      h.setLane found id
    obtain ⟨m, at_i, ended⟩ := later
    rw [← modify_eq_ok.mp done]
    refine ⟨m, ?_, ended⟩
    dsimp only
    split
    · exact at_i
    · exact at_i
  | returnLatency j inWakeup =>
    obtain ⟨l, found, rfl⟩ := modifyThread_eq_ok.mp (Call.told_of_returnLatency ran)
    exact h.setLane found id
  | markEndOfStream j =>
    have marked : Window.markEndOfStream j w = .ok () v := ran
    obtain ⟨l, found, rfl⟩ := modifyThread_eq_ok.mp marked
    exact h.setLane found fun _ => rfl
  | repartition running =>
    obtain ⟨l, found, ended⟩ := h
    rw [← modify_eq_ok.mp ran]
    exact ⟨l, found, ended⟩

theorem ended_markEndOfStream (h : Window.markEndOfStream i w = .ok () v) : v.Ended i := by
  obtain ⟨l, found, rfl⟩ := modifyThread_eq_ok.mp h
  refine ⟨_, Array.getElem?_setIfInBounds_self_of_lt (Array.getElem?_eq_some_iff.mp found).1, rfl⟩

end Window

end CoreTiming
