import CoreTiming.Proofs.Charging
import CoreTiming.Proofs.ProgramOrder

/-!
# The time of a thread is what it has been charged for

Every cycle charges each thread with the span by which it moves the clock, however long the span and
whatever the thread was doing.  Only `synchronize` moves the clock without charging anybody.  So what a
thread has been charged for altogether is the time that has passed since it was set up, less those
jumps.

A `Timeline` keeps book of when threads were set up and of the jumps.  `Account.Charged` is the
invariant of one thread, and `Timeline.Balanced` that of them all.
-/

namespace CoreTiming

open Faulting

/-! ## Section 1: Only the clock is charged for -/

namespace Thread

variable {config : Config} {clock : Clock} {th th' : Thread}

/-- To link an entry is counted with the distance to its producers, and nowhere else. -/
theorem stats_link {forwarding : Bool} {e e' : Entry} (h : link forwarding e th = .ok e' th') :
    th'.stats = { th.stats with
      producerDistance := th'.stats.producerDistance
      totalProducerDistance := th'.stats.totalProducerDistance
      totalConsumers := th'.stats.totalConsumers } := by
  unfold link at h
  simp only [get_bind, bind_eq_ok, ofExcept_eq_ok, modify_bind, zoom_eq_ok, pure_eq_ok] at h
  obtain ⟨e₁, _, ⟨-, rfl⟩, u₁, _, ⟨-, rfl⟩, ⟨u₂, stores⟩, _, ⟨-, rfl⟩, e₃, _, ⟨-, rfl⟩,
    ⟨e₄, nearest⟩, th₄, watched, ⟨⟩, _, ⟨stats, counted, rfl⟩, rfl, rfl⟩ := h
  have frame := recordDistance_frame counted
  rw [(watches_watch watched).thread] at frame
  exact frame

theorem cpi_link {forwarding : Bool} {e e' : Entry} (h : link forwarding e th = .ok e' th') :
    th'.stats.cpi = th.stats.cpi := by
  rw [stats_link h]

theorem cpi_fetchNext (clock : Clock) (e : Entry) (th : Thread) :
    (fetchNext clock e th).2.stats.cpi = th.stats.cpi := by
  rw [fetchNext_frame]

theorem Admission.cpi_eq (h : Admission config clock th th') : th'.stats.cpi = th.stats.cpi := by
  cases h with
  | begin => rfl
  | attempt awake tried =>
    cases attempt_of_ok tried with
    | empty => rfl
    | fetch | full | loads => exact cpi_fetchNext clock _ th
    | @enter e _ _ _ _ _ linked => exact (cpi_link linked).trans (cpi_fetchNext clock e th)
  | blame cause => rfl

theorem cpi_start {i : Nat} {e : Entry} {now done latency : Time}
    (h : start i e now done latency th = .ok () th') : th'.stats.cpi = th.stats.cpi := by
  rw [stats_start h, cpi_countAccess]

theorem Firing.cpi_eq (h : Firing config clock th th') : th'.stats.cpi = th.stats.cpi := by
  cases h with
  | issue inside entry waiting ready asked started =>
    rw [cpi_start started]
    rcases asked with ⟨rfl, -⟩ | ⟨_, _, _, -, -, rfl⟩
    · rfl
    · rfl
  | account cutoff n =>
    unfold accountLongLoad
    split
    · rfl
    · split
      · rfl
      · rfl
  | look event => rfl

end Thread

namespace Account

variable {config : Config} {a b : Account} {k : Nat}

/-- All the time of the core but `k` femtoseconds has been charged to the thread, unless the clock
stands at the end of time. -/
def Charged (k : Nat) (a : Account) : Prop :=
  a.clock.now ≠ .never → a.thread.stats.cpi.total.toNat + k = a.clock.now.toNat

theorem Charged.of_eq (h : a.Charged k) (cpi : b.thread.stats.cpi = a.thread.stats.cpi)
    (clock : b.clock = a.clock) : b.Charged k := by
  unfold Charged
  rw [cpi, clock]
  exact h

/-- The clock and the thread go the same way. -/
theorem Charged.advance (h : a.Charged k) (histogram : Bool) (span : Time) :
    Charged k { a with
      clock := a.clock.addLatency span
      thread := a.thread.charge histogram a.clock.now span } := by
  intro intime
  have before : a.clock.now ≠ .never := by
    intro last
    apply intime
    show a.clock.now + span = .never
    rw [last, Time.never_add]
  have balance := h before
  have passed : (a.clock.now + span).toNat = a.clock.now.toNat + span.toNat := Time.toNat_add_of_ne intime
  show (a.thread.stats.cpi.charge a.thread.cause span).total.toNat + k = (a.clock.now + span).toNat
  have inRange := (a.clock.now + span).toNat_le_limit
  -- what has been charged is no more than what has passed, so it stays in range as well
  rw [CpiStack.total_charge, Time.toNat_add]
  omega

theorem Charged.beat (h : a.Charged k) (beat : Beat config a b) : b.Charged k := by
  cases beat with
  | dispatch admitted => exact h.of_eq admitted.cpi_eq rfl
  | issue fired => exact h.of_eq fired.cpi_eq rfl
  | leave left =>
    cases left with
    | retire => exact h.of_eq rfl rfl
    | @flush e th oldest done flushes flushed =>
      refine h.of_eq ?_ rfl
      show th.stats.cpi = _
      rw [(Thread.flush_eq_ok flushed).2.2.2]
      rfl
  | advance histogram span => exact h.advance histogram span

theorem Charged.move (h : a.Charged k) (move : Move config a b) : b.Charged k := by
  cases move with
  | beat beat => exact h.beat beat
  | contact contacted =>
    cases contacted with
    | @push th lane u v same pushed =>
      refine h.of_eq ?_ rfl
      show th.stats.cpi = _
      rw [(Window.enqueue_eq_ok pushed).2.2.1]
      rfl
    | tell now reported endOfStream => exact h.of_eq rfl rfl

theorem Move.clock_le (h : Move config a b) : a.clock.now ≤ b.clock.now := by
  cases h with
  | beat beat =>
    cases beat with
    | dispatch | issue => exact le_refl _
    | leave left => cases left with | retire | flush => exact le_refl _
    | advance histogram span => exact Time.le_add_right _ _
  | contact contacted => cases contacted with | push | tell => exact le_refl _

end Account

/-! ## Section 2: Timelines -/

/-- A window, the time of the core at which each of its threads was set up, and by how many
femtoseconds the owner has moved the clock since then. -/
structure Timeline (M : Type) where
  /-- The window. -/
  window : Window M
  /-- When each thread was set up. -/
  begun : (i : Nat) → Time := fun _ => 0
  /-- How far the clock has been moved since then. -/
  jumped : (i : Nat) → Nat := fun _ => 0

namespace Window.Call

variable {M : Type}

/-- Whether a call sets up thread `j`. -/
def setsUp : Call M → (j : Nat) → Bool
  | .initializeThread i _ _, j => i = j
  | _, _ => false

/-- How far a call that leads from `w` to `v` moves the clock while no cycle runs. -/
def jump : Call M → (w v : Window M) → Nat
  | .synchronize _ _, w, v => v.clock.now.toNat - w.clock.now.toNat
  | _, _, _ => 0

end Window.Call

namespace Timeline

variable {M : Type}

/-- The timeline after a call that leads to `v`. -/
def note (t : Timeline M) (call : Window.Call M) (v : Window M) : Timeline M :=
  { window := v
    begun := fun i => if call.setsUp i then v.clock.now else t.begun i
    jumped := fun i => if call.setsUp i then 0 else t.jumped i + call.jump t.window v }

section

variable [MemorySystem M]

/-- The timeline after one more call. -/
def after (stride : Window.Stride M) (t : Timeline M) (call : Window.Call M) :
    Except Fault (Timeline M) :=
  match call.perform stride t.window with
  | .ok () v => .ok (t.note call v)
  | .error f _ => .error f

/-- The timeline of a series of calls of a new window, if all of them go through. -/
def of (stride : Window.Stride M) (config : Config) (calls : List (Window.Call M)) :
    Except Fault (Timeline M) := do
  let window ← Window.new config
  calls.foldlM (after stride) { window }

end

/-! ## Section 3: The balance -/

/-- As long as there is time left, all time is accounted for. -/
structure Balanced (t : Timeline M) : Prop where
  /-- Every thread has been charged for the time since it was set up, less the jumps. -/
  charged : ∀ i lane, t.window.lanes[i]? = some lane →
    Account.Charged ((t.begun i).toNat + t.jumped i) { clock := t.window.clock, thread := lane.thread }
  /-- Threads that were set up at the same time have seen the same jumps. -/
  together : t.window.clock.now ≠ .never → ∀ i j, i < t.window.lanes.size → j < t.window.lanes.size →
    t.begun i = t.begun j → t.jumped i = t.jumped j

variable {t t' : Timeline M}

theorem balanced_new {config : Config} {w : Window M} (made : Window.new config = .ok w) :
    Balanced { window := w } := by
  obtain ⟨period, rfl⟩ := Window.new_eq_ok made
  refine ⟨fun i lane found => ?_, fun _ _ _ _ _ _ => rfl⟩
  simp at found

/-- A thread as young as the clock has seen no jump. -/
theorem Balanced.unmoved {i : Nat} (h : t.Balanced) (intime : t.window.clock.now ≠ .never)
    (inside : i < t.window.lanes.size) (young : t.begun i = t.window.clock.now) : t.jumped i = 0 := by
  have balance := h.charged i _ (Array.getElem?_eq_getElem inside) intime
  dsimp only at balance
  rw [young] at balance
  omega

/-- A thread that is set up has not been charged for anything, and it is as young as the clock. -/
theorem Balanced.initializeThread {i : Nat} {memory : M} {predictor : Option Predictor} {v : Window M}
    (h : t.Balanced) (ran : Window.initializeThread i memory predictor t.window = .ok () v) :
    (t.note (.initializeThread i memory predictor) v).Balanced := by
  obtain ⟨rfl, th, made, rfl⟩ := Window.initializeThread_eq_ok ran
  obtain ⟨capacity, rfl⟩ := Thread.new_eq_ok made
  refine ⟨fun j lane found => ?_, fun intime j k hj hk same => ?_⟩
  · dsimp only [note] at found ⊢
    by_cases last : t.window.lanes.size = j
    · subst last
      rw [Array.getElem?_push_size] at found
      cases found
      intro _
      simp [Window.Call.setsUp, ThreadStats.new]
    · have inside : j < t.window.lanes.size := by
        have := (Array.getElem?_eq_some_iff.mp found).1
        rw [Array.size_push] at this
        omega
      rw [Array.getElem?_push_lt inside, ← Array.getElem?_eq_getElem inside] at found
      simp only [Window.Call.setsUp, Window.Call.jump, last]
      exact h.charged j lane found
  · -- the new thread has seen no jump, and neither has any other thread that is as young as the clock
    dsimp only [note] at intime hj hk
    rw [Array.size_push] at hj hk
    simp only [note, Window.Call.setsUp, Window.Call.jump, decide_eq_true_eq, Nat.add_zero] at same ⊢
    by_cases last : t.window.lanes.size = j
    · by_cases last' : t.window.lanes.size = k
      · rw [if_pos last, if_pos last']
      · rw [if_pos last, if_neg last'] at same
        rw [if_pos last, if_neg last', h.unmoved intime (by omega) same.symm]
    · by_cases last' : t.window.lanes.size = k
      · rw [if_neg last, if_pos last'] at same
        rw [if_neg last, if_pos last', h.unmoved intime (by omega) same]
      · rw [if_neg last, if_neg last'] at same
        rw [if_neg last, if_neg last']
        exact h.together intime j k (by omega) (by omega) same

/-- Whatever leads on without moving the core's time keeps the balance. -/
theorem Balanced.moves {call : Window.Call M} {v : Window M}
    {us : Nat → List OpInstance} {rs : Nat → List Retirement} (h : t.Balanced)
    (old : ∀ j, call.setsUp j = false) (still : call.jump t.window v = 0)
    (moves : Window.Leads Account.Move us rs t.window v) : (t.note call v).Balanced := by
  have begun : (t.note call v).begun = t.begun := by
    funext j
    simp [note, old]
  have jumped : (t.note call v).jumped = t.jumped := by
    funext j
    simp [note, old, still]
  refine ⟨fun j lane' found' => ?_, fun intime j k hj hk => ?_⟩
  · obtain ⟨lane, found, leads⟩ := rel_right (moves.lanes j) found'
    rw [begun, jumped]
    have charged := h.charged j lane found
    have kept := leads.keeps (fun move holds => Account.Charged.move holds move) [] [] charged
    exact kept
  · rw [begun, jumped]
    have size := moves.size_eq
    have inside : j < t.window.lanes.size := size ▸ hj
    refine h.together ?_ j k inside (size ▸ hk)
    -- a clock that is not at the end of time has not been there before
    obtain ⟨lane', -, leads⟩ := rel_left (moves.lanes j) (Array.getElem?_eq_getElem inside)
    have later := leads.keeps (P := fun a => t.window.clock.now ≤ a.clock.now)
      (fun move holds => le_trans holds (Account.Move.clock_le move)) [] [] (le_refl _)
    exact Time.ne_never_of_le later intime

variable [MemorySystem M] {stride : Window.Stride M}

/-- A jump is booked for every thread. -/
theorem Balanced.synchronize {i : Nat} {time : Time} {v : Window M} (h : t.Balanced)
    (ran : Window.synchronize i time t.window = .ok () v) : (t.note (.synchronize i time) v).Balanced := by
  obtain ⟨w₁, now, moved, -, later, rfl⟩ := Window.synchronize_eq_ok ran
  obtain ⟨lane₀, found₀, rfl⟩ := Window.modifyThread_eq_ok.mp moved
  have before : now ≠ .never → t.window.clock.now ≠ .never := Time.ne_never_of_le later
  rw [Time.le_iff_toNat_le] at later
  refine ⟨fun j lane' found' => ?_, fun intime j k hj hk same => ?_⟩
  · obtain ⟨lane, found, cpi⟩ : ∃ lane, t.window.lanes[j]? = some lane ∧
        lane'.thread.stats.cpi = lane.thread.stats.cpi := by
      dsimp only [note] at found'
      by_cases here : i = j
      · subst here
        rw [Array.getElem?_setIfInBounds_self_of_lt (Array.getElem?_eq_some_iff.mp found₀).1] at found'
        cases found'
        exact ⟨lane₀, found₀, rfl⟩
      · rw [Array.getElem?_setIfInBounds_ne here] at found'
        exact ⟨lane', found', rfl⟩
    intro intime
    have balance := h.charged j lane found (before intime)
    dsimp only [note, Window.Call.setsUp, Window.Call.jump] at balance ⊢
    rw [cpi]
    simp only [Bool.false_eq_true, if_false]
    omega
  · dsimp only [note, Window.Call.setsUp, Window.Call.jump] at intime hj hk same ⊢
    rw [Array.size_setIfInBounds] at hj hk
    simp only [Bool.false_eq_true, if_false] at same ⊢
    rw [h.together (before intime) j k hj hk same]

/-- Every call keeps the balance. -/
theorem Balanced.after {call : Window.Call M} (h : t.Balanced) (ran : t.after stride call = .ok t') :
    t'.Balanced := by
  unfold Timeline.after at ran
  split at ran
  · rename_i v performed
    cases ran
    cases call with
    | initializeThread i memory predictor => exact h.initializeThread performed
    | synchronize i time => exact h.synchronize performed
    | _ => exact h.moves (fun _ => rfl) rfl (Window.Call.moves performed (by simp) (by simp))
  · cases ran

theorem balanced_foldlM {calls : List (Window.Call M)} (h : t.Balanced)
    (ran : calls.foldlM (after stride) t = .ok t') : t'.Balanced :=
  Except.keeps_of_foldlM ran (fun _ made before => before.after made) h

/-- In whatever a series of calls leads to, every thread has been charged for exactly the time that has
passed since it was set up, less the jumps that `synchronize` has made since then; threads that were set
up at the same time have been charged for the same. -/
theorem charged_since_begun {config : Config} {calls : List (Window.Call M)} {i : Nat} {lane : Lane M}
    (made : of stride config calls = .ok t) (intime : t.window.clock.now ≠ .never)
    (found : t.window.lanes[i]? = some lane) :
    lane.thread.stats.cpi.total.toNat + ((t.begun i).toNat + t.jumped i) = t.window.clock.now.toNat ∧
    ∀ j other, t.window.lanes[j]? = some other → t.begun j = t.begun i →
      other.thread.stats.cpi.total = lane.thread.stats.cpi.total := by
  obtain ⟨w, new, made⟩ := Except.bind_eq_ok.mp made
  have balanced : t.Balanced := balanced_foldlM (balanced_new new) made
  have balance := balanced.charged i lane found intime
  refine ⟨balance, fun j other found' same => ?_⟩
  have balance' := balanced.charged j other found' intime
  have inside := (Array.getElem?_eq_some_iff.mp found).1
  have inside' := (Array.getElem?_eq_some_iff.mp found').1
  dsimp only at balance balance'
  rw [same, balanced.together intime j i inside' inside same] at balance'
  apply Time.ext_toNat
  omega

/-! ## Section 4: Timelines that can be computed -/

variable {n : Nat}

/-- The timeline after one more call, if no run takes more than `n` cycles. -/
def afterWithin (stride : Window.Stride M) (n : Nat) (t : Timeline M) (call : Window.Call M) :
    Option (Timeline M) :=
  (call.performWithin stride n t.window).map fun (v, _) => t.note call v

/-- The timeline of a series of calls, if no run takes more than `n` cycles. -/
def ofWithin (stride : Window.Stride M) (n : Nat) (config : Config) (calls : List (Window.Call M)) :
    Option (Timeline M) :=
  match Window.new config with
  | .ok window => calls.foldlM (afterWithin stride n) { window }
  | .error _ => none

theorem after_of_afterWithin {call : Window.Call M} (h : t.afterWithin stride n call = some t') :
    t.after stride call = .ok t' := by
  obtain ⟨⟨v, rs⟩, performed, rfl⟩ := Option.map_eq_some_iff.mp h
  unfold after
  rw [(Window.Call.perform_of_performWithin performed).1]

theorem foldlM_of_foldlM_afterWithin {calls : List (Window.Call M)}
    (h : calls.foldlM (afterWithin stride n) t = some t') : calls.foldlM (after stride) t = .ok t' := by
  induction calls generalizing t with
  | nil =>
    cases h
    rfl
  | cons call rest ih =>
    obtain ⟨t₁, first, h⟩ := Option.bind_eq_some_iff.mp h
    exact Except.bind_eq_ok.mpr ⟨t₁, after_of_afterWithin first, ih h⟩

theorem of_eq_ok {config : Config} {calls : List (Window.Call M)}
    (h : ofWithin stride n config calls = some t) : of stride config calls = .ok t := by
  unfold ofWithin at h
  cases new : Window.new config with
  | error f =>
    rw [new] at h
    cases h
  | ok w =>
    rw [new] at h
    exact Except.bind_eq_ok.mpr ⟨w, new, foldlM_of_foldlM_afterWithin h⟩

/-- Two threads, one of which starts over behind a branch that was predicted wrongly; then the clock
is moved, and a third thread joins them. -/
def jumpingCalls : List (Window.Call FixedMemory) :=
  let op : OpInstance := { op := {} }
  [.initializeThread 0 default none, .initializeThread 1 default none,
    .push 0 [op, { op := { kind := .branch }, mispredicted := true }, op, op], .push 1 [op, op],
    .markEndOfStream 0, .markEndOfStream 1, .execute #[true, true],
    .synchronize 0 (.ofNs 40), .synchronize 1 (.ofNs 50), .initializeThread 2 default none,
    .push 2 [op], .markEndOfStream 2, .execute #[true, true, true]]

theorem charged_since_begun_across_flush_and_jump :
    ∃ (t : Timeline FixedMemory) (lane : Lane FixedMemory),
      of Window.toEvent { core := { smtThreads := 2 } } jumpingCalls = .ok t ∧
      t.window.clock.now ≠ .never ∧ t.window.lanes[1]? = some lane ∧ t.jumped 1 = 35112780 ∧
      lane.thread.stats.cpi.total.toNat + ((t.begun 1).toNat + t.jumped 1) = t.window.clock.now.toNat ∧
      ∀ j other, t.window.lanes[j]? = some other → t.begun j = t.begun 1 →
        other.thread.stats.cpi.total = lane.thread.stats.cpi.total := by
  have computed : ((ofWithin Window.toEvent 60 { core := { smtThreads := 2 } } jumpingCalls).map fun t =>
      (t.window.clock.now.isNever, t.window.lanes.size, t.jumped 1)) = some (false, 3, 35112780) := by
    decide +kernel
  obtain ⟨t, made, same⟩ := Option.map_eq_some_iff.mp computed
  simp only [Prod.mk.injEq] at same
  obtain ⟨intime, size, jumped⟩ := same
  rw [Time.isNever_eq_false_iff] at intime
  have found : t.window.lanes[1]? = some t.window.lanes[1] := Array.getElem?_eq_getElem (by omega)
  exact ⟨t, _, of_eq_ok made, intime, found, jumped, charged_since_begun (of_eq_ok made) intime found⟩

end Timeline

end CoreTiming
