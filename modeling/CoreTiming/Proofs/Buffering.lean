import CoreTiming.Barrier.Host
import CoreTiming.Proofs.AlikeWindows
import CoreTiming.Proofs.Draining
import CoreTiming.Proofs.Keeping
import CoreTiming.Proofs.Outlook

/-!
# How much is buffered in front of a window

Micro-ops that are pushed wait in the ring behind the window, and a push stops when the ring is full
(`Thread.Fills`, `Window.stops_of_push`).  With one thread that runs, the window makes cycles until either nothing is
left or the thread could dispatch and lacks micro-ops: so whatever it has done before, less than a window is in the
window afterwards, and less than two dispatch groups are buffered (`Window.HasOne.run`).
-/

namespace CoreTiming

open Faulting

/-- Some fetch stops with the fault. -/
def MemorySystem.RaisesOnFetch (M : Type) [MemorySystem M] (f : Fault) : Prop :=
  ∃ (a : Address) (n : Nat) (m m' : M), MemorySystem.fetch a n m = .error f m'

/-! ## Section 1: Pushes -/

/-- `n` more micro-ops are buffered, for which there was room. -/
structure Thread.Fills (n : Nat) (th th' : Thread) : Prop where
  /-- Nothing but the buffer, the next number and the statistics has changed. -/
  frame : th' = { th with ring := th'.ring, nextSeq := th'.nextSeq, stats := th'.stats }
  /-- They are in the ring. -/
  length : th'.ring.length = th.ring.length + n
  /-- The ring has the same room. -/
  capacity : th'.ring.capacity = th.ring.capacity
  /-- There was room for them. -/
  room : n = 0 ∨ th'.ring.length ≤ th'.ring.capacity

namespace Thread

variable {th th' th'' : Thread} {n k : Nat}

theorem Fills.refl (th : Thread) : th.Fills 0 th := ⟨rfl, rfl, rfl, .inl rfl⟩

theorem Fills.trans (h : th.Fills n th') (h' : th'.Fills k th'') : th.Fills (n + k) th'' := by
  refine ⟨?_, ?_, h'.capacity.trans h.capacity, ?_⟩
  · rw [h'.frame, h.frame]
  · rw [h'.length, h.length, Nat.add_assoc]
  · have room := h.room
    have room' := h'.room
    rw [h'.capacity, h'.length] at room' ⊢
    omega

theorem Fills.inWindow_eq (h : th.Fills n th') : th'.inWindow = th.inWindow := by rw [h.frame]

/-- What is buffered afterwards was buffered before, or fits into the ring. -/
theorem Fills.buffered_le (h : th.Fills n th') : th'.buffered ≤ max th.buffered th.ring.capacity := by
  have room := h.room
  unfold buffered
  rw [h.length, h.capacity, h.inWindow_eq] at *
  omega

end Thread

namespace Window

variable {M : Type} {th th' : Thread} {lane : Nat} {u : OpInstance} {f : Fault}

theorem fills_enqueue (h : enqueue lane u th = .ok () th') : th.Fills 1 th' := by
  obtain ⟨frame, ring, -, -⟩ := enqueue_eq_ok h
  have length : th'.ring.length = th.ring.length + 1 := by
    rw [← Ring.length_toList, ring, List.length_append, Ring.length_toList]
    rfl
  have capacity := ((keeps_enqueue lane u).done h).capacity
  refine ⟨?_, length, capacity, .inr ?_⟩
  · rw [frame]
  · unfold enqueue at h
    rw [modify_bind, get_bind] at h
    split at h
    · cases h
    · rename_i room
      simp only [Ring.isFull, decide_eq_true_eq, not_le] at room
      omega

/-- While there is room, a micro-op is not refused over a full buffer. -/
theorem buffers_enqueue (room : th.ring.length < th.ring.capacity) (h : enqueue lane u th = .error f th') :
    f.isBufferFull = false := by
  unfold enqueue at h
  rw [modify_bind, get_bind, if_neg (by simpa [Ring.isFull] using room)] at h
  rcases bind_eq_error.mp h with stopped | ⟨_, _, -, stopped⟩
  · exact Word.buffers_add _ _ _ (ofExcept_eq_error stopped)
  · exact absurd stopped modify_ne_error

variable [MemorySystem M] {period : Period} {i : Nat} {us : List OpInstance} {l l' : Lane M}

theorem fills_pushOne (h : pushOne period i u l = .ok () l') :
    l.thread.Fills (if u.squashed then 0 else 1) l'.thread := by
  rcases pushOne_eq_ok h with ⟨squashed, rfl⟩ | ⟨kept, u', l₁, th, fetched, queued, rfl⟩
  · rw [if_pos squashed]
    exact .refl _
  · rw [if_neg (Bool.not_eq_true _ ▸ kept), ← (fetch_eq_ok fetched).2]
    exact fills_enqueue queued

theorem fills_forM_pushOne (h : us.forM (pushOne period i) l = .ok () l') :
    ∃ n ≤ us.length, l.thread.Fills n l'.thread := by
  induction us generalizing l with
  | nil =>
    rw [← (pure_eq_ok.mp h).2]
    exact ⟨0, le_rfl, .refl _⟩
  | cons u us ih =>
    obtain ⟨⟨⟩, l₁, first, h⟩ := bind_eq_ok.mp h
    obtain ⟨n, le, rest⟩ := ih h
    refine ⟨_, ?_, (fills_pushOne first).trans rest⟩
    rw [List.length_cons]
    split
    · omega
    · omega

/-- A fetch stops over a time that is too long, or over what the memory stops over. -/
theorem fetch_eq_error (h : fetch period u l = .error f l') :
    (∃ t : Time, t.divideRounded period.length = .error f) ∨ MemorySystem.RaisesOnFetch M f := by
  unfold fetch at h
  split at h
  · rcases bind_eq_error.mp h with stopped | ⟨served, _, -, h⟩
    · obtain ⟨m', raised⟩ := zoom_eq_error stopped
      exact .inr ⟨_, _, _, m', raised⟩
    · split at h
      · exact absurd h pure_ne_error
      · rcases bind_eq_error.mp h with stopped | ⟨_, _, -, h⟩
        · exact .inl ⟨_, ofExcept_eq_error stopped⟩
        · exact absurd h pure_ne_error
  · exact absurd h pure_ne_error

theorem stops_of_fetch (h : fetch period u l = .error f l') :
    f.isBufferFull = false ∨ MemorySystem.RaisesOnFetch M f :=
  (fetch_eq_error h).imp_left fun ⟨_, stopped⟩ => Time.buffers_divideRounded _ _ _ stopped

theorem stops_of_pushOne (room : l.thread.ring.length < l.thread.ring.capacity)
    (h : pushOne period i u l = .error f l') : f.isBufferFull = false ∨ MemorySystem.RaisesOnFetch M f := by
  unfold pushOne at h
  split at h
  · exact absurd h pure_ne_error
  · rcases bind_eq_error.mp h with stopped | ⟨u', l₁, fetched, h⟩
    · exact stops_of_fetch stopped
    · rw [get_bind] at h
      obtain ⟨th, stopped⟩ := zoom_eq_error h
      rw [(fetch_eq_ok fetched).2] at stopped
      exact .inl (buffers_enqueue room stopped)

/-- While there is room for all of them, no micro-op is refused over a full buffer. -/
theorem stops_of_forM_pushOne (room : l.thread.ring.length + us.length ≤ l.thread.ring.capacity)
    (h : us.forM (pushOne period i) l = .error f l') : f.isBufferFull = false ∨ MemorySystem.RaisesOnFetch M f := by
  induction us generalizing l with
  | nil => exact absurd h pure_ne_error
  | cons u us ih =>
    rw [List.length_cons] at room
    rcases bind_eq_error.mp h with stopped | ⟨⟨⟩, l₁, first, h⟩
    · exact stops_of_pushOne (by omega) stopped
    · refine ih ?_ h
      have filled := fills_pushOne first
      rw [filled.length, filled.capacity]
      split
      · omega
      · omega

/-! ## Section 2: Where a run stops -/

variable {w v : Window M} {stride : Stride M} {running : Running} {grace : Nat} {config : Config}

/-- A run goes on for as long as it can. -/
theorem cannot_of_run (h : run stride running grace w = .ok () v) : v.canExecute running = false := by
  fun_induction run stride running grace w with
  | case1 => cases h
  | case2 grace w can u cycled later ih => exact ih h
  | case3 => cases h
  | case4 w can u cycled later grace ih => exact ih h
  | case5 grace w stop =>
    cases h
    simpa using stop

theorem share_cycle (h : cycle stride running w = .ok () v) : v.share = w.share := by
  obtain ⟨_, _, _, w₁, w₂, w₃, dispatched, issued, committed, rfl⟩ := stages_of_cycle h
  show w₃.share = w.share
  rw [commit_frame committed]
  exact (worked_issue issued).share.trans (worked_dispatch dispatched).share

theorem share_run (h : run stride running grace w = .ok () v) : v.share = w.share :=
  keeps_of_run (P := (·.share = w.share)) h (fun cycled => (share_cycle cycled).trans) rfl

omit [MemorySystem M] in
/-- A window that cannot go on has a thread that has room in the window and lacks micro-ops, or nothing at all. -/
theorem lacks_of_cannot (alone : w.lanes = #[l]) (cannot : w.canExecute #[true] = false) :
    (l.thread.inWindow < w.share ∧ l.thread.buffered < 2 * w.config.core.dispatchWidth) ∨
      (l.thread.inWindow = 0 ∧ l.thread.buffered = 0) := by
  rw [canExecute_alone alone, Bool.and_eq_false_iff] at cannot
  rcases cannot with lacks | idle
  · left
    unfold isSupplied Thread.canDispatch Thread.isStarved at lacks
    simp only [Bool.or_eq_false_iff, Bool.not_eq_false', Bool.and_eq_true, decide_eq_true_eq] at lacks
    exact ⟨lacks.1.2, lacks.2.2⟩
  · right
    have running : (#[true] : Running).getD 0 false = true := rfl
    rw [running] at idle
    unfold Thread.hasWork at idle
    simp only [Bool.true_and, Bool.or_eq_false_iff, decide_eq_false_iff_not] at idle
    omega

/-- Time does not go back in a cycle. -/
theorem le_cycle (h : cycle stride running w = .ok () v) : w.clock.now ≤ v.clock.now := by
  obtain ⟨u, event, clock, rfl⟩ := exists_advance_of_cycle h
  rw [← clock]
  exact Time.le_add_right _ _

theorem le_run (h : run stride running grace w = .ok () v) : w.clock.now ≤ v.clock.now :=
  keeps_of_run (P := (w.clock.now ≤ ·.clock.now)) h (fun cycled before => before.trans (le_cycle cycled)) le_rfl

/-! ## Section 3: Windows with one thread -/

/-- The window has one thread, with the whole window for itself, and there is room in the window. -/
structure HasOne (config : Config) (l : Lane M) (w : Window M) : Prop where
  /-- Its parameters. -/
  parameters : w.config = config
  /-- The thread has the whole window. -/
  share : w.share = config.core.windowSize
  /-- It is the only one. -/
  alone : w.lanes = #[l]
  /-- The room for micro-ops. -/
  capacity : l.thread.ring.capacity = config.core.windowSize + Thread.bufferSlack
  /-- There is more room in the window. -/
  inWindow : l.thread.inWindow < config.core.windowSize
  /-- What is buffered can be counted. -/
  buffered : l.thread.buffered < Word.max

end Window

/-- The window can hold a dispatch group, and the ring of a thread fits into memory. -/
structure Config.Sized (config : Config) : Prop where
  /-- Some micro-ops are dispatched. -/
  dispatch : 0 < config.core.dispatchWidth
  /-- A dispatch group fits. -/
  group : config.core.dispatchWidth ≤ config.core.windowSize
  /-- The ring is far from exceeding what can be counted. -/
  room : 2 * (config.core.windowSize + Thread.bufferSlack) < Word.max

namespace Window

variable {M : Type} [MemorySystem M] {w v : Window M} {config : Config} {l : Lane M} {us : List OpInstance}
  {stride : Stride M} {grace : Nat}

omit [MemorySystem M] in
theorem HasOne.found (h : w.HasOne config l) : w.lanes[0]? = some l := by
  rw [h.alone]
  rfl

theorem HasOne.push (h : w.HasOne config l) (sized : config.Sized) (ran : Window.push 0 us w = .ok () v) :
    ∃ l' n, v.HasOne config l' ∧ n ≤ us.length ∧ l.thread.Fills n l'.thread ∧ v.clock = w.clock := by
  unfold Window.push at ran
  rw [get_bind] at ran
  obtain ⟨l', pushed, rfl⟩ := (onLane_alone_eq_ok h.alone).mp ran
  obtain ⟨n, le, fills⟩ := fills_forM_pushOne pushed
  refine ⟨l', n, ⟨h.parameters, h.share, rfl, fills.capacity.trans h.capacity, ?_, ?_⟩, le, fills, rfl⟩
  · rw [fills.inWindow_eq]
    exact h.inWindow
  · have most := fills.buffered_le
    have before := h.buffered
    have room := sized.room
    rw [h.capacity] at most
    omega

/-- The lane whose thread has been told of all that it has retired, and of time up to `now`. -/
def toldLane (now : Time) (l : Lane M) : Lane M :=
  { l with thread := { l.thread with reported := l.thread.retired, now := max l.thread.now now } }

omit [MemorySystem M] in
theorem HasOne.told (h : w.HasOne config l) (now : Time) :
    HasOne config (toldLane now l) { w with lanes := #[toldLane now l] } :=
  ⟨h.parameters, h.share, rfl, h.capacity, h.inWindow, h.buffered⟩

theorem returnLatency_alone (alone : w.lanes = #[l]) :
    Window.returnLatency 0 false w = .ok (l.thread.retired - l.thread.reported, w.clock.now - l.thread.now)
      { w with lanes := #[toldLane w.clock.now l] } := by
  unfold Window.returnLatency
  rw [get_bind]
  exact (onThread_alone_eq_ok alone).mpr ⟨_, rfl, rfl⟩

/-- However long it runs, less than two dispatch groups are buffered afterwards. -/
theorem HasOne.run (h : w.HasOne config l) (sized : config.Sized)
    (ran : Window.run stride #[true] grace w = .ok () v) :
    ∃ l', v.HasOne config l' ∧ l'.thread.buffered < 2 * config.core.dispatchWidth ∧
      l.thread.Undisturbed l'.thread := by
  have parameters : v.config = config := (leads_run ran).config.trans h.parameters
  have share : v.share = config.core.windowSize := (share_run ran).trans h.share
  obtain ⟨l', found, kept⟩ := (keepsOn_run stride #[true] grace).done ran 0 l h.found
  have alone : v.lanes = #[l'] := by
    have size := (leads_run ran).size_eq
    rw [h.alone] at size
    obtain ⟨inside, same⟩ := Array.getElem?_eq_some_iff.mp found
    refine Array.ext size fun i at_v at_one => ?_
    obtain rfl : i = 0 := by simpa using at_one
    exact same
  have lacks := lacks_of_cannot alone (cannot_of_run ran)
  rw [parameters, share] at lacks
  have := sized.dispatch
  have := sized.group
  have := sized.room
  refine ⟨l', ⟨parameters, share, alone, kept.capacity.trans h.capacity, ?_, ?_⟩, ?_, kept⟩
  · omega
  · omega
  · omega

end Window

/-! ## Section 4: A new window -/

/-- A configuration that passes the checks has a window that holds a dispatch group, if there is room for a thread. -/
theorem Config.sized_of_valid {config : Config} {predictor : Option Predictor} {th : Thread}
    (valid : config.validate = .ok ())
    (made : Thread.new config.core.windowSize config.window.loadHistogram predictor = .ok th) :
    config.Sized ∧ th.ring.capacity = config.core.windowSize + Thread.bufferSlack := by
  have group : decide (config.core.dispatchWidth ≤ config.core.windowSize) = true :=
    Config.demand_of_valid valid (List.mem_of_getElem? (show config.demands[4]? = some _ from rfl))
  unfold Thread.new at made
  obtain ⟨capacity, counted, made⟩ := Except.bind_eq_ok.mp made
  obtain ⟨⟨⟩, fits, made⟩ := Except.bind_eq_ok.mp made
  cases made
  obtain ⟨-, rfl⟩ := Word.add_eq_ok_iff.mp counted
  refine ⟨⟨(Config.working_of_valid valid).dispatch, by simpa using group, ?_⟩, rfl⟩
  unfold Word.room at fits
  split at fits
  · rename_i room
    unfold Thread.entryBytes at room
    unfold Word.max
    omega
  · cases fits

namespace Window

variable {M : Type} [MemorySystem M] {config : Config} {memory : M} {predictor : Option Predictor} {w w₁ : Window M}

omit [MemorySystem M] in
/-- A window in which one thread has been set up has that thread for itself. -/
theorem hasOne_new (valid : config.validate = .ok ()) (single : config.core.smtThreads = 1)
    (new : Window.new config = .ok w) (made : Window.initializeThread 0 memory predictor w = .ok () w₁) :
    config.Sized ∧ ∃ th, Thread.new config.core.windowSize config.window.loadHistogram predictor = .ok th ∧
      HasOne config { thread := th, memory } ((w₁.repartition #[false]).repartition #[true]) := by
  obtain ⟨period, rfl⟩ := new_eq_ok new
  obtain ⟨-, th, built, rfl⟩ := initializeThread_eq_ok made
  obtain ⟨sized, capacity⟩ := Config.sized_of_valid valid built
  have dispatch := sized.dispatch
  have group := sized.group
  refine ⟨sized, th, built, rfl, ?_, rfl, capacity, ?_, ?_⟩
  · -- the thread is the only one, whether those that run share the window or those that are configured
    have one : (if config.window.repartition then Array.count true #[true] else config.core.smtThreads) = 1 := by
      split
      · rfl
      · exact single
    have share : ∀ parts, parts = 1 → max (config.core.windowSize / max parts 1) 1 = config.core.windowSize := by
      rintro _ rfl
      rw [max_self, Nat.div_one]
      omega
    exact share _ one
  · obtain ⟨_, rfl⟩ := Thread.new_eq_ok built
    exact lt_of_lt_of_le dispatch group
  · obtain ⟨_, rfl⟩ := Thread.new_eq_ok built
    exact (by decide : 0 < Word.max)

end Window

end CoreTiming
