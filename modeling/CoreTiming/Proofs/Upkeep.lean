import CoreTiming.Proofs.Watching

/-!
# What calls leave alone

Between its runs the owner of a window may add micro-ops behind the others and move the time, but nothing
moves inside the windows of the threads.  So a window stays balanced (`Window.Balanced`) and watchful
(`Window.Watchful`) whatever is asked of it, and `Window.Steady`, which is both, holds of every window that
calls lead to.
-/

namespace CoreTiming

open Faulting

/-! ## Section 1: Threads -/

/-- Micro-ops may have been added behind the others, and nothing else has happened to them. -/
structure Thread.Grows (th th' : Thread) : Prop where
  /-- What was there is still there. -/
  ring : th.ring.toList <+: th'.ring.toList
  /-- As many entries are in the window. -/
  inWindow : th'.inWindow = th.inWindow
  /-- The thread is looked at at the same time. -/
  nextEvent : th'.nextEvent = th.nextEvent

namespace Thread

variable {th th' th'' : Thread}

theorem Grows.refl (th : Thread) : th.Grows th := ⟨List.prefix_refl _, rfl, rfl⟩

theorem Grows.trans (h : th.Grows th') (h' : th'.Grows th'') : th.Grows th'' :=
  ⟨h.ring.trans h'.ring, h'.inWindow.trans h.inWindow, h'.nextEvent.trans h.nextEvent⟩

theorem Grows.window_eq (h : th.Grows th') (inside : th.inWindow ≤ th.ring.length) :
    th'.window = th.window := by
  obtain ⟨more, ring⟩ := h.ring
  unfold window
  rw [h.inWindow, ← ring, List.take_append_of_le_length (by rwa [Ring.length_toList])]

end Thread

variable {M : Type} [MemorySystem M]

theorem Lane.grows_pushOne {period : Period} {i : Nat} {u : OpInstance} {l l' : Lane M}
    (h : Window.pushOne period i u l = .ok () l') : l.thread.Grows l'.thread := by
  rcases Window.pushOne_eq_ok h with ⟨-, rfl⟩ | ⟨-, u', l₁, th, fetched, queued, rfl⟩
  · exact .refl _
  · obtain ⟨-, thread⟩ := Window.fetch_eq_ok fetched
    obtain ⟨frame, ring, -, -⟩ := Window.enqueue_eq_ok queued
    rw [thread] at frame ring
    refine ⟨?_, ?_, ?_⟩
    · show l.thread.ring.toList <+: th.ring.toList
      rw [ring]
      exact List.prefix_append _ _
    · show th.inWindow = _
      rw [frame]
    · show th.nextEvent = _
      rw [frame]

theorem Lane.grows_pushes {period : Period} {i : Nat} {us : List OpInstance} {l l' : Lane M}
    (h : us.forM (Window.pushOne period i) l = .ok () l') : l.thread.Grows l'.thread := by
  induction us generalizing l with
  | nil =>
    rw [← (pure_eq_ok.mp h).2]
    exact .refl _
  | cons u us ih =>
    obtain ⟨⟨⟩, l₁, first, h⟩ := bind_eq_ok.mp h
    exact (Lane.grows_pushOne first).trans (ih h)

namespace Window

variable {w v x : Window M} {i : Nat}

/-! ## Section 2: Calls -/

omit [MemorySystem M] in
/-- Nothing has moved inside the windows of the threads. -/
structure Grows (w v : Window M) : Prop where
  /-- Cycles are as long as before. -/
  period : v.clock.period = w.clock.period
  /-- Time does not go back. -/
  later : w.clock.now ≤ v.clock.now
  /-- Every thread still has some share of the window. -/
  share : 0 < w.share → 0 < v.share
  /-- As many reservation stations are in use. -/
  stations : v.stationsUsed = w.stationsUsed
  /-- The load queue is as it was. -/
  loadQueue : v.loadQueue = w.loadQueue
  /-- The store queue is as it was. -/
  storeQueue : v.storeQueue = w.storeQueue
  /-- Threads have grown. -/
  lanes : Pointwise (fun l l' => l.thread.Grows l'.thread) w.lanes.toList v.lanes.toList

omit [MemorySystem M] in
theorem grows_setLane {l l' : Lane M} (found : w.lanes[i]? = some l) (grows : l.thread.Grows l'.thread) :
    w.Grows { w with lanes := w.lanes.setIfInBounds i l' } := by
  refine ⟨rfl, le_refl _, id, rfl, rfl, rfl, ?_⟩
  rw [Array.toList_setIfInBounds]
  exact .set (fun l => .refl l.thread) (by simpa using found) grows

theorem grows_onThread {α : Type} {f : Faulting Thread α} {a : α} (h : onThread i f w = .ok a v)
    (grows : ∀ th th', f th = .ok a th' → th.Grows th') : w.Grows v := by
  obtain ⟨l, th, found, ran, rfl⟩ := onThread_eq_ok.mp h
  exact grows_setLane found (grows _ _ ran)

theorem grows_modifyThread {f : Thread → Thread} (h : modifyThread i f w = .ok () v)
    (grows : ∀ th : Thread, th.Grows (f th)) : w.Grows v :=
  grows_onThread h fun th _ ran => modify_eq_ok.mp ran ▸ grows th

/-- Calls that set up no thread and run no cycles leave the windows of the threads as they are. -/
theorem Call.grows {stride : Stride M} {call : Call M} (h : call.perform stride w = .ok () v)
    (old : ∀ i memory predictor, call ≠ .initializeThread i memory predictor)
    (idle : ∀ running, call ≠ .execute running) : w.Grows v := by
  cases call with
  | initializeThread i memory predictor => exact absurd rfl (old i memory predictor)
  | push i us =>
    obtain ⟨l, l', found, ran, rfl⟩ := push_eq_ok h
    exact grows_setLane found (Lane.grows_pushes ran)
  | execute running => exact absurd rfl (idle running)
  | synchronize i time =>
    obtain ⟨w₁, now, moved, clock, later, rfl⟩ := synchronize_eq_ok h
    have told : w.Grows w₁ := grows_modifyThread moved fun _ => ⟨List.prefix_refl _, rfl, rfl⟩
    exact ⟨rfl, later, told.share, told.stations, told.loadQueue, told.storeQueue, told.lanes⟩
  | returnLatency i inWakeup =>
    exact grows_modifyThread (Call.told_of_returnLatency h) fun _ => ⟨List.prefix_refl _, rfl, rfl⟩
  | markEndOfStream i =>
    have marked : Window.markEndOfStream i w = .ok () v := h
    exact grows_modifyThread marked fun _ => ⟨List.prefix_refl _, rfl, rfl⟩
  | repartition running =>
    obtain rfl := modify_eq_ok.mp h
    refine ⟨rfl, le_refl _, fun _ => ?_, rfl, rfl, rfl, .refl (fun l => .refl l.thread) _⟩
    exact Nat.lt_of_lt_of_le Nat.one_pos (Nat.le_max_right _ _)

/-! ## Section 3: Steady windows -/

omit [MemorySystem M] in
/-- The window is balanced, and hides nothing while it has time. -/
structure Steady (w : Window M) : Prop extends w.Balanced where
  /-- Every thread is looked at once its oldest entry is due. -/
  watchful : w.clock.now ≠ .never → w.Watchful

omit [MemorySystem M] in
/-- The windows of the threads are the same. -/
theorem Grows.window_eq {l' : Lane M} (grows : w.Grows v) (reached : w.Reached)
    (found' : v.lanes.toList[i]? = some l') :
    ∃ l, w.lanes.toList[i]? = some l ∧ l'.thread.window = l.thread.window ∧
      l'.thread.nextEvent = l.thread.nextEvent := by
  obtain ⟨l, found, grown⟩ := grows.lanes.right found'
  rw [Array.getElem?_toList] at found
  exact ⟨l, by rwa [Array.getElem?_toList], grown.window_eq (reached i l found).inWindow_le, grown.nextEvent⟩

omit [MemorySystem M] in
/-- No reservation station is concerned. -/
theorem Grows.squares (grows : w.Grows v) (reached : w.Reached) : w.Squares v := by
  have held : v.total (·.stationsHeld) = w.total (·.stationsHeld) := by
    refine total_congr (R := fun l l' => l'.thread.window = l.thread.window) (fun i => ?_)
      fun _ _ => Thread.stationsHeld_of_window
    cases found : w.lanes.toList[i]? with
    | none =>
      have length := grows.lanes.length_eq
      rw [List.getElem?_eq_none_iff] at found
      rw [List.getElem?_eq_none (by omega)]
      exact .none
    | some l =>
      obtain ⟨l', found', -⟩ := grows.lanes.left found
      obtain ⟨l₁, found₁, window, -⟩ := grows.window_eq reached found'
      obtain rfl : l = l₁ := Option.some.inj (found.symm.trans found₁)
      rw [found']
      exact .some window
  unfold Squares
  rw [grows.stations, held]

omit [MemorySystem M] in
/-- The window of a thread that has just been set up is empty. -/
theorem squares_initializeThread {memory : M} {predictor : Option Predictor}
    (made : Window.initializeThread i memory predictor w = .ok () v) : w.Squares v := by
  obtain ⟨-, th, new, rfl⟩ := initializeThread_eq_ok made
  obtain ⟨capacity, rfl⟩ := Thread.new_eq_ok new
  unfold Squares total
  rw [Array.toList_push, List.map_append, List.sum_append]
  rfl

omit [MemorySystem M] in
theorem Steady.grows (h : w.Steady) (accounted : v.Accounted) (grows : w.Grows v) : v.Steady := by
  have before : v.clock.now ≠ .never → w.clock.now ≠ .never := Time.ne_never_of_le grows.later
  refine ⟨⟨accounted, grows.share h.share, fun intime => ?_⟩, fun intime i l' found' => ?_⟩
  · have used := h.stations (before intime)
    have squares := grows.squares h.accounted.reached
    unfold Squares at squares
    omega
  · rw [← Array.getElem?_toList] at found'
    obtain ⟨l, found, window, nextEvent⟩ := grows.window_eq h.accounted.reached found'
    rw [Array.getElem?_toList] at found
    exact ((h.watchful (before intime) i l found).congr window nextEvent).later grows.period grows.later

omit [MemorySystem M] in
theorem Steady.initializeThread {memory : M} {predictor : Option Predictor} (h : w.Steady)
    (accounted : v.Accounted) (made : Window.initializeThread i memory predictor w = .ok () v) : v.Steady := by
  have squares := squares_initializeThread made
  obtain ⟨-, th, new, rfl⟩ := initializeThread_eq_ok made
  obtain ⟨capacity, rfl⟩ := Thread.new_eq_ok new
  refine ⟨⟨accounted, h.share, fun intime => ?_⟩, fun intime j l found => ?_⟩
  · have used := h.stations intime
    unfold Squares at squares
    omega
  · dsimp only at found
    rw [Array.getElem?_push] at found
    split at found
    · cases found
      exact Thread.watchful_of_empty rfl
    · exact h.watchful intime j l found

/-- A clock that has come to the end of time stays there. -/
theorem intime_of_cycle {stride : Stride M} {running : Running}
    (ran : Window.cycle stride running w = .ok () v) (intime : v.clock.now ≠ .never) : w.clock.now ≠ .never := by
  intro never
  apply intime
  obtain ⟨u, event, clock, rfl⟩ := exists_advance_of_cycle ran
  show u.clock.now + _ = _
  rw [clock, never, Time.never_add]

theorem Steady.cycle {stride : Stride M} {running : Running} (h : w.Steady)
    (ran : Window.cycle stride running w = .ok () v) : v.Steady := by
  refine ⟨h.toBalanced.cycle ran, fun intime => ?_⟩
  have before := intime_of_cycle ran intime
  exact (h.watchful before).cycle h.accounted before ran

theorem Steady.run {stride : Stride M} {running : Running} {grace : Nat} (h : w.Steady)
    (ran : Window.run stride running grace w = .ok () v) : v.Steady :=
  keeps_of_run ran (fun cycled steady => steady.cycle cycled) h

omit [MemorySystem M] in
theorem steady_new {config : Config} (made : Window.new config = .ok w) : w.Steady := by
  obtain ⟨period, rfl⟩ := new_eq_ok made
  refine ⟨⟨fun i l found => ?_, ?_, fun _ => Nat.zero_le _⟩, fun _ i l found => ?_⟩
  · simp at found
  · exact Nat.lt_of_lt_of_le Nat.one_pos (Nat.le_max_right _ _)
  · simp at found

end Window

/-! ## Section 4: Chronicles -/

namespace Chronicle

variable {stride : Window.Stride M} {config : Config} {calls : List (Window.Call M)} {c c' : Chronicle M}

omit [MemorySystem M] in
theorem Truthful.reached (h : Truthful config c) : c.window.Reached := by
  intro i l found
  rw [h.config_eq]
  exact ⟨_, _, h.reachable i l found⟩

omit [MemorySystem M] in
theorem Truthful.accounted (h : Truthful config c) (unlinked : ∀ i, Unlinked (c.pushed i)) :
    c.window.Accounted := by
  intro i l found
  rw [h.config_eq]
  exact ⟨_, _, h.reachable i l found, unlinked i⟩

theorem steady_after {call : Window.Call M} (truthful : Truthful config c')
    (unlinked : ∀ i, Unlinked (c'.pushed i)) (steady : c.window.Steady)
    (h : c.after stride call = .ok c') : c'.window.Steady := by
  have accounted := truthful.accounted unlinked
  obtain ⟨v, performed, rfl⟩ := after_eq_ok.mp h
  cases call.kind with
  | initializeThread i memory predictor => exact steady.initializeThread accounted performed
  | execute running => exact steady.run performed
  | other old idle => exact steady.grows accounted (Window.Call.grows performed old idle)

/-- Every window that calls lead to is steady, if the micro-ops handed to it list no producers. -/
theorem steady_of (made : of stride config calls = .ok c) (unlinked : ∀ i, Unlinked (c.pushed i)) :
    c.window.Steady := by
  refine induction_of (P := fun _ c => (∀ i, Unlinked (c.pushed i)) → c.window.Steady)
    (fun w new _ => Window.steady_new new) (fun start ih step unlinked => ?_) made unlinked
  have truthful := truthful_after (truthful_of start) step
  refine steady_after truthful unlinked (ih fun i u mem => ?_) step
  obtain ⟨v, -, rfl⟩ := after_eq_ok.mp step
  exact unlinked i u (List.mem_append_left _ mem)

end Chronicle

end CoreTiming
