import CoreTiming.Proofs.AbreastThreads

/-!
# Windows abreast

Two windows are abreast if all of their threads are, and if nothing else tells them apart.  A cycle keeps
them abreast, provided that each thread that could dispatch has enough micro-ops in both of them: then the
dispatch stage cannot see how many more there are.
-/

namespace CoreTiming

open Faulting

/-! ## Section 1: Memories -/

/-- What a memory answers. -/
structure Answers where
  /-- The answer to a data access. -/
  data : MemoryAccess → Served
  /-- The answer to a fetch of so many bytes of instructions. -/
  instruction : Address → (size : Nat) → Served

/-- However often it is asked, the memory gives these answers. -/
def Answers.Govern {M : Type} [MemorySystem M] (a : Answers) (m : M) : Prop :=
  ∃ P : M → Prop, P m ∧
    (∀ (m m' : M) (access : MemoryAccess) (served : Served), P m →
      MemorySystem.access access m = .ok served m' → served = a.data access ∧ P m') ∧
    ∀ (m m' : M) (address : Address) (size : Nat) (served : Served), P m →
      MemorySystem.fetch address size m = .ok served m' → served = a.instruction address size ∧ P m'

namespace Answers

variable {M : Type} [MemorySystem M] {a : Answers} {m m' : M} {served : Served}

theorem Govern.access {access : MemoryAccess} (h : a.Govern m)
    (asked : MemorySystem.access access m = .ok served m') :
    served = a.data access ∧ a.Govern m' := by
  obtain ⟨P, now, accesses, fetches⟩ := h
  obtain ⟨answer, later⟩ := accesses _ _ _ _ now asked
  exact ⟨answer, P, later, accesses, fetches⟩

theorem Govern.fetch {address : Address} {size : Nat} (h : a.Govern m)
    (asked : MemorySystem.fetch address size m = .ok served m') :
    served = a.instruction address size ∧ a.Govern m' := by
  obtain ⟨P, now, accesses, fetches⟩ := h
  obtain ⟨answer, later⟩ := fetches _ _ _ _ _ now asked
  exact ⟨answer, P, later, accesses, fetches⟩

end Answers

/-! ## Section 2: Lanes -/

/-- The threads are abreast, and both memories give the answers `a`. -/
structure Lane.Abreast {M : Type} [MemorySystem M] (a : Answers) (rest rest' : List OpInstance)
    (time : Time) (l l' : Lane M) : Prop where
  /-- The threads are abreast. -/
  threads : ∃ s, l.thread.Abreast s rest rest' time l'.thread
  /-- The first memory gives the answers. -/
  memory : a.Govern l.memory
  /-- So does the second one. -/
  memory' : a.Govern l'.memory

namespace Lane

variable {M : Type} [MemorySystem M] {a : Answers} {rest rest' : List OpInstance} {time : Time}
  {l l' l₁ l₁' : Lane M} {period : Period} {i : Nat}

theorem Abreast.setThread {s : Shift} {time' : Time} {th th' : Thread}
    (h : l.Abreast a rest rest' time l') (threads : th.Abreast s rest rest' time' th') :
    Abreast a rest rest' time' { l with thread := th } { l' with thread := th' } :=
  ⟨⟨s, threads⟩, h.memory, h.memory'⟩

/-- Asking memory keeps the window as large as it is. -/
theorem inWindow_resolve (h : Lane.resolve period i l = .ok () l₁) :
    l₁.thread.inWindow = l.thread.inWindow := by
  unfold Lane.resolve at h
  rw [get_bind] at h
  cases entry : l.thread.ring.get? i with
  | none =>
    simp only [entry, pure_eq_ok] at h
    rw [← h.2]
  | some e =>
    simp only [entry] at h
    split at h
    · simp only [bind_eq_ok, zoom_eq_ok, ofExcept_eq_ok, modify_eq_ok] at h
      obtain ⟨served, _, ⟨m, asked, rfl⟩, cycles, _, ⟨rounded, rfl⟩, u, _, ⟨resolved, rfl⟩, rfl⟩ := h
      rfl
    · rw [← (pure_eq_ok.mp h).2]

theorem Abreast.resolve (h : l.Abreast a rest rest' time l') (inside : i < l.thread.inWindow)
    (left : Lane.resolve period i l = .ok () l₁) (right : Lane.resolve period i l' = .ok () l₁') :
    l₁.Abreast a rest rest' time l₁' := by
  obtain ⟨s, threads⟩ := h.threads
  unfold Lane.resolve at left right
  rw [get_bind] at left right
  rcases rel_cases (threads.rel_get? inside) with ⟨entry, entry'⟩ | ⟨e, f, entry, entry', same⟩
  · simp only [entry, entry'] at left right
    obtain ⟨⟨-, rfl⟩, -, rfl⟩ := pure_both left right
    exact h
  · have asks : f.u.needsMemory = e.u.needsMemory :=
      same.u.congr (f := OpInstance.needsMemory) fun _ _ => rfl
    have access : f.u.access = e.u.access := same.u.congr (f := OpInstance.access) fun _ _ => rfl
    simp only [entry, entry', asks, access] at left right
    rcases ite_both left right with ⟨-, left, right⟩ | ⟨-, left, right⟩
    · simp only [bind_eq_ok, zoom_eq_ok, ofExcept_eq_ok, modify_eq_ok] at left right
      obtain ⟨served, _, ⟨m, asked, rfl⟩, cycles, _, ⟨rounded, rfl⟩, u, _, ⟨resolved, rfl⟩, rfl⟩ := left
      obtain ⟨served', _, ⟨m', asked', rfl⟩, cycles', _, ⟨rounded', rfl⟩, v, _, ⟨resolved', rfl⟩, rfl⟩ :=
        right
      -- both memories give the same answer
      obtain ⟨answer, governed⟩ := h.memory.access asked
      obtain ⟨answer', governed'⟩ := h.memory'.access asked'
      rw [answer] at rounded resolved
      rw [answer'] at rounded' resolved'
      rw [rounded] at rounded'
      cases rounded'
      obtain ⟨latency, latency', summed, summed', made, made'⟩ := Except.bind_both resolved resolved'
      cases made
      cases made'
      rw [same.u.latency_eq, summed] at summed'
      cases summed'
      have known := same.setOp (same.u.map
        (f := fun u => { u with dataHit := (a.data e.u.access).hit, latency }) fun _ _ _ => rfl)
      exact ⟨⟨s, threads.setEntry entry entry' known rfl rfl⟩, governed, governed'⟩
    · obtain ⟨⟨-, rfl⟩, -, rfl⟩ := pure_both left right
      exact h

end Lane

namespace Window

variable {M : Type} {R R' : Nat → Lane M → Lane M → Prop} {w v w₁ v₁ : Window M} {i : Nat}

/-- Corresponding lanes are related by `R`, and all else is the same. -/
structure Abreast (R : Nat → Lane M → Lane M → Prop) (w v : Window M) : Prop where
  /-- Nothing but the lanes differs. -/
  frame : v = { w with lanes := v.lanes }
  /-- The lanes correspond. -/
  lanes : ∀ i : Nat, Option.Rel (R i) w.lanes[i]? v.lanes[i]?

/-! ## Section 3: Parts of windows abreast -/

namespace Abreast

/-- What does not look at the lanes is the same. -/
theorem congr {α : Type} {f : Window M → α} (h : Abreast R w v)
    (hf : ∀ lanes, f { w with lanes } = f w) : f v = f w := by
  rw [h.frame]
  exact hf _

/-- What does not look at the lanes may be changed. -/
theorem map {f : Window M → Window M} (h : Abreast R w v)
    (hf : ∀ lanes, f { w with lanes } = { f w with lanes }) : Abreast R (f w) (f v) := by
  have left : (f w).lanes = w.lanes := by
    have same := congrArg Window.lanes (hf w.lanes)
    exact same
  have right : f v = { f w with lanes := v.lanes } := by
    rw [← hf, ← h.frame]
  refine ⟨?_, ?_⟩
  · rw [right]
  · rw [left, right]
    exact h.lanes

theorem mono (h : Abreast R w v) (hr : ∀ i l l', R i l l' → R' i l l') : Abreast R' w v :=
  ⟨h.frame, fun i => rel_mono (hr i) (h.lanes i)⟩

theorem clock_eq (h : Abreast R w v) : v.clock = w.clock := h.congr (f := Window.clock) fun _ => rfl

theorem config_eq (h : Abreast R w v) : v.config = w.config :=
  h.congr (f := Window.config) fun _ => rfl

theorem share_eq (h : Abreast R w v) : v.share = w.share := h.congr (f := Window.share) fun _ => rfl

theorem stationsUsed_eq (h : Abreast R w v) : v.stationsUsed = w.stationsUsed :=
  h.congr (f := Window.stationsUsed) fun _ => rfl

theorem size_eq (h : Abreast R w v) : v.lanes.size = w.lanes.size := Pointwise.size_eq h.lanes

theorem lane {l l' : Lane M} (h : Abreast R w v) (found : w.lanes[i]? = some l)
    (found' : v.lanes[i]? = some l') : R i l l' := by
  have related := h.lanes i
  rw [found, found'] at related
  cases related with
  | some same => exact same

theorem lane_iff (h : Abreast R w v) : (∃ l, w.lanes[i]? = some l) ↔ ∃ l', v.lanes[i]? = some l' := by
  have related := h.lanes i
  generalize w.lanes[i]? = o at related
  generalize v.lanes[i]? = o' at related
  cases related with
  | none => simp
  | some _ => simp

/-- Corresponding lanes may be changed as long as they stay related. -/
theorem set {l l' : Lane M} (h : Abreast R w v) (found : ∃ l, w.lanes[i]? = some l) (same : R i l l') :
    Abreast R { w with lanes := w.lanes.setIfInBounds i l }
      { v with lanes := v.lanes.setIfInBounds i l' } := by
  obtain ⟨m, at_i⟩ := found
  obtain ⟨m', at_i'⟩ := h.lane_iff.mp ⟨m, at_i⟩
  have inside := (Array.getElem?_eq_some_iff.mp at_i).1
  have inside' := (Array.getElem?_eq_some_iff.mp at_i').1
  refine ⟨?_, fun j => ?_⟩
  · dsimp only
    rw [h.frame]
  · dsimp only
    by_cases here : i = j
    · subst here
      rw [Array.getElem?_setIfInBounds_self_of_lt inside, Array.getElem?_setIfInBounds_self_of_lt inside']
      exact .some same
    · rw [Array.getElem?_setIfInBounds_ne here, Array.getElem?_setIfInBounds_ne here]
      exact h.lanes j

variable [MemorySystem M] {α : Type} {a b : α}

/-- What an operation on one lane has found in both windows, and what is left to show of it. -/
theorem onLane {x y : Faulting (Lane M) α} (h : Abreast R w v) (left : onLane i x w = .ok a w₁)
    (right : onLane i y v = .ok b v₁) :
    ∃ l l' l₁ l₁', w.lanes[i]? = some l ∧ v.lanes[i]? = some l' ∧ R i l l' ∧ x l = .ok a l₁ ∧
      y l' = .ok b l₁' ∧
      w₁ = { w with lanes := w.lanes.setIfInBounds i l₁ } ∧
      v₁ = { v with lanes := v.lanes.setIfInBounds i l₁' } := by
  obtain ⟨l, l₁, found, ran, rfl⟩ := onLane_eq_ok.mp left
  obtain ⟨l', l₁', found', ran', rfl⟩ := onLane_eq_ok.mp right
  exact ⟨l, l', l₁, l₁', found, found', h.lane found found', ran, ran', rfl, rfl⟩

theorem onThread {x y : Faulting Thread α} (h : Abreast R w v) (left : onThread i x w = .ok a w₁)
    (right : onThread i y v = .ok b v₁) :
    ∃ l l' th th', w.lanes[i]? = some l ∧ v.lanes[i]? = some l' ∧ R i l l' ∧
      x l.thread = .ok a th ∧ y l'.thread = .ok b th' ∧
      w₁ = { w with lanes := w.lanes.setIfInBounds i { l with thread := th } } ∧
      v₁ = { v with lanes := v.lanes.setIfInBounds i { l' with thread := th' } } := by
  obtain ⟨l, th, found, ran, rfl⟩ := onThread_eq_ok.mp left
  obtain ⟨l', th', found', ran', rfl⟩ := onThread_eq_ok.mp right
  exact ⟨l, l', th, th', found, found', h.lane found found', ran, ran', rfl, rfl⟩

/-- Both windows look at their thread `i` first. -/
theorem thread_bind {x y : Thread → Faulting (Window M) α} (h : Abreast R w v)
    (left : (ofExcept (w.thread i) >>= x) w = .ok a w₁) (right : (ofExcept (v.thread i) >>= y) v = .ok b v₁) :
    ∃ l l', w.lanes[i]? = some l ∧ v.lanes[i]? = some l' ∧ R i l l' ∧
      x l.thread w = .ok a w₁ ∧ y l'.thread v = .ok b v₁ := by
  obtain ⟨l, found, left⟩ := thread_bind_eq_ok.mp left
  obtain ⟨l', found', right⟩ := thread_bind_eq_ok.mp right
  exact ⟨l, l', found, found', h.lane found found', left, right⟩

theorem modifyThread {f g : Thread → Thread} {a b : Unit} (h : Abreast R w v)
    (left : modifyThread i f w = .ok a w₁) (right : modifyThread i g v = .ok b v₁)
    (same : ∀ l l', w.lanes[i]? = some l → v.lanes[i]? = some l' → R i l l' →
      R i { l with thread := f l.thread } { l' with thread := g l'.thread }) : Abreast R w₁ v₁ := by
  obtain ⟨l, found, rfl⟩ := modifyThread_eq_ok.mp left
  obtain ⟨l', found', rfl⟩ := modifyThread_eq_ok.mp right
  exact h.set ⟨l, found⟩ (same l l' found found' (h.lane found found'))

end Abreast

/-! ## Section 4: The dispatch stage -/

section Dispatch

variable [MemorySystem M] {a : Answers} {rest rest' : List OpInstance} {time : Time} {n : Nat}
  {any : Bool} {event : Time} {result result' : Bool × Time}

/-- The cycle may be charged to the same cause in both windows. -/
theorem Abreast.charge {causeOf causeOf' : Thread → Cause} (h : Abreast R w v)
    (hi : ∀ l l', R i l l' ↔ l.Abreast a rest rest' time l')
    (same : ∀ {s : Shift} (l l' : Lane M), w.lanes[i]? = some l → v.lanes[i]? = some l' →
      l.thread.Abreast s rest rest' time l'.thread → causeOf' l'.thread = causeOf l.thread)
    (left : Window.modifyThread i (fun th => { th with cause := causeOf th }) w = .ok () w₁)
    (right : Window.modifyThread i (fun th => { th with cause := causeOf' th }) v = .ok () v₁) :
    Abreast R w₁ v₁ := by
  refine h.modifyThread left right fun l l' found found' related => (hi _ _).mpr ?_
  have lanes := (hi l l').mp related
  obtain ⟨s, threads⟩ := lanes.threads
  rw [same l l' found found' threads]
  exact lanes.setThread (threads.setCause _)

/-- On lane `i` of `w` there are micro-ops for `n` more steps of dispatch, unless no more than the buffered
ones are to come. -/
def Stocked (n i : Nat) (rest : List OpInstance) (w : Window M) : Prop :=
  ∀ l, w.lanes[i]? = some l → l.thread.Stocked n rest

omit [MemorySystem M] in
theorem stocked_setLane {l : Lane M} (h : l.thread.Stocked n rest) :
    ({ w with lanes := w.lanes.setIfInBounds i l } : Window M).Stocked n i rest := by
  intro l₁ found
  dsimp only at found
  rw [Array.getElem?_setIfInBounds, if_pos rfl] at found
  split at found
  · cases found
    exact h
  · cases found

theorem Abreast.dispatchUpTo (h : Abreast R w v)
    (hi : ∀ l l', R i l l' ↔ l.Abreast a rest rest' time l') (left : w.Stocked (n + 1) i rest)
    (right : v.Stocked (n + 1) i rest') (ran : dispatchUpTo i n any event w = .ok result w₁)
    (ran' : dispatchUpTo i n any event v = .ok result' v₁) :
    result' = result ∧ Abreast R w₁ v₁ ∧ w₁.Stocked 1 i rest ∧ v₁.Stocked 1 i rest' := by
  induction n generalizing any event w v with
  | zero =>
    obtain ⟨⟨rfl, rfl⟩, rfl, rfl⟩ := pure_both ran ran'
    exact ⟨rfl, h, left, right⟩
  | succ n ih =>
    unfold Window.dispatchUpTo at ran ran'
    rw [get_bind] at ran ran'
    obtain ⟨l, l', found, found', related, ran, ran'⟩ := h.thread_bind ran ran'
    have lanes := (hi l l').mp related
    obtain ⟨s, threads⟩ := lanes.threads
    have stocked := left l found
    have stocked' := right l' found'
    have more := threads.buffered_pos_iff (stocked.mono (by omega)) (stocked'.mono (by omega))
    -- both decide alike: for room in the window, and for micro-ops, of which both have one left over
    simp only [h.share_eq, h.stationsUsed_eq, h.config_eq, h.clock_eq, threads.inWindow, more] at ran'
    rcases ite_both ran ran' with ⟨room, ran, ran'⟩ | ⟨-, ran, ran'⟩
    · obtain ⟨d, w₂, d', v₂, entered, entered', ran, ran'⟩ := bind_both ran ran'
      obtain ⟨m, th, at_i, moved, rfl⟩ := onThread_eq_ok.mp entered
      obtain ⟨m', th', at_i', moved', rfl⟩ := onThread_eq_ok.mp entered'
      rw [found] at at_i
      cases at_i
      rw [found'] at at_i'
      cases at_i'
      obtain ⟨e, next⟩ := Thread.exists_next room.2
      obtain ⟨f, next'⟩ := Thread.exists_next (more.mpr room.2)
      obtain ⟨rfl, threads, taken, taken'⟩ := threads.dispatchOne next next' moved moved'
      have step := h.set ⟨l, found⟩
        ((hi _ _).mpr (lanes.setThread threads))
      have left := stocked_setLane (w := w) (i := i) (l := { l with thread := th })
        (stocked.after taken)
      have right := stocked_setLane (w := v) (i := i) (l := { l' with thread := th' })
        (stocked'.after taken')
      cases d' with
      | blocked blockedUntil =>
        obtain ⟨⟨rfl, rfl⟩, rfl, rfl⟩ := pure_both ran ran'
        exact ⟨rfl, step, fun l found => (left l found).mono (by omega),
          fun l' found' => (right l' found').mono (by omega)⟩
      | entered ready =>
        simp only [modify_bind] at ran ran'
        have counted := step.map (f := fun w => { w with stationsUsed := w.stationsUsed + 1 })
          fun _ => rfl
        exact ih counted left right ran ran'
    · obtain ⟨⟨rfl, rfl⟩, rfl, rfl⟩ := pure_both ran ran'
      exact ⟨rfl, h, fun l found => (left l found).mono (by omega),
        fun l' found' => (right l' found').mono (by omega)⟩

theorem Abreast.dispatchLane (h : Abreast R w v)
    (hi : ∀ l l', R i l l' ↔ l.Abreast a rest rest' time l')
    (left : w.Stocked (w.config.core.dispatchWidth + 1) i rest)
    (right : v.Stocked (w.config.core.dispatchWidth + 1) i rest')
    (ran : dispatchLane i event w = .ok result w₁) (ran' : dispatchLane i event v = .ok result' v₁) :
    result' = result ∧ Abreast R w₁ v₁ ∧ w₁.Stocked 1 i rest ∧ v₁.Stocked 1 i rest' := by
  unfold Window.dispatchLane at ran ran'
  rw [get_bind] at ran ran'
  rw [h.clock_eq, h.config_eq] at ran'
  obtain ⟨⟨⟩, w₂, ⟨⟩, v₂, begun, begun', ran, ran'⟩ := bind_both ran ran'
  obtain ⟨l, found, rfl⟩ := modifyThread_eq_ok.mp begun
  obtain ⟨l', found', rfl⟩ := modifyThread_eq_ok.mp begun'
  have lanes := (hi l l').mp (h.lane found found')
  obtain ⟨s, threads⟩ := lanes.threads
  have started := h.set ⟨l, found⟩
    ((hi _ _).mpr (lanes.setThread (threads.beginDispatch w.clock.now)))
  obtain ⟨⟨any, event⟩, w₃, ⟨any', event'⟩, v₃, looped, looped', ran, ran'⟩ := bind_both ran ran'
  obtain ⟨same, h, left, right⟩ := started.dispatchUpTo hi
    (stocked_setLane (l := { l with thread := l.thread.beginDispatch w.clock.now }) (left l found))
    (stocked_setLane (l := { l' with thread := l'.thread.beginDispatch w.clock.now }) (right l' found'))
    looped looped'
  cases same
  -- whether there are more micro-ops is the same on both sides as well
  dsimp only at ran ran'
  rw [get_bind] at ran ran'
  obtain ⟨m, m', found, found', related, ran, ran'⟩ := h.thread_bind ran ran'
  obtain ⟨s, threads⟩ := ((hi m m').mp related).threads
  have more := threads.buffered_pos_iff (left m found) (right m' found')
  simp only [h.share_eq, h.clock_eq, threads.inWindow, threads.stalledUntil, more] at ran'
  rcases ite_both ran ran' with ⟨-, ran, ran'⟩ | ⟨-, ran, ran'⟩
  · obtain ⟨⟨rfl, rfl⟩, rfl, rfl⟩ := pure_both ran ran'
    exact ⟨rfl, h, left, right⟩
  · obtain ⟨⟨rfl, rfl⟩, rfl, rfl⟩ := pure_both ran ran'
    exact ⟨rfl, h, left, right⟩

end Dispatch

/-! ## Section 5: Lanes that have yet to be asked -/

section Turns

variable [MemorySystem M] {answers : Nat → Answers} {rests rests' : Nat → List OpInstance}
  {clock : Clock} {running running' : Running}

/-- Corresponding lanes are abreast. -/
def LanesAbreast (answers : Nat → Answers) (rests rests' : Nat → List OpInstance) (time : Time) (i : Nat) :
    Lane M → Lane M → Prop :=
  Lane.Abreast (answers i) (rests i) (rests' i) time

/-- Lanes are abreast, and those among `todo` have enough micro-ops for the dispatch stage if they can use
it. -/
def LanesReady (answers : Nat → Answers) (rests rests' : Nat → List OpInstance) (time : Time)
    (share width : Nat) (todo : List Nat) (i : Nat) (l l' : Lane M) : Prop :=
  LanesAbreast answers rests rests' time i l l' ∧
    (i ∈ todo → l.thread.canDispatch true share time = true →
      l.thread.Stocked (width + 1) (rests i) ∧ l'.thread.Stocked (width + 1) (rests' i))

/-- The cause that a cycle with the dispatch slot is charged to is the same for both threads. -/
theorem slotCause_eq {s : Shift} {rest rest' : List OpInstance} {time : Time} {th th' : Thread}
    (h : th.Abreast s rest rest' time th') (left : th.Stocked 1 rest) (right : th'.Stocked 1 rest')
    (any : Bool) (head : Option Cause) : slotCause th' any head = slotCause th any head := by
  have more := h.buffered_pos_iff left right
  have none : th'.buffered = 0 ↔ th.buffered = 0 := by omega
  unfold slotCause
  simp only [h.stall, none]

/-- Lanes that have been asked need not be ready any more. -/
theorem Abreast.asked {time : Time} {share width : Nat} {todo : List Nat}
    (h : Abreast (LanesReady answers rests rests' time share width (i :: todo)) w v) :
    Abreast (LanesReady answers rests rests' time share width todo) w v :=
  h.mono fun _ _ _ same => ⟨same.1, fun mem => same.2 (List.mem_cons_of_mem _ mem)⟩

theorem lanesReady_iff {time : Time} {share width : Nat} {todo : List Nat} {l l' : Lane M}
    (once : i ∉ todo) : LanesReady answers rests rests' time share width todo i l l' ↔
      l.Abreast (answers i) (rests i) (rests' i) time l' :=
  ⟨And.left, fun same => ⟨same, fun mem => absurd mem once⟩⟩

theorem Abreast.dispatchTurnOf {time : Time} {share width : Nat} {todo : List Nat}
    {round round₁ round₁' : DispatchRound}
    (h : Abreast (LanesReady answers rests rests' time share width (i :: todo)) w v)
    (once : i ∉ todo) (at_time : w.clock.now = time) (at_share : w.share = share)
    (at_width : w.config.core.dispatchWidth = width) (runs : running.getD i false = true)
    (runs' : running'.getD i false = true) (ran : dispatchTurnOf running round i w = .ok round₁ w₁)
    (ran' : dispatchTurnOf running' round i v = .ok round₁' v₁) :
    round₁' = round₁ ∧ Abreast (LanesReady answers rests rests' time share width todo) w₁ v₁ := by
  unfold Window.dispatchTurnOf at ran ran'
  rw [get_bind] at ran ran'
  obtain ⟨l, l', found, found', ⟨lanes, ready⟩, ran, ran'⟩ := h.thread_bind ran ran'
  obtain ⟨s, threads⟩ := lanes.threads
  have intime : ¬time < l.thread.now := not_lt.mpr threads.left.intime
  have intime' : ¬time < l'.thread.now := not_lt.mpr threads.right.intime
  -- the lane that is asked is not asked again
  have asked := h.asked
  have at_i : ∀ l l' : Lane M, LanesReady answers rests rests' time share width todo i l l' ↔
      l.Abreast (answers i) (rests i) (rests' i) time l' := fun l l' => lanesReady_iff once
  simp only [h.clock_eq, h.share_eq, threads.inWindow, threads.stalledUntil, threads.headCause?_eq,
    at_time, at_share, runs, runs', intime, intime', Bool.not_true, Bool.false_or, decide_false,
    Bool.false_eq_true, if_false] at ran ran'
  rcases ite_both ran ran' with ⟨-, ran, ran'⟩ | ⟨free, ran, ran'⟩
  -- the front end is stalled
  · obtain ⟨⟨⟩, w₂, ⟨⟩, v₂, left, right, ran, ran'⟩ := bind_both ran ran'
    obtain ⟨⟨rfl, rfl⟩, rfl, rfl⟩ := pure_both ran ran'
    refine ⟨rfl, asked.charge at_i (fun _ _ _ _ threads => ?_) left right⟩
    rw [threads.stall]
  · rcases ite_both ran ran' with ⟨-, ran, ran'⟩ | ⟨room, ran, ran'⟩
    -- the window is full
    · obtain ⟨⟨⟩, w₂, ⟨⟩, v₂, left, right, ran, ran'⟩ := bind_both ran ran'
      obtain ⟨⟨rfl, rfl⟩, rfl, rfl⟩ := pure_both ran ran'
      exact ⟨rfl, asked.charge at_i (fun _ _ _ _ _ => rfl) left right⟩
    · rcases ite_both ran ran' with ⟨-, ran, ran'⟩ | ⟨-, ran, ran'⟩
      -- another thread has the slot
      · obtain ⟨⟨⟩, w₂, ⟨⟩, v₂, left, right, ran, ran'⟩ := bind_both ran ran'
        obtain ⟨⟨rfl, rfl⟩, rfl, rfl⟩ := pure_both ran ran'
        exact ⟨rfl, asked.charge at_i (fun _ _ _ _ _ => rfl) left right⟩
      -- the thread dispatches
      · have can : l.thread.canDispatch true share time = true := by
          unfold Thread.canDispatch
          simp only [Bool.and_eq_true, decide_eq_true_iff, true_and]
          exact ⟨⟨not_lt.mp free, threads.left.intime⟩, not_le.mp room⟩
        obtain ⟨stocked, stocked'⟩ := ready List.mem_cons_self can
        obtain ⟨⟨any, event⟩, w₂, ⟨any', event'⟩, v₂, moved, moved', ran, ran'⟩ := bind_both ran ran'
        rw [← at_width] at stocked stocked'
        obtain ⟨same, h₂, left, right⟩ := asked.dispatchLane at_i
          (fun m at_i => by rw [found] at at_i; cases at_i; exact stocked)
          (fun m at_i => by rw [found'] at at_i; cases at_i; exact stocked') moved moved'
        cases same
        obtain ⟨⟨⟩, w₃, ⟨⟩, v₃, charged, charged', ran, ran'⟩ := bind_both ran ran'
        obtain ⟨⟨rfl, rfl⟩, rfl, rfl⟩ := pure_both ran ran'
        exact ⟨rfl, h₂.charge at_i (fun m m' there there' threads =>
          slotCause_eq threads (left m there) (right m' there') any _) charged charged'⟩

theorem Abreast.dispatchTurns {share width : Nat} {todo : List Nat} {round round₁ round₁' : DispatchRound}
    (h : Abreast (LanesReady answers rests rests' clock.now share width todo) w v) (once : todo.Nodup)
    (at_clock : w.clock = clock) (at_share : w.share = share)
    (at_width : w.config.core.dispatchWidth = width)
    (runs : ∀ i ∈ todo, running.getD i false = true ∧ running'.getD i false = true)
    (ran : todo.foldlM (Window.dispatchTurnOf running) round w = .ok round₁ w₁)
    (ran' : todo.foldlM (Window.dispatchTurnOf running') round v = .ok round₁' v₁) :
    round₁' = round₁ ∧ Abreast (LanesAbreast answers rests rests' clock.now) w₁ v₁ := by
  induction todo generalizing w v round with
  | nil =>
    obtain ⟨⟨rfl, rfl⟩, rfl, rfl⟩ := pure_both ran ran'
    exact ⟨rfl, h.mono fun _ _ _ same => same.1⟩
  | cons i todo ih =>
    obtain ⟨round₂, w₂, round₂', v₂, first, first', ran, ran'⟩ := bind_both ran ran'
    obtain ⟨absent, once⟩ := List.nodup_cons.mp once
    obtain ⟨up, up'⟩ := runs i List.mem_cons_self
    obtain ⟨rfl, h₂⟩ := h.dispatchTurnOf absent (by rw [at_clock]) at_share at_width up up' first first'
    have worked := worked_dispatchTurnOf first
    exact ih h₂ once (worked.clock.trans at_clock) (worked.share.trans at_share)
      (by rw [worked.config]; exact at_width) (fun j mem => runs j (List.mem_cons_of_mem _ mem)) ran ran'

omit [MemorySystem M] in
theorem Abreast.rotation_eq (h : Abreast R w v) (first : Nat) : v.rotation first = w.rotation first := by
  unfold rotation
  rw [h.size_eq]

omit [MemorySystem M] in
theorem Abreast.turnAfter_eq (h : Abreast R w v) (i : Nat) : v.turnAfter i = w.turnAfter i := by
  unfold turnAfter
  rw [h.size_eq]

omit [MemorySystem M] in
theorem isSupplied_of_canExecute {l : Lane M} (h : w.canExecute running = true)
    (found : w.lanes[i]? = some l) : w.isSupplied running i l = true := by
  obtain ⟨inside, rfl⟩ := Array.getElem?_eq_some_iff.mp found
  unfold canExecute at h
  rw [Bool.and_eq_true, Nat.all_eq_finRange_all, List.all_eq_true] at h
  exact h.1 ⟨i, inside⟩ (List.mem_finRange _)

omit [MemorySystem M] in
/-- A thread that can dispatch in a cycle has enough micro-ops to do so. -/
theorem stocked_of_canExecute {l : Lane M} {rest : List OpInstance} {time : Time}
    (h : w.canExecute running = true) (runs : running.getD i false = true)
    (wide : 0 < w.config.core.dispatchWidth) (found : w.lanes[i]? = some l)
    (expecting : l.thread.Expecting rest time)
    (can : l.thread.canDispatch true w.share w.clock.now = true) :
    l.thread.Stocked (w.config.core.dispatchWidth + 1) rest := by
  have supplied := isSupplied_of_canExecute h found
  unfold isSupplied at supplied
  rw [runs, can] at supplied
  exact (expecting.stocked (by simpa using supplied)).mono (by omega)

theorem Abreast.dispatch {event event' : Time}
    (h : Abreast (LanesAbreast answers rests rests' w.clock.now) w v)
    (can : w.canExecute running = true) (can' : v.canExecute running' = true)
    (runs : ∀ i < w.lanes.size, running.getD i false = true ∧ running'.getD i false = true)
    (wide : 0 < w.config.core.dispatchWidth) (ran : dispatch running w = .ok event w₁)
    (ran' : dispatch running' v = .ok event' v₁) :
    event' = event ∧ Abreast (LanesAbreast answers rests rests' w.clock.now) w₁ v₁ := by
  have turn : v.dispatchTurn = w.dispatchTurn := h.congr (f := Window.dispatchTurn) fun _ => rfl
  obtain ⟨round, w₂, turns, rfl, rfl⟩ := dispatch_eq_ok ran
  obtain ⟨round', v₂, turns', rfl, rfl⟩ := dispatch_eq_ok ran'
  rw [turn, h.size_eq] at turns' ⊢
  rw [h.rotation_eq] at turns'
  -- each lane that has room is stocked on both sides, so neither of them runs out in its turn
  have ready : Abreast (LanesReady answers rests rests' w.clock.now w.share w.config.core.dispatchWidth
      (w.rotation (w.dispatchTurn % w.lanes.size))) w v := by
    refine ⟨h.frame, fun i => ?_⟩
    rcases rel_cases (h.lanes i) with ⟨none, none'⟩ | ⟨l, l', found, found', lanes⟩
    · rw [none, none']
      exact .none
    · rw [found, found']
      refine .some ⟨lanes, fun mem free => ?_⟩
      obtain ⟨up, up'⟩ := runs i (mem_rotation_iff.mp mem)
      obtain ⟨s, threads⟩ := lanes.threads
      have free' : l'.thread.canDispatch true v.share v.clock.now = true := by
        have early := threads.right.intime
        unfold Thread.canDispatch at free ⊢
        rw [h.share_eq, h.clock_eq, threads.stalledUntil, threads.inWindow]
        simp only [Bool.and_eq_true, decide_eq_true_iff, true_and] at free ⊢
        exact ⟨⟨free.1.1, early⟩, free.2⟩
      have wide' : 0 < v.config.core.dispatchWidth := by
        rw [h.config_eq]
        exact wide
      have right := stocked_of_canExecute can' up' wide' found' threads.right free'
      rw [h.config_eq] at right
      exact ⟨stocked_of_canExecute can up wide found threads.left free, right⟩
  obtain ⟨rfl, h₂⟩ := ready.dispatchTurns (nodup_rotation _ _) rfl rfl rfl
    (fun i mem => runs i (mem_rotation_iff.mp mem)) turns turns'
  refine ⟨rfl, ?_⟩
  rw [h₂.turnAfter_eq]
  exact h₂.map (f := fun w => { w with dispatchTurn := w₂.turnAfter _ }) fun _ => rfl

end Turns

end Window

end CoreTiming
