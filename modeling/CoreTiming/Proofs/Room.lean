import CoreTiming.Proofs.Requiting

/-!
# Room for the stores in flight

The ring of a thread and its table of stores are both of a fixed capacity.  The ring never holds more entries
than it has room for, because the buffer in front of the window is checked before a micro-op is taken in.  The
table has at least as much room as the ring (`Account.Roomy`); once it has forgotten the stores that have left it
lists entries of the window only, so there is room for the store that enters (`Thread.Accounted.room_clean`).
-/

namespace CoreTiming

open Faulting

/-! ## Section 1: Capacities -/

namespace Ring

variable {α : Type}

theorem capacity_tail (ring : Ring α) : ring.tail.capacity = ring.capacity := by
  unfold tail compact
  split
  · split
    · rfl
    · rfl
  · rfl

theorem capacity_push {ring ring' : Ring α} {x : α} (h : ring.push x = .ok ring') :
    ring'.capacity = ring.capacity := by
  unfold push at h
  split at h
  · cases h
  · cases h
    rfl

end Ring

namespace StoreTable

variable {t t' : StoreTable} {u u' : OpInstance} {lowest : Nat}

theorem capacity_dropOld (lowest fuel : Nat) (stores : Ring StoreRecord) :
    (dropOld lowest fuel stores).capacity = stores.capacity := by
  induction fuel generalizing stores with
  | zero => rfl
  | succ fuel ih =>
    unfold dropOld
    split
    · split
      · rw [ih, Ring.capacity_tail]
      · rfl
    · rfl

theorem capacity_clean (t : StoreTable) (lowest : Nat) : (t.clean lowest).stores.capacity = t.stores.capacity :=
  capacity_dropOld _ _ _

theorem capacity_link (h : t.link u lowest = .ok (u', t')) : t'.stores.capacity = t.stores.capacity := by
  rw [← capacity_clean t lowest]
  unfold link at h
  dsimp only at h
  split at h
  · simp only [Except.bind_eq_ok, Except.pure_eq_ok, Prod.mk.injEq] at h
    obtain ⟨_, -, _, -, -, rfl⟩ := h
    rfl
  split at h
  · simp only [Except.bind_eq_ok, Except.pure_eq_ok, Prod.mk.injEq] at h
    obtain ⟨_, pushed, _, -, -, rfl⟩ := h
    exact Ring.capacity_push pushed
  split at h
  · simp only [Except.bind_eq_ok, Except.pure_eq_ok, Prod.mk.injEq] at h
    obtain ⟨_, -, -, rfl⟩ := h
    rfl
  · cases h
    rfl

end StoreTable

/-! ## Section 2: Work inside a thread -/

namespace Thread

variable {th th' th'' : Thread}

/-- The ring holds as many entries as before, and as much fits into the ring and the table of stores. -/
structure SameRoom (th th' : Thread) : Prop where
  /-- The number of entries. -/
  length : th'.ring.length = th.ring.length
  /-- The capacity of the ring. -/
  ring : th'.ring.capacity = th.ring.capacity
  /-- The capacity of the table. -/
  stores : th'.stores.stores.capacity = th.stores.stores.capacity

theorem SameRoom.refl (th : Thread) : th.SameRoom th := ⟨rfl, rfl, rfl⟩

theorem SameRoom.trans (h : th.SameRoom th') (h' : th'.SameRoom th'') : th.SameRoom th'' :=
  ⟨h'.length.trans h.length, h'.ring.trans h.ring, h'.stores.trans h.stores⟩

theorem sameRoom_setEntry (th : Thread) (i : Nat) (e : Entry) : th.SameRoom (th.setEntry i e) :=
  ⟨length_setEntry th i e, rfl, rfl⟩

theorem sameRoom_watch {lowest : Nat} {seqs : List Nat} {e : Entry} {nearest : Option Nat}
    {result : Entry × Option Nat} (h : watch lowest seqs e nearest th = .ok result th') : th.SameRoom th' := by
  induction seqs generalizing e nearest th with
  | nil =>
    obtain ⟨-, rfl⟩ := pure_eq_ok.mp h
    exact .refl th
  | cons seq rest ih =>
    unfold watch at h
    split at h
    · exact ih h
    · simp only [get_bind, bind_eq_ok, ofExcept_eq_ok] at h
      obtain ⟨⟨i, p⟩, _, ⟨-, rfl⟩, h⟩ := h
      dsimp only at h
      split at h
      · exact ih h
      · simp only [bind_eq_ok, ofExcept_eq_ok, modify_bind] at h
        obtain ⟨p', _, ⟨-, rfl⟩, h⟩ := h
        exact (sameRoom_setEntry th i p').trans (ih h)

theorem sameRoom_link {forwarding : Bool} {e e' : Entry} (h : link forwarding e th = .ok e' th')
    (unlisted : e.u.producers.toList.Nodup) : th.SameRoom th' := by
  obtain ⟨u, u', stores, x, y, nearest, mid, stored, -, -, watched, -, ring, table⟩ := link_parts h unlisted
  have watched := sameRoom_watch watched
  refine ⟨?_, ?_, ?_⟩
  · rw [ring]
    exact watched.length
  · rw [ring]
    exact watched.ring
  · rw [table, watched.stores]
    exact StoreTable.capacity_link stored

theorem sameRoom_wakeAll {front seq : Nat} {done : Time} {consumers : List Nat}
    (h : wakeAll front seq done consumers th = .ok () th') : th.SameRoom th' := by
  induction consumers generalizing th with
  | nil =>
    obtain ⟨-, rfl⟩ := pure_eq_ok.mp h
    exact .refl th
  | cons consumer rest ih =>
    unfold wakeAll at h
    obtain ⟨⟨⟩, th₁, woke, h⟩ := bind_eq_ok.mp h
    obtain ⟨i, e, e', -, -, -, -, rfl⟩ := wake_eq_ok woke
    exact (sameRoom_setEntry th i e').trans (ih h)

theorem sameRoom_start {i : Nat} {e : Entry} {now done latency : Time}
    (h : start i e now done latency th = .ok () th') : th.SameRoom th' := by
  unfold start at h
  simp only [get_bind, modify_bind] at h
  have issued := sameRoom_setEntry th i { e with issued := now, done }
  have woken := sameRoom_wakeAll h
  exact ⟨woken.length.trans issued.length, woken.ring, woken.stores⟩

end Thread

/-! ## Section 3: All steps -/

namespace Account

variable {config : Config} {a b : Account} {e : Entry}

/-- Everything in flight fits. -/
structure Roomy (a : Account) : Prop where
  /-- The ring is not overfull. -/
  ring : a.thread.ring.length ≤ a.thread.ring.capacity
  /-- The table of stores has at least as much room. -/
  stores : a.thread.ring.capacity ≤ a.thread.stores.stores.capacity

theorem roomy_new {clock : Clock} {th : Thread} {predictor : Option Predictor} {windowSize : Nat}
    {loadHistogram : Bool} (made : Thread.new windowSize loadHistogram predictor = .ok th) :
    Roomy { clock, thread := th } := by
  obtain ⟨capacity, rfl⟩ := Thread.new_eq_ok made
  exact ⟨Nat.zero_le _, Nat.le_max_left _ _⟩

theorem Roomy.same (h : Roomy a) (same : a.thread.SameRoom b.thread) : Roomy b := by
  refine ⟨?_, ?_⟩
  · rw [same.length, same.ring]
    exact h.ring
  · rw [same.ring, same.stores]
    exact h.stores

theorem Roomy.push {th : Thread} {lane : Nat} {u : OpInstance} (h : Roomy a)
    (pushed : Window.enqueue lane u a.thread = .ok () th) : Roomy (a.withThread th) := by
  unfold Window.enqueue at pushed
  rw [modify_bind, get_bind] at pushed
  split at pushed
  · cases pushed
  · rename_i room
    simp only [bind_eq_ok, ofExcept_eq_ok, modify_eq_ok] at pushed
    obtain ⟨nextSeq, _, ⟨-, rfl⟩, rfl⟩ := pushed
    have room : a.thread.ring.length < a.thread.ring.capacity := by
      simpa [Ring.isFull] using room
    refine ⟨?_, ?_⟩
    all_goals
      dsimp only
      split
    · rename_i ring fits
      have list := Ring.toList_push fits
      have length := congrArg List.length list
      rw [List.length_append, Ring.length_toList, Ring.length_toList, List.length_singleton] at length
      show ring.length ≤ ring.capacity
      rw [length, Ring.capacity_push fits]
      exact room
    · exact h.ring
    · rename_i ring fits
      show ring.capacity ≤ _
      rw [Ring.capacity_push fits]
      exact h.stores
    · exact h.stores

theorem Roomy.release (h : Roomy a) : Roomy (a.release config e) := by
  have length : a.thread.ring.tail.length ≤ a.thread.ring.length := by
    rw [← Ring.length_toList, ← Ring.length_toList, Ring.toList_tail, List.length_tail]
    exact Nat.sub_le _ _
  refine ⟨?_, ?_⟩
  · show a.thread.ring.tail.length ≤ a.thread.ring.tail.capacity
    rw [Ring.capacity_tail]
    exact le_trans length h.ring
  · show a.thread.ring.tail.capacity ≤ _
    rw [Ring.capacity_tail]
    exact h.stores

theorem Roomy.step (h : Roomy a) (senior : Senior a) (unlinked : Unlinked a.pushed) (step : Step config a b) :
    Roomy b := by
  cases step with
  | work work =>
    apply h.same
    cases work with
    | keep same =>
      refine ⟨?_, ?_, ?_⟩
      · rw [same.ring]
      · rw [same.ring]
      · rw [same.stores]
    | fetch next => exact Thread.sameRoom_setEntry _ _ _
    | resolve inside entry waiting resolved => exact Thread.sameRoom_setEntry _ _ _
    | @dispatch th e e' next linked =>
      -- nothing is pushed with producers of its own, so none of them is on the list twice
      have enters := enters_of_dispatch next linked
      have unlisted : e.fetched.u.producers.toList.Nodup := enters.unlisted senior unlinked
      have entered := Thread.sameRoom_setEntry th th.inWindow
        { e' with dispatched := a.clock.now, ready := max e'.ready a.clock.next }
      have room := (Thread.sameRoom_link linked unlisted).trans entered
      exact ⟨room.length, room.ring, room.stores⟩
    | issue inside entry waiting ready started => exact Thread.sameRoom_start started
  | push same pushed =>
    have room := h.push pushed
    exact ⟨room.ring, room.stores⟩
  | retire oldest done stays => exact h.release
  | @flush e th oldest done flushes flushed =>
    have released : Roomy (a.release config e) := h.release
    refine released.same ⟨?_, ?_, ?_⟩
    · rw [← Ring.length_toList, (Thread.flush_eq_ok flushed).1, List.length_mapIdx, Ring.length_toList]
    all_goals
      obtain ⟨nextSeq, -, flushed⟩ := Except.bind_eq_ok.mp flushed
      rw [← Except.pure_eq_ok.mp flushed]
      rfl
  | tick period later => exact ⟨h.ring, h.stores⟩

theorem Reachable.roomy (h : Reachable config a) (unlinked : Unlinked a.pushed) : Roomy a := by
  induction h with
  | new made => exact roomy_new made
  | step reached step ih =>
    have before := step.unlinked unlinked
    exact (ih before).step reached.senior before step

end Account

/-! ## Section 4: The next store -/

/-- There is room for one more store than those of the window, if another entry is to enter it. -/
theorem Thread.Accounted.room_clean {config : Config} {clock : Clock} {th : Thread} {e : Entry}
    (h : th.Accounted config clock) (next : th.ring.get? th.inWindow = some e) :
    (th.stores.clean th.base).stores.length < (th.stores.clean th.base).stores.capacity := by
  obtain ⟨pushed, retired, reached, unlinked⟩ := h
  have room := reached.roomy unlinked
  have kept := reached.tabled.stores_clean reached.inOrder
  rw [← Ring.getElem?_toList] at next
  have inside := (List.getElem?_eq_some_iff.mp next).1
  rw [Ring.length_toList] at inside
  have ring := room.ring
  have stores := room.stores
  have few : (th.stores.clean th.base).stores.length ≤ th.inWindow := by
    rw [← Ring.length_toList, kept]
    refine le_trans (List.length_filterMap_le _ _) ?_
    exact List.length_take_le _ _
  rw [StoreTable.capacity_clean]
  dsimp only at ring stores
  omega

end CoreTiming
