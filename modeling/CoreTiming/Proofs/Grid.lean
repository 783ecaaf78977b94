import CoreTiming.Proofs.ProgramOrder

/-!
# Times on the grid of a clock

A clock that starts at zero and moves by whole cycles shows whole cycles, and what is due some cycles
from then is due at a whole cycle too.  So every time that a thread acts on lies on the grid of its
clock: `Thread.Regular` says so, and the lemmas of this module show that nothing that is done to a
thread leads away from the grid.
-/

namespace CoreTiming

open Faulting

/-! ## Section 1: Whole cycles -/

namespace Time

variable {p : Period} {a b : Time}

/-- Whole cycles lead from the start of time to `t`, unless `t` never comes. -/
def OnGrid (p : Period) (t : Time) : Prop := t = .never ∨ p.length.toNat ∣ t.toNat

theorem onGrid_never : never.OnGrid p := .inl rfl

theorem onGrid_zero : OnGrid p 0 := .inr (Nat.dvd_zero _)

theorem onGrid_of_toNat_eq {n : Nat} (cut : a.toNat = min n limit) (whole : p.length.toNat ∣ n) :
    a.OnGrid p := by
  by_cases small : n ≤ limit
  · refine .inr ?_
    rw [cut, Nat.min_eq_left small]
    exact whole
  -- a time past the end never comes
  · refine .inl (ext_toNat ?_)
    rw [cut, toNat_never, Nat.min_eq_right (by omega)]

theorem OnGrid.max (ha : a.OnGrid p) (hb : b.OnGrid p) : (max a b).OnGrid p := max_rec' _ ha hb

theorem OnGrid.min (ha : a.OnGrid p) (hb : b.OnGrid p) : (min a b).OnGrid p := min_rec' _ ha hb

theorem OnGrid.add (ha : a.OnGrid p) (hb : b.OnGrid p) : (a + b).OnGrid p := by
  rcases ha with rfl | ha
  · rw [never_add]
    exact onGrid_never
  · rcases hb with rfl | hb
    · refine .inl (ext_toNat ?_)
      rw [toNat_add, toNat_never]
      omega
    · exact onGrid_of_toNat_eq (toNat_add a b) (Nat.dvd_add ha hb)

/-- Between two times on the grid there is room for a cycle. -/
theorem OnGrid.add_length_le (ha : a.OnGrid p) (hb : b.OnGrid p) (before : a < b) :
    a + p.length ≤ b := by
  rcases hb with rfl | hb
  · exact le_never _
  · rcases ha with rfl | ha
    · exact absurd before (not_lt_of_ge (le_never b))
    · rw [lt_iff_toNat_lt] at before
      rw [le_iff_toNat_le, toNat_add]
      have room := Nat.le_of_dvd (by omega) (Nat.dvd_sub hb ha)
      omega

end Time

theorem Period.onGrid_cycles (p : Period) (n : Nat) : (p.cycles n).OnGrid p :=
  Time.onGrid_of_toNat_eq (p.toNat_cycles n) (Nat.dvd_mul_right _ _)

theorem Period.onGrid_length (p : Period) : p.length.OnGrid p := .inr (Nat.dvd_refl _)

namespace Clock

variable {c : Clock}

theorem onGrid_next (h : c.now.OnGrid c.period) : c.next.OnGrid c.period :=
  h.add c.period.onGrid_length

theorem onGrid_afterCycles (h : c.now.OnGrid c.period) (n : Nat) :
    (c.afterCycles n).OnGrid c.period :=
  h.add (c.period.onGrid_cycles n)

end Clock

/-! ## Section 2: Threads -/

/-- The times of the entry lie on the grid. -/
structure Entry.Regular (p : Period) (e : Entry) : Prop where
  /-- When it may issue. -/
  ready : e.ready.OnGrid p
  /-- The latest result that it has been told of. -/
  readyMax : e.readyMax.OnGrid p
  /-- When its result is available. -/
  done : e.done.OnGrid p

theorem Entry.regular_new (p : Period) (u : OpInstance) (seq : Nat) : (Entry.new u seq).Regular p :=
  ⟨Time.onGrid_never, Time.onGrid_zero, Time.onGrid_never⟩

/-- The times by which the thread acts lie on the grid, and nothing in the buffer has been done. -/
structure Thread.Regular (p : Period) (th : Thread) : Prop where
  /-- Those of the entries. -/
  entries : ∀ e ∈ th.ring.toList, e.Regular p
  /-- What has not entered the window has not issued. -/
  buffered : ∀ (i : Nat) (e : Entry), th.inWindow ≤ i → th.ring.toList[i]? = some e → e.done = .never
  /-- The end of the stall. -/
  stalledUntil : th.stalledUntil.OnGrid p
  /-- The end of the time in which nothing can issue. -/
  nextEvent : th.nextEvent.OnGrid p
  /-- The ends of the long loads. -/
  longLoads : ∀ load ∈ th.longLoads, load.done.OnGrid p

/-- When the results of the entries are available, the oldest one first. -/
def Thread.dones (th : Thread) : List Time := th.ring.toList.map Entry.done

/-- When the oldest entry in the window may leave. -/
def Thread.headDone (th : Thread) : Time := (th.oldest?.map Entry.done).getD .never

namespace Thread

variable {p : Period} {clock : Clock} {th th' : Thread} {e e' : Entry} {i : Nat}

theorem Regular.get (h : th.Regular p) (found : th.ring.toList[i]? = some e) : e.Regular p :=
  h.entries e (List.mem_of_getElem? found)

/-- What is oldest decides, whether it is in the window or not. -/
theorem Regular.headDone_eq (h : th.Regular p) :
    th.headDone = th.dones[0]?.getD .never := by
  have front : th.ring.front? = th.ring.toList[0]? := (Ring.getElem?_toList _ _).symm
  unfold headDone oldest? dones
  rw [List.getElem?_map]
  split
  -- in an empty window the oldest entry is buffered, and not done
  · rename_i empty
    cases found : th.ring.toList[0]? with
    | none => rfl
    | some e => exact (h.buffered 0 e (le_of_eq empty) found).symm
  · rw [front]

/-- A new thread has nothing to do yet. -/
theorem regular_new {windowSize : Nat} {loadHistogram : Bool} {predictor : Option Predictor}
    (made : Thread.new windowSize loadHistogram predictor = .ok th) :
    th.Regular p ∧ th.now = 0 ∧ th.nextEvent = 0 := by
  simp only [Thread.new, Except.bind_eq_ok, Except.pure_eq_ok] at made
  obtain ⟨capacity, -, _, -, rfl⟩ := made
  refine ⟨⟨fun e mem => ?_, fun i e _ found => ?_, Time.onGrid_zero, Time.onGrid_zero,
    fun load mem => ?_⟩, rfl, rfl⟩
  · cases mem
  · cases found
  · cases mem

theorem Regular.onGrid_headDone (h : th.Regular p) : th.headDone.OnGrid p := by
  unfold headDone oldest?
  split
  · exact Time.onGrid_never
  · cases front : th.ring.front? with
    | none => exact Time.onGrid_never
    | some e => exact (h.get ((Ring.getElem?_toList _ _).trans front)).done

/-- Only entries, and what is not looked at, have changed. -/
theorem Regular.of_entries (h : th.Regular p) (stalledUntil : th'.stalledUntil = th.stalledUntil)
    (nextEvent : th'.nextEvent = th.nextEvent)
    (longLoads : ∀ load ∈ th'.longLoads, load ∈ th.longLoads)
    (entries : ∀ e ∈ th'.ring.toList, e.Regular p)
    (buffered : ∀ (i : Nat) (e : Entry), th'.inWindow ≤ i → th'.ring.toList[i]? = some e →
      e.done = .never) : th'.Regular p := by
  refine ⟨entries, buffered, ?_, ?_, fun load mem => h.longLoads load (longLoads load mem)⟩
  · rw [stalledUntil]
    exact h.stalledUntil
  · rw [nextEvent]
    exact h.nextEvent

/-- Only the charges, and whatever else is not looked at, have changed. -/
theorem Regular.of_same (h : th.Regular p) (ring : th'.ring = th.ring)
    (inWindow : th'.inWindow = th.inWindow) (stalledUntil : th'.stalledUntil = th.stalledUntil)
    (nextEvent : th'.nextEvent = th.nextEvent)
    (longLoads : ∀ load ∈ th'.longLoads, load ∈ th.longLoads) : th'.Regular p := by
  apply h.of_entries stalledUntil nextEvent longLoads
  · rw [ring]
    exact h.entries
  · rw [ring, inWindow]
    exact h.buffered

/-- An entry has changed.  It may be done now only if it is in the window. -/
theorem Regular.setEntry (h : th.Regular p) (entry : e.Regular p)
    (fresh : th.inWindow ≤ i → e.done = .never) : (th.setEntry i e).Regular p := by
  refine ⟨fun x mem => ?_, fun j x behind found => ?_, h.stalledUntil, h.nextEvent, h.longLoads⟩
  · rw [toList_setEntry] at mem
    rcases List.mem_or_eq_of_mem_set mem with old | rfl
    · exact h.entries x old
    · exact entry
  · rw [toList_setEntry, List.getElem?_set] at found
    split at found
    · rename_i same
      split at found
      · cases found
        rw [same] at fresh
        exact fresh behind
      · cases found
    · exact h.buffered j x behind found

/-- Replacing an entry by one that is done at the same time. -/
theorem dones_setEntry (found : th.ring.toList[i]? = some e) (same : e'.done = e.done) :
    (th.setEntry i e').dones = th.dones := by
  have kept : Pointwise (fun x y : Entry => y.done = x.done) th.ring.toList
      (th.setEntry i e').ring.toList := by
    rw [toList_setEntry]
    exact .set (fun _ => rfl) found same
  exact kept.map_eq fun _ _ same => same

/-! ## Section 3: Dispatching -/

/-- `th'` is `th` after up to `n` of its buffered entries have entered the window. -/
structure Fed (p : Period) (n : Nat) (th th' : Thread) : Prop where
  /-- The times are still regular. -/
  regular : th'.Regular p
  /-- No entry has issued. -/
  dones : th'.dones = th.dones
  /-- No entry has left the window. -/
  le_inWindow : th.inWindow ≤ th'.inWindow
  /-- No more than `n` have entered. -/
  inWindow_le : th'.inWindow ≤ th.inWindow + n
  /-- The end of the stream is as far as it was. -/
  endOfStream : th'.endOfStream = th.endOfStream
  /-- The thread has been told nothing. -/
  now : th'.now = th.now
  /-- An entry that has entered may issue earlier than the others. -/
  nextEvent_le : th'.nextEvent ≤ th.nextEvent

namespace Fed

variable {th'' : Thread} {n m : Nat}

theorem of_same (h : th.Regular p) (ring : th'.ring = th.ring) (inWindow : th'.inWindow = th.inWindow)
    (stalledUntil : th'.stalledUntil.OnGrid p) (nextEvent : th'.nextEvent = th.nextEvent)
    (longLoads : ∀ load ∈ th'.longLoads, load ∈ th.longLoads)
    (endOfStream : th'.endOfStream = th.endOfStream) (now : th'.now = th.now) :
    Fed p 0 th th' := by
  have same : ({ th' with stalledUntil := th.stalledUntil } : Thread).Regular p :=
    h.of_same ring inWindow rfl nextEvent longLoads
  exact
    { regular := ⟨same.entries, same.buffered, stalledUntil, same.nextEvent, same.longLoads⟩
      dones := by
        unfold Thread.dones
        rw [ring]
      le_inWindow := le_of_eq inWindow.symm
      inWindow_le := le_of_eq inWindow
      endOfStream
      now
      nextEvent_le := le_of_eq nextEvent }

theorem refl (h : th.Regular p) : Fed p 0 th th :=
  .of_same h rfl rfl h.stalledUntil rfl (fun _ mem => mem) rfl rfl

theorem trans (h : Fed p n th th') (h' : Fed p m th' th'') : Fed p (n + m) th th'' where
  regular := h'.regular
  dones := h'.dones.trans h.dones
  le_inWindow := le_trans h.le_inWindow h'.le_inWindow
  inWindow_le := by
    have := h.inWindow_le
    have := h'.inWindow_le
    omega
  endOfStream := h'.endOfStream.trans h.endOfStream
  now := h'.now.trans h.now
  nextEvent_le := le_trans h'.nextEvent_le h.nextEvent_le

theorem mono (h : Fed p n th th') (le : n ≤ m) : Fed p m th th' :=
  { h with inWindow_le := le_trans h.inWindow_le (Nat.add_le_add_left le _) }

theorem length_eq (h : Fed p n th th') : th'.ring.length = th.ring.length := by
  have lengths := congrArg List.length h.dones
  unfold Thread.dones at lengths
  rwa [List.length_map, List.length_map, Ring.length_toList, Ring.length_toList] at lengths

theorem headDone_eq (h : Fed p n th th') (regular : th.Regular p) : th'.headDone = th.headDone := by
  rw [h.regular.headDone_eq, regular.headDone_eq, h.dones]

end Fed

theorem fed_beginDispatch (h : th.Regular p) (now : Time) : Fed p 0 th (th.beginDispatch now) :=
  .of_same h rfl rfl h.stalledUntil rfl (fun _ mem => List.mem_of_mem_filter mem) rfl rfl

/-- An entry has changed, but neither entered nor issued. -/
theorem fed_setEntry {x : Entry} (h : th.Regular p) (found : th.ring.toList[i]? = some e)
    (entry : x.Regular p) (done : x.done = e.done) : Fed p 0 th (th.setEntry i x) where
  regular := h.setEntry entry fun behind => done.trans (h.buffered i e behind found)
  dones := dones_setEntry found done
  le_inWindow := le_refl _
  inWindow_le := le_refl _
  endOfStream := rfl
  now := rfl
  nextEvent_le := le_refl _

theorem fed_fetchNext (h : th.Regular clock.period) (grid : clock.now.OnGrid clock.period)
    (next : th.ring.get? th.inWindow = some e) :
    Fed clock.period 0 th (fetchNext clock e th).2 := by
  rw [← Ring.getElem?_toList] at next
  rcases fetchNext_cases clock e th with ⟨-, eq⟩ | ⟨-, -, eq⟩ | ⟨-, -, eq⟩
  · rw [eq]
    exact .refl h
  · rw [eq]
    have entry := h.get next
    have fetched := fed_setEntry (x := e.fetched) h next ⟨entry.ready, entry.readyMax, entry.done⟩ rfl
    have begun : Fed clock.period 0 (th.setEntry th.inWindow e.fetched)
        { th.setEntry th.inWindow e.fetched with fetching := false } :=
      .of_same fetched.regular rfl rfl h.stalledUntil rfl (fun _ mem => mem) rfl rfl
    exact fetched.trans begun
  · rw [eq]
    exact .of_same h rfl rfl (clock.onGrid_afterCycles grid _) rfl (fun _ mem => mem) rfl rfl

theorem fed_link {forwarding : Bool} (h : th.Regular p) (entry : e.Regular p)
    (linked : link forwarding e th = .ok e' th') :
    Fed p 0 th th' ∧ e'.Regular p ∧ e'.done = e.done := by
  have links := linked_link linked
  have frame := links.thread
  have readyMax : e'.readyMax.OnGrid p := links.times (·.OnGrid p) entry.readyMax fun x mem _ =>
    ⟨fun _ => (h.entries x mem).done, (h.entries x mem).readyMax⟩
  have done : e'.done = e.done := by rw [links.entry]
  have inWindow : th'.inWindow = th.inWindow := by rw [frame]
  have nextEvent : th'.nextEvent = th.nextEvent := by rw [frame]
  have regular : th'.Regular p := by
    apply h.of_entries (by rw [frame]) nextEvent (by rw [frame]; exact fun _ mem => mem)
    -- an entry of the ring has at most got a reader
    · intro x mem
      obtain ⟨j, found⟩ := List.mem_iff_getElem?.mp mem
      obtain ⟨y, old, listed⟩ := links.ring.right found
      have regular := h.get old
      rw [listed.frame]
      exact ⟨regular.ready, regular.readyMax, regular.done⟩
    · intro j x behind found
      obtain ⟨y, old, listed⟩ := links.ring.right found
      rw [inWindow] at behind
      rw [listed.done_eq]
      exact h.buffered j y behind old
  have fed : Fed p 0 th th' :=
    { regular
      dones := links.ring.map_eq fun _ _ listed => listed.done_eq
      le_inWindow := le_of_eq inWindow.symm
      inWindow_le := le_of_eq inWindow
      endOfStream := by rw [frame]
      now := by rw [frame]
      nextEvent_le := le_of_eq nextEvent }
  refine ⟨fed, ⟨?_, readyMax, ?_⟩, done⟩
  · rw [links.ready]
    split
    · exact readyMax
    · exact entry.ready
  · rw [done]
    exact entry.done

theorem fed_enter {x : Entry} (h : th.Regular p) (next : th.ring.toList[th.inWindow]? = some e)
    (entry : x.Regular p) (done : x.done = e.done) : Fed p 1 th (th.enter x) := by
  have set := fed_setEntry h next entry done
  refine
    { set with
      regular := ⟨set.regular.entries, fun j y behind found => ?_, h.stalledUntil, ?_, h.longLoads⟩
      le_inWindow := Nat.le_succ _
      inWindow_le := le_refl _
      nextEvent_le := min_le_left _ _ }
  · exact set.regular.buffered j y (Nat.le_of_succ_le behind) found
  · exact h.nextEvent.min entry.ready

/-- The next entry is linked, and enters the window. -/
theorem fed_link_enter {forwarding : Bool} (h : th.Regular clock.period)
    (grid : clock.now.OnGrid clock.period) (next : th.ring.toList[th.inWindow]? = some e)
    (linked : link forwarding e th = .ok e' th') :
    Fed clock.period 1 th
        (th'.enter { e' with dispatched := clock.now, ready := max e'.ready clock.next }) ∧
      (max e'.ready clock.next).OnGrid clock.period := by
  obtain ⟨fed, entry, same⟩ := fed_link h (h.get next) linked
  have ready := entry.ready.max (clock.onGrid_next grid)
  -- linking has changed the ring, so the entry has to be found again
  have at_end : ∃ x, th'.ring.toList[th'.inWindow]? = some x ∧ x.done = e'.done := by
    have links := linked_link linked
    obtain ⟨x, found, listed⟩ := links.ring.left next
    have inWindow : th'.inWindow = th.inWindow := by rw [links.thread]
    rw [inWindow]
    exact ⟨x, found, listed.done_eq.trans same.symm⟩
  obtain ⟨x, found, sameDone⟩ := at_end
  have entered := fed_enter
    (x := { e' with dispatched := clock.now, ready := max e'.ready clock.next })
    fed.regular found ⟨ready, entry.readyMax, entry.done⟩ sameDone.symm
  exact ⟨fed.trans entered, ready⟩

/-- The time up to which dispatch is held up, or from which on what was dispatched may issue. -/
def Dispatched.event : Dispatched → Time
  | .blocked event => event
  | .entered ready => ready

theorem LongLoad.earliest?_mem {loads : List LongLoad} {load : LongLoad}
    (h : LongLoad.earliest? loads = some load) : load ∈ loads := by
  induction loads generalizing load with
  | nil => cases h
  | cons first rest ih =>
    unfold LongLoad.earliest? at h
    cases found : LongLoad.earliest? rest with
    | none =>
      rw [found] at h
      cases h
      exact List.mem_cons_self
    | some other =>
      rw [found] at h
      dsimp only at h
      split at h
      · cases h
        exact List.mem_cons_of_mem _ (ih found)
      · cases h
        exact List.mem_cons_self

theorem fed_dispatchOne {forwarding free : Bool} {d : Dispatched} (h : th.Regular clock.period)
    (grid : clock.now.OnGrid clock.period)
    (ran : dispatchOne forwarding clock free th = .ok d th') :
    Fed clock.period 1 th th' ∧ d.event.OnGrid clock.period := by
  unfold dispatchOne at ran
  rw [get_bind] at ran
  cases next : th.ring.get? th.inWindow with
  | none =>
    simp only [next, pure_eq_ok] at ran
    obtain ⟨rfl, rfl⟩ := ran
    exact ⟨(Fed.refl h).mono (Nat.zero_le _), Time.onGrid_never⟩
  | some e =>
    simp only [next, modifyGet_bind] at ran
    have fed : Fed clock.period 0 th (fetchNext clock e th).2 := fed_fetchNext h grid next
    have fetched := @get?_fetchNext clock th e next
    generalize (fetchNext clock e th).2 = th₁ at *
    -- whatever dispatch stops for is only noted
    have stopped : ∀ stall, Fed clock.period 1 th { th₁ with stall } := by
      intro stall
      have noted : Fed clock.period 0 th₁ { th₁ with stall } :=
        .of_same fed.regular rfl rfl fed.regular.stalledUntil rfl (fun _ mem => mem) rfl rfl
      exact (fed.trans noted).mono (Nat.zero_le _)
    cases done : (fetchNext clock e th).1 with
    | false =>
      simp only [done, Bool.not_false, if_true, pure_eq_ok] at ran
      obtain ⟨rfl, rfl⟩ := ran
      exact ⟨fed.mono (Nat.zero_le _), Time.onGrid_never⟩
    | true =>
      have next₁ := fetched done
      simp only [done, Bool.not_true, Bool.false_eq_true, if_false] at ran
      cases free with
      | false =>
        simp only [Bool.not_false, if_true, modify_bind, pure_eq_ok] at ran
        obtain ⟨rfl, rfl⟩ := ran
        exact ⟨stopped _, Time.onGrid_never⟩
      | true =>
        simp only [Bool.not_true, Bool.false_eq_true, if_false, get_bind] at ran
        cases blocking : th₁.blockingLoad? with
        | some load =>
          simp only [blocking, modify_bind, pure_eq_ok] at ran
          obtain ⟨rfl, rfl⟩ := ran
          refine ⟨stopped _, fed.regular.longLoads load ?_⟩
          -- the stall ends when one of the long loads is done
          unfold blockingLoad? at blocking
          split at blocking
          · cases blocking
          · exact LongLoad.earliest?_mem blocking
        | none =>
          simp only [blocking, bind_eq_ok, modify_bind, pure_eq_ok] at ran
          obtain ⟨e', th₂, linked, rfl, rfl⟩ := ran
          rw [← Ring.getElem?_toList] at next₁
          obtain ⟨entered, ready⟩ := fed_link_enter fed.regular grid next₁ linked
          exact ⟨fed.trans entered, ready⟩

/-! ## Section 4: Issuing -/

/-- `th'` is `th` after some entries of its window have issued. -/
structure Fired (p : Period) (th th' : Thread) : Prop where
  /-- The times are still regular. -/
  regular : th'.Regular p
  /-- The ring is as long as it was. -/
  length_eq : th'.ring.length = th.ring.length
  /-- No entry has left the window or entered it. -/
  inWindow : th'.inWindow = th.inWindow
  /-- The end of the stall is as far as it was. -/
  stalledUntil : th'.stalledUntil = th.stalledUntil
  /-- The end of the stream is as far as it was. -/
  endOfStream : th'.endOfStream = th.endOfStream
  /-- The thread has been told nothing. -/
  now : th'.now = th.now

namespace Fired

variable {th'' : Thread}

theorem refl (h : th.Regular p) : Fired p th th := ⟨h, rfl, rfl, rfl, rfl, rfl⟩

theorem trans (h : Fired p th th') (h' : Fired p th' th'') : Fired p th th'' :=
  ⟨h'.regular, h'.length_eq.trans h.length_eq, h'.inWindow.trans h.inWindow,
    h'.stalledUntil.trans h.stalledUntil, h'.endOfStream.trans h.endOfStream, h'.now.trans h.now⟩

end Fired

/-- Asking memory takes no time and moves none. -/
theorem fired_setEntry {u : OpInstance} (h : th.Regular p) (found : th.ring.toList[i]? = some e) :
    Fired p th (th.setEntry i { e with u }) ∧ (th.setEntry i { e with u }).dones = th.dones := by
  have entry := h.get found
  have fed := fed_setEntry (x := { e with u }) h found ⟨entry.ready, entry.readyMax, entry.done⟩ rfl
  exact ⟨⟨fed.regular, fed.length_eq, rfl, rfl, rfl, rfl⟩, fed.dones⟩

theorem fired_start {now done latency : Time} (h : th.Regular p) (inside : i < th.inWindow)
    (found : th.ring.toList[i]? = some e) (grid : done.OnGrid p)
    (ran : start i e now done latency th = .ok () th') :
    Fired p th th' ∧ th'.dones = th.dones.set i done := by
  obtain ⟨frame, -, woken, -, -⟩ := start_eq_ok ran
  have dones : th'.dones = th.dones.set i done := by
    unfold Thread.dones
    rw [woken.map_eq fun _ _ woken => by rw [woken.frame], issuedAt, List.map_set]
  have inWindow : th'.inWindow = th.inWindow := by rw [frame]
  have started : (th.setEntry i { e with issued := now, done }).Regular p := by
    have entry := h.get found
    exact h.setEntry ⟨entry.ready, entry.readyMax, grid⟩ fun behind =>
      absurd inside (Nat.not_lt.mpr behind)
  have regular : th'.Regular p := by
    apply h.of_entries (by rw [frame]) (by rw [frame]) (by rw [frame]; exact fun _ mem => mem)
    -- a reader that has been woken is ready at a time that it has been told, all of them on the grid
    · intro x mem
      obtain ⟨j, at_j⟩ := List.mem_iff_getElem?.mp mem
      obtain ⟨y, old, woken⟩ := woken.right at_j
      have entry := started.get ((congrArg (·[j]?) (toList_setEntry _ _ _)).trans old)
      obtain ⟨readyMax, ready⟩ := woken.times (·.OnGrid p) grid entry.readyMax entry.ready
      refine ⟨ready, readyMax, ?_⟩
      rw [woken.frame]
      exact entry.done
    · intro j x behind at_j
      obtain ⟨y, old, woken⟩ := woken.right at_j
      rw [inWindow] at behind
      have fresh := started.buffered j y behind ((congrArg (·[j]?) (toList_setEntry _ _ _)).trans old)
      rw [woken.frame]
      exact fresh
  have length_eq : th'.ring.length = th.ring.length := by
    have lengths := congrArg List.length dones
    unfold Thread.dones at lengths
    rwa [List.length_set, List.length_map, List.length_map, Ring.length_toList,
      Ring.length_toList] at lengths
  exact ⟨⟨regular, length_eq, inWindow, by rw [frame], by rw [frame], by rw [frame]⟩, dones⟩

theorem fired_accountLongLoad {now : Time} (h : th.Regular p) (grid : now.OnGrid p) (cutoff i : Nat) :
    Fired p th (th.accountLongLoad cutoff now i) ∧ (th.accountLongLoad cutoff now i).dones = th.dones := by
  unfold accountLongLoad
  cases found : th.ring.get? i with
  | none => exact ⟨.refl h, rfl⟩
  | some e =>
    dsimp only
    split
    · refine ⟨⟨⟨h.entries, h.buffered, h.stalledUntil, h.nextEvent, fun load mem => ?_⟩,
        rfl, rfl, rfl, rfl, rfl⟩, rfl⟩
      rcases List.mem_append.mp mem with old | new
      · exact h.longLoads load old
      · rw [← Ring.getElem?_toList] at found
        rw [List.mem_singleton.mp new]
        exact grid.max (h.get found).done
    · exact ⟨.refl h, rfl⟩

/-! ## Section 5: Committing -/

/-- When the oldest entry is done, the thread looks at its entries again, if it has not to do so
already. -/
def Alert (now : Time) (th : Thread) : Prop := th.nextEvent ≤ th.headDone ∨ th.nextEvent ≤ now

theorem Alert.nextEvent_le {now : Time} (h : th.Alert now) (done : th.headDone ≤ now) :
    th.nextEvent ≤ now :=
  h.elim (fun first => le_trans first done) id

theorem Regular.retire (h : th.Regular p) (keepLog : Bool) (now : Time) (e : Entry) :
    (th.retire keepLog now e).Regular p := by
  have ring : (th.retire keepLog now e).ring.toList = th.ring.toList.tail := Ring.toList_tail _
  refine ⟨fun x mem => ?_, fun j x behind found => ?_, h.stalledUntil, h.nextEvent, h.longLoads⟩
  · rw [ring] at mem
    exact h.entries x (List.mem_of_mem_tail mem)
  · rw [ring, List.getElem?_tail] at found
    have behind : th.inWindow - 1 ≤ j := behind
    exact h.buffered (j + 1) x (by omega) found

theorem Regular.flush {penalty : Nat} (h : th.Regular clock.period)
    (grid : clock.now.OnGrid clock.period) (flushed : th.flush clock penalty = .ok th') :
    th'.Regular clock.period ∧ th'.nextEvent = clock.now ∧ th'.now = th.now := by
  have restarted : ∀ (j : Nat) (x : Entry), th'.ring.toList[j]? = some x →
      ∃ (y : Entry) (seq : Nat), y.restart seq = x := by
    intro j x found
    rw [(flush_eq_ok flushed).1, List.getElem?_mapIdx] at found
    obtain ⟨y, -, same⟩ := Option.map_eq_some_iff.mp found
    exact ⟨y, _, same⟩
  unfold Thread.flush at flushed
  obtain ⟨nextSeq, -, flushed⟩ := Except.bind_eq_ok.mp flushed
  cases flushed
  refine ⟨⟨fun x mem => ?_, fun j x _ found => ?_, clock.onGrid_afterCycles grid _, grid, h.longLoads⟩,
    rfl, rfl⟩
  · obtain ⟨j, found⟩ := List.mem_iff_getElem?.mp mem
    obtain ⟨y, seq, rfl⟩ := restarted j x found
    exact Entry.regular_new _ _ _
  · obtain ⟨y, seq, rfl⟩ := restarted j x found
    rfl

/-- Either nothing leaves, or the oldest entry was done, and the thread has to look at its entries. -/
theorem commit_eq_ok {penalty width freed : Nat} {keepLog : Bool} (h : th.Regular clock.period)
    (grid : clock.now.OnGrid clock.period) (alert : th.Alert clock.now)
    (ran : commit clock penalty keepLog width th = .ok freed th') :
    th'.Regular clock.period ∧ th'.now = th.now ∧
      (th' = th ∧ freed = 0 ∨ th.headDone ≤ clock.now ∧ th'.nextEvent ≤ clock.now) := by
  induction width generalizing th with
  | zero =>
    obtain ⟨rfl, rfl⟩ := pure_eq_ok.mp ran
    exact ⟨h, rfl, .inl ⟨rfl, rfl⟩⟩
  | succ width ih =>
    have headDone : ∀ {e : Entry}, th.oldest? = some e → th.headDone = e.done := fun oldest => by
      unfold Thread.headDone
      rw [oldest]
      rfl
    cases departure_of_commit ran with
    | empty | early => exact ⟨h, rfl, .inl ⟨rfl, rfl⟩⟩
    | @flush e _ oldest late _ flushed =>
      obtain ⟨regular, nextEvent, now⟩ := (h.retire keepLog clock.now e).flush grid flushed
      exact ⟨regular, now, .inr ⟨headDone oldest ▸ late, le_of_eq nextEvent⟩⟩
    | @leave e _ _ oldest late _ more =>
      -- the thread is due already, whatever the entries behind do
      rw [← headDone oldest] at late
      have due := alert.nextEvent_le late
      obtain ⟨regular, now, rest⟩ := ih (h.retire keepLog clock.now e) (.inr due) more
      refine ⟨regular, now, .inr ⟨late, ?_⟩⟩
      rcases rest with ⟨same, -⟩ | ⟨-, later⟩
      · rw [same]
        exact due
      · exact later

/-! ## Section 6: Buffering -/

theorem Regular.enqueue {lane : Nat} {u : OpInstance} {now : Time} (h : th.Regular p)
    (alert : th.Alert now) (ran : Window.enqueue lane u th = .ok () th') :
    th'.Regular p ∧ th'.Alert now ∧ th'.now = th.now := by
  obtain ⟨frame, ring, -, -⟩ := Window.enqueue_eq_ok ran
  have nextEvent : th'.nextEvent = th.nextEvent := by rw [frame]
  have regular : th'.Regular p := by
    apply h.of_entries (by rw [frame]) nextEvent (by rw [frame]; exact fun _ mem => mem)
    · intro x mem
      rw [ring] at mem
      rcases List.mem_append.mp mem with old | new
      · exact h.entries x old
      · rw [List.mem_singleton.mp new]
        exact Entry.regular_new _ _ _
    · intro j x behind found
      have inWindow : th'.inWindow = th.inWindow := by rw [frame]
      rw [inWindow] at behind
      rw [ring, List.getElem?_append] at found
      split at found
      · exact h.buffered j x behind found
      · rw [List.mem_singleton.mp (List.mem_of_getElem? found)]
        rfl
  refine ⟨regular, ?_, by rw [frame]⟩
  -- a micro-op that is the only one has not been done
  have headDone : th'.headDone = th.headDone := by
    rw [regular.headDone_eq, h.headDone_eq]
    unfold Thread.dones
    rw [ring, List.map_append, List.getElem?_append]
    split
    · rfl
    · rename_i empty
      rw [List.getElem?_eq_none (Nat.le_of_not_lt empty), Nat.zero_sub]
      rfl
  unfold Alert
  rw [headDone, nextEvent]
  exact alert

end Thread

end CoreTiming
