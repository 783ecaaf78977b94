import CoreTiming.Proofs.Abreast

/-!
# Threads abreast in the stages of a cycle

Threads that are abreast stay so as entries enter the window, issue and leave.  What is seen of them from
outside, such as the times of the entries that leave, is the same for both.
-/

namespace CoreTiming

open Faulting

namespace Thread

variable {s : Shift} {rest rest' : List OpInstance} {time : Time} {th th' th₁ th₁' : Thread}
  {e f e' f' : Entry} {i : Nat}

/-! ## Section 1: Dispatching -/

/-- Both threads may be changed where it does not show which is which. -/
theorem Abreast.beginDispatch (h : Abreast s rest rest' time th th') (now : Time) :
    Abreast s rest rest' time (th.beginDispatch now) (th'.beginDispatch now) := by
  refine { h with stall := rfl, longLoads := ?_, left := { h.left with }, right := { h.right with } }
  unfold Thread.beginDispatch
  rw [h.longLoads]

theorem Abreast.setStall (h : Abreast s rest rest' time th th') (stall : Option Cause) :
    Abreast s rest rest' time { th with stall } { th' with stall } :=
  { h with stall := rfl, left := { h.left with }, right := { h.right with } }

theorem Abreast.setCause (h : Abreast s rest rest' time th th') (cause : Cause) :
    Abreast s rest rest' time { th with cause } { th' with cause } :=
  { h with cause := rfl, left := { h.left with }, right := { h.right with } }

theorem Abreast.setNextEvent (h : Abreast s rest rest' time th th') (nextEvent : Time) :
    Abreast s rest rest' time { th with nextEvent } { th' with nextEvent } :=
  { h with nextEvent := rfl, left := { h.left with }, right := { h.right with } }

theorem Abreast.fetchNext (clock : Clock) (h : Abreast s rest rest' time th th')
    (found : th.ring.get? th.inWindow = some e) (found' : th'.ring.get? th'.inWindow = some f) :
    (th'.fetchNext clock f).1 = (th.fetchNext clock e).1 ∧
      Abreast s rest rest' time (th.fetchNext clock e).2 (th'.fetchNext clock f).2 := by
  rw [h.inWindow] at found'
  have same := h.entry found found'
  have latency : f.u.fetchLatency = e.u.fetchLatency :=
    same.u.congr (f := OpInstance.fetchLatency) fun _ _ => rfl
  unfold Thread.fetchNext
  rw [same.u.fetchHit_eq, h.fetching, latency]
  split
  · exact ⟨rfl, h⟩
  · split
    -- the fetch is over
    · have fetched := h.setEntry found found' same.fetched rfl rfl
      rw [h.inWindow]
      exact ⟨rfl, { fetched with
        fetching := rfl, left := { fetched.left with }, right := { fetched.right with } }⟩
    -- it begins
    · exact ⟨rfl, { h with
        stalledUntil := rfl, fetching := rfl, stall := rfl
        left := { h.left with }, right := { h.right with } }⟩

theorem buffered_fetchNext (clock : Clock) (e : Entry) (th : Thread) :
    (th.fetchNext clock e).2.buffered = th.buffered := by
  rcases fetchNext_cases clock e th with ⟨-, eq⟩ | ⟨-, -, eq⟩ | ⟨-, -, eq⟩
  · rw [eq]
  · rw [eq]
    show (th.setEntry th.inWindow e.fetched).ring.length - th.inWindow = th.buffered
    rw [← Ring.length_toList, toList_setEntry, List.length_set, Ring.length_toList]
    rfl
  · rw [eq]
    rfl

theorem get?_of_pointwise {R : Entry → Entry → Prop} {r r' : Ring Entry}
    (h : Pointwise R r.toList r'.toList) (found : r.get? i = some e) :
    ∃ x, r'.get? i = some x ∧ R e x := by
  rw [← Ring.getElem?_toList] at found ⊢
  exact h.left found

/-- The entry that is about to enter is still there after it has been linked. -/
theorem Linked.next {forwarding : Bool} (h : th.Linked forwarding e th₁ e')
    (found : th.ring.get? th.inWindow = some f) (number : f.seq = e.seq) :
    ∃ x, th₁.ring.get? th₁.inWindow = some x ∧ x.seq = e'.seq := by
  have inWindow : th₁.inWindow = th.inWindow := by rw [h.thread]
  obtain ⟨x, there, listed⟩ := get?_of_pointwise h.ring found
  rw [inWindow, h.seq_eq]
  exact ⟨x, there, listed.seq_eq.trans number⟩

theorem buffered_enter {forwarding : Bool} (h : th.Linked forwarding e th₁ e') (x : Entry) :
    th.buffered ≤ (th₁.enter x).buffered + 1 := by
  have inWindow : th₁.inWindow = th.inWindow := by rw [h.thread]
  have length := length_of_pointwise h.ring
  show th.ring.length - th.inWindow ≤ (th₁.setEntry th₁.inWindow x).ring.length - (th₁.inWindow + 1) + 1
  rw [← Ring.length_toList (th₁.setEntry _ _).ring, toList_setEntry, List.length_set, Ring.length_toList]
  omega

theorem Abreast.enter {x y : Entry} (h : Abreast s rest rest' time th th')
    (found : th.ring.get? th.inWindow = some e) (found' : th'.ring.get? th'.inWindow = some f)
    (same : x.Renumbered s y) (number : x.seq = e.seq) (number' : y.seq = f.seq) :
    Abreast s rest rest' time (th.enter x) (th'.enter y) := by
  have inside : ∀ {th : Thread} {e : Entry} (x : Entry), th.ring.get? th.inWindow = some e →
      th.inWindow + 1 ≤ (th.setEntry th.inWindow x).ring.length := by
    intro th e x found
    rw [← Ring.getElem?_toList] at found
    rw [← Ring.length_toList, toList_setEntry, List.length_set]
    exact (List.getElem?_eq_some_iff.mp found).1
  have left := inside x found
  have right := inside y found'
  have inWindow := h.inWindow
  rw [inWindow] at found'
  have set := h.setEntry found found' same number number'
  unfold Thread.enter
  rw [inWindow, same.ready_eq, h.nextEvent]
  rw [inWindow] at right
  exact { set with
    inWindow := rfl
    nextEvent := rfl
    left := { set.left with inside := left }
    right := { set.right with inside := right } }

theorem Abreast.dispatchOne {forwarding free : Bool} {clock : Clock} {d d' : Dispatched}
    (h : Abreast s rest rest' time th th') (found : th.ring.get? th.inWindow = some e)
    (found' : th'.ring.get? th'.inWindow = some f)
    (left : dispatchOne forwarding clock free th = .ok d th₁)
    (right : dispatchOne forwarding clock free th' = .ok d' th₁') :
    d' = d ∧ Abreast s rest rest' time th₁ th₁' ∧
      th.buffered ≤ th₁.buffered + 1 ∧ th'.buffered ≤ th₁'.buffered + 1 := by
  unfold Thread.dispatchOne at left right
  rw [get_bind] at left right
  simp only [found, found', modifyGet_bind] at left right
  obtain ⟨same, fetched⟩ := h.fetchNext clock found found'
  have buffered := buffered_fetchNext clock e th
  have buffered' := buffered_fetchNext clock f th'
  have next := @get?_fetchNext clock th e found
  have next' := @get?_fetchNext clock th' f found'
  rw [same] at right next'
  generalize (th.fetchNext clock e).2 = th₀ at *
  generalize (th'.fetchNext clock f).2 = th₀' at *
  -- what is asked on the way is the same on both sides, so both take the same way
  cases done : (th.fetchNext clock e).1 with
  | false =>
    simp only [done, Bool.not_false, if_true, pure_eq_ok] at left right
    obtain ⟨rfl, rfl⟩ := left
    obtain ⟨rfl, rfl⟩ := right
    exact ⟨rfl, fetched, by omega, by omega⟩
  | true =>
    have next := next done
    have next' := next' done
    simp only [done, Bool.not_true, Bool.false_eq_true, if_false] at left right
    cases free with
    | false =>
      simp only [Bool.not_false, if_true, modify_bind, pure_eq_ok] at left right
      obtain ⟨rfl, rfl⟩ := left
      obtain ⟨rfl, rfl⟩ := right
      refine ⟨rfl, fetched.setStall _, ?_, ?_⟩
      · show th.buffered ≤ th₀.buffered + 1
        omega
      · show th'.buffered ≤ th₀'.buffered + 1
        omega
    | true =>
      have blocking : th₀'.blockingLoad? = th₀.blockingLoad? := by
        unfold blockingLoad?
        rw [fetched.longLoads]
      simp only [Bool.not_true, Bool.false_eq_true, if_false, get_bind, blocking] at left right
      cases load : th₀.blockingLoad? with
      | some load =>
        simp only [load, modify_bind, pure_eq_ok] at left right
        obtain ⟨rfl, rfl⟩ := left
        obtain ⟨rfl, rfl⟩ := right
        refine ⟨rfl, fetched.setStall _, ?_, ?_⟩
        · show th.buffered ≤ th₀.buffered + 1
          omega
        · show th'.buffered ≤ th₀'.buffered + 1
          omega
      | none =>
        simp only [load, bind_eq_ok, modify_bind, pure_eq_ok] at left right
        obtain ⟨e', th₂, linked, rfl, rfl⟩ := left
        obtain ⟨f', th₂', linked', rfl, rfl⟩ := right
        obtain ⟨entered, linkedUp⟩ := fetched.link (e := e.fetched) (f := f.fetched) next
          (fetched.inWindow ▸ next') linked linked'
        -- linking leaves the entry in its place, where it then enters under the number it has
        obtain ⟨x, there, number⟩ := (linked_link linked).next next rfl
        obtain ⟨y, there', number'⟩ := (linked_link linked').next next' rfl
        have timed := entered.map (g := fun e => { e with
          dispatched := clock.now, ready := max e.ready clock.next }) fun _ _ _ _ => rfl
        refine ⟨?_, linkedUp.enter there there' timed number.symm number'.symm, ?_, ?_⟩
        · rw [entered.ready_eq]
        · rw [← buffered]
          exact buffered_enter (linked_link linked) _
        · rw [← buffered']
          exact buffered_enter (linked_link linked') _

/-! ## Section 2: Issuing -/

theorem Abreast.observeAddress {front front' seq seq' : Nat} {done latest : Time} {resolved : Bool}
    {producers producers' : List Nat} (h : Abreast s rest rest' time th th')
    (low : s.Same front front') (number : s.Same seq seq') (same : e.Renumbered s f)
    (waits : s.SameList producers producers')
    (left : th.observeAddress front seq done e producers latest resolved = .ok e')
    (right : th'.observeAddress front' seq' done f producers' latest resolved = .ok f') :
    e'.Renumbered s f' := by
  induction waits generalizing latest resolved with
  | nil =>
    cases left
    cases right
    rw [same.addressReady_eq]
    exact same.map (g := fun e => { e with addressReadyMax := latest, addressReady := _ })
      fun _ _ _ _ => rfl
  | cons producer _ ih =>
    unfold Thread.observeAddress at left right
    simp only [← producer.lt_iff low, ← producer.eq_iff number] at right
    rcases Except.ite_both left right with ⟨-, left, right⟩ | ⟨-, left, right⟩
    · exact ih left right
    · obtain ⟨⟨j, p⟩, ⟨k, q⟩, located, located', left, right⟩ := Except.bind_both left right
      obtain ⟨-, found, -, -⟩ := h.locate producer located located'
      dsimp only at left right
      rw [found.isDone_eq] at right
      exact ih left right

theorem Abreast.wake {front front' seq seq' consumer consumer' : Nat} {done : Time}
    (h : Abreast s rest rest' time th th') (low : s.Same front front') (number : s.Same seq seq')
    (reader : s.Same consumer consumer') (left : wake front seq done consumer th = .ok () th₁)
    (right : wake front' seq' done consumer' th' = .ok () th₁') :
    Abreast s rest rest' time th₁ th₁' := by
  unfold Thread.wake at left right
  simp only [get_bind, bind_eq_ok, ofExcept_eq_ok, modify_eq_ok] at left right
  obtain ⟨⟨i, e⟩, _, ⟨located, rfl⟩, e', _, ⟨observed, rfl⟩, rfl⟩ := left
  obtain ⟨⟨j, f⟩, _, ⟨located', rfl⟩, f', _, ⟨observed', rfl⟩, rfl⟩ := right
  obtain ⟨rfl, same, found, found'⟩ := h.locate reader located located'
  dsimp only at observed observed'
  have told := ((same.observe done).dropProducer number).settle
  have kept : ((e.observe done).dropProducer seq).settle.seq = e.seq :=
    (Entry.woken_settle seq done e).seq_eq
  have kept' : ((f.observe done).dropProducer seq').settle.seq = f.seq :=
    (Entry.woken_settle seq' done f).seq_eq
  generalize ((e.observe done).dropProducer seq).settle = x at *
  generalize ((f.observe done).dropProducer seq').settle = y at *
  rw [told.u.op_eq, told.addressReady_eq, told.addressReadyMax_eq] at observed'
  rcases Except.ite_both observed observed' with ⟨-, left, right⟩ | ⟨-, left, right⟩
  -- a store looks whether its address is known by now
  · have looked := h.observeAddress low number told told.addressProducers left right
    refine h.setEntry found found' looked ?_ ?_
    · rw [observeAddress_eq_ok left]
      exact kept
    · rw [observeAddress_eq_ok right]
      exact kept'
  · cases left
    cases right
    exact h.setEntry found found' told kept kept'

theorem Abreast.wakeAll {front front' seq seq' : Nat} {consumers consumers' : List Nat} {done : Time}
    (h : Abreast s rest rest' time th th') (low : s.Same front front') (number : s.Same seq seq')
    (readers : s.SameList consumers consumers')
    (left : wakeAll front seq done consumers th = .ok () th₁)
    (right : wakeAll front' seq' done consumers' th' = .ok () th₁') :
    Abreast s rest rest' time th₁ th₁' := by
  induction readers generalizing th th' with
  | nil =>
    obtain ⟨⟨-, rfl⟩, -, rfl⟩ := pure_both left right
    exact h
  | cons reader _ ih =>
    obtain ⟨⟨⟩, th₂, ⟨⟩, th₂', first, first', left, right⟩ := bind_both left right
    exact ih (h.wake low number reader first first') left right

theorem Abreast.start {now done latency : Time} (h : Abreast s rest rest' time th th')
    (found : th.ring.get? i = some e) (found' : th'.ring.get? i = some f)
    (left : start i e now done latency th = .ok () th₁)
    (right : start i f now done latency th' = .ok () th₁') :
    Abreast s rest rest' time th₁ th₁' := by
  have same := h.entry found found'
  have low := h.frontSeq found found' e.seq f.seq
  have issued := same.map (g := fun e => { e with issued := now, done }) fun _ _ _ _ => rfl
  have set := h.setEntry found found' issued rfl rfl
  have counted : Abreast s rest rest' time
      { th.setEntry i { e with issued := now, done } with
        stats := countAccess e.u.op latency th.stats }
      { th'.setEntry i { f with issued := now, done } with
        stats := countAccess f.u.op latency th'.stats } := by
    refine { set with cpi := ?_, left := { set.left with }, right := { set.right with } }
    show (countAccess f.u.op latency th'.stats).cpi = (countAccess e.u.op latency th.stats).cpi
    rw [cpi_countAccess, cpi_countAccess]
    exact h.cpi
  unfold Thread.start at left right
  rw [get_bind, modify_bind] at left right
  exact counted.wakeAll low same.u.seq same.dependants left right

theorem Abreast.accountLongLoad (h : Abreast s rest rest' time th th') (inside : i < th.inWindow)
    (cutoff : Nat) (now : Time) :
    Abreast s rest rest' time (th.accountLongLoad cutoff now i) (th'.accountLongLoad cutoff now i) := by
  have there := h.rel_get? inside
  unfold Thread.accountLongLoad
  generalize th.ring.get? i = o at there
  generalize th'.ring.get? i = o' at there
  cases there with
  | none => exact h
  | @some e f same =>
    have long : f.u.isLongLoad cutoff = e.u.isLongLoad cutoff :=
      same.u.congr (f := (·.isLongLoad cutoff)) fun _ _ => rfl
    have hit : f.u.dataHit = e.u.dataHit := same.u.congr (f := OpInstance.dataHit) fun _ _ => rfl
    dsimp only
    rw [long, hit, same.done_eq]
    split
    · refine { h with longLoads := ?_, left := { h.left with }, right := { h.right with } }
      dsimp only
      rw [h.longLoads]
    · exact h

/-! ## Section 3: Committing -/

theorem lineup_retire (found : th.ring.get? 0 = some e) (rest : List OpInstance) (keepLog : Bool)
    (now : Time) : (th.retire keepLog now e).lineup rest = (th.lineup rest).drop 1 := by
  rw [← Ring.getElem?_toList] at found
  have some : 1 ≤ th.ring.toList.length := (List.getElem?_eq_some_iff.mp found).1
  show th.ring.tail.toList ++ _ = _
  unfold lineup
  rw [Ring.toList_tail, List.drop_append_of_le_length some, List.drop_one]
  rfl

theorem Expecting.retire (h : th.Expecting rest time) (keepLog : Bool) (now : Time) (e : Entry) :
    (th.retire keepLog now e).Expecting rest time := by
  have inside := h.inside
  refine { h with inside := ?_, numbered := ?_, predictor := ?_ }
  · show th.inWindow - 1 ≤ th.ring.tail.length
    rw [← Ring.length_toList, Ring.toList_tail, List.length_tail, Ring.length_toList]
    omega
  · intro x mem
    have old : x ∈ th.ring.toList.tail := by
      rw [← Ring.toList_tail]
      exact mem
    exact h.numbered x (List.mem_of_mem_tail old)
  · unfold Thread.retire
    dsimp only
    rw [h.predictor]
    split
    · rfl
    · rfl

theorem oldest?_get? (h : th.oldest? = some e) : th.ring.get? 0 = some e := by
  unfold oldest? at h
  split at h
  · cases h
  · exact h

theorem Abreast.retire (h : Abreast s rest rest' time th th') (oldest : th.oldest? = some e)
    (oldest' : th'.oldest? = some f) (keepLog : Bool) (now : Time) :
    Abreast s rest rest' time (th.retire keepLog now e) (th'.retire keepLog now f) := by
  refine { h with
    lineup := ?_
    inWindow := ?_
    left := h.left.retire keepLog now e
    right := h.right.retire keepLog now f }
  · rw [lineup_retire (oldest?_get? oldest), lineup_retire (oldest?_get? oldest')]
    exact h.lineup.drop 1
  · show th'.inWindow - 1 = th.inWindow - 1
    rw [h.inWindow]

theorem lineup_flush {clock : Clock} {penalty : Nat} (unlinked : Unlinked rest)
    (h : th.flush clock penalty = .ok th₁) :
    th₁.lineup rest = (th.lineup rest).mapIdx fun i e => e.restart (th.nextSeq + i) := by
  obtain ⟨next, counted, made⟩ := Except.bind_eq_ok.mp h
  cases made
  obtain ⟨-, rfl⟩ := Word.add_eq_ok_iff.mp counted
  have ring : (th.ring.mapIdx fun i e => e.restart (th.nextSeq + i)).toList =
      th.ring.toList.mapIdx fun i e => e.restart (th.nextSeq + i) := Ring.toList_withElements _ _
  unfold lineup
  dsimp only
  rw [ring, List.mapIdx_append, List.mapIdx_mapIdx, Ring.length_toList]
  congr 1
  apply List.ext_getElem?
  intro i
  rw [List.getElem?_mapIdx, List.getElem?_mapIdx]
  cases there : rest[i]? with
  | none => rfl
  | some u =>
    have free : u.producers = .empty := by
      have none := unlinked u (List.mem_of_getElem? there)
      cases listed : u.producers with
      | mk numbers short =>
        rw [listed] at none
        cases none
        rfl
    have same : u.dropAllProducers = u := by
      unfold OpInstance.dropAllProducers
      rw [← free]
    show some (Entry.new u (th.nextSeq + th.ring.length + i)) =
      some (Entry.new u.dropAllProducers (th.nextSeq + (i + th.ring.length)))
    rw [same, Nat.add_comm i, Nat.add_assoc]

theorem Expecting.flush {clock : Clock} {penalty : Nat} (h : th.Expecting rest time)
    (flushed : th.flush clock penalty = .ok th₁) : th₁.Expecting rest time := by
  obtain ⟨next, counted, made⟩ := Except.bind_eq_ok.mp flushed
  cases made
  obtain ⟨bound, rfl⟩ := Word.add_eq_ok_iff.mp counted
  refine { h with inside := Nat.zero_le _, numbered := ?_ }
  intro e mem
  have old : e ∈ th.ring.toList.mapIdx fun i e => e.restart (th.nextSeq + i) := mem
  obtain ⟨i, inside, rfl⟩ := List.mem_mapIdx.mp old
  have := th.ring.length_toList
  show th.nextSeq + i ≠ noSeq
  unfold noSeq
  omega

theorem Abreast.flush {clock : Clock} {penalty : Nat} (h : Abreast s rest rest' time th th')
    (left : th.flush clock penalty = .ok th₁) (right : th'.flush clock penalty = .ok th₁') :
    Abreast ⟨th.nextSeq, th'.nextSeq⟩ rest rest' time th₁ th₁' := by
  have lineup := lineup_flush h.left.unlinked left
  have lineup' := lineup_flush h.right.unlinked right
  have sound := h.left.flush left
  have sound' := h.right.flush right
  obtain ⟨next, next', counted, counted', made, made'⟩ := Except.bind_both left right
  cases made
  cases made'
  exact
    { lineup := by
        rw [lineup, lineup']
        exact h.lineup.mapIdx_both fun i e f same => same.restart (Shift.same_start _ i)
      registers := RegisterTable.renumbered_empty _
      stores := StoreTable.renumbered_clear _ _ _
      inWindow := rfl
      stalledUntil := rfl
      fetching := rfl
      nextEvent := rfl
      stall := rfl
      cause := h.cause
      longLoads := h.longLoads
      cpi := h.cpi
      left := sound
      right := sound' }

theorem Abreast.stationsHeld_eq (h : Abreast s rest rest' time th th') :
    th'.stationsHeld = th.stationsHeld := by
  unfold stationsHeld
  rw [Ring.countAmong_eq, Ring.countAmong_eq]
  exact h.window.countP_eq fun e f same => by rw [same.issued_eq]

theorem Abreast.commit {clock : Clock} {penalty width freed freed' : Nat} {keepLog : Bool}
    (h : Abreast s rest rest' time th th')
    (left : commit clock penalty keepLog width th = .ok freed th₁)
    (right : commit clock penalty keepLog width th' = .ok freed' th₁') :
    freed' = freed ∧ ∃ s', Abreast s' rest rest' time th₁ th₁' := by
  induction width generalizing th th' with
  | zero =>
    obtain ⟨⟨rfl, rfl⟩, rfl, rfl⟩ := pure_both left right
    exact ⟨rfl, s, h⟩
  | succ width ih =>
    unfold Thread.commit at left right
    rw [get_bind] at left right
    rcases rel_cases h.rel_oldest? with ⟨head, head'⟩ | ⟨e, f, head, head', same⟩
    · simp only [head, head'] at left right
      obtain ⟨⟨rfl, rfl⟩, rfl, rfl⟩ := pure_both left right
      exact ⟨rfl, s, h⟩
    · have flushes : (f.u.op.isBranch && f.u.mispredicted) = (e.u.op.isBranch && e.u.mispredicted) :=
        same.flushes_eq
      simp only [head, head', same.done_eq, flushes] at left right
      rcases ite_both left right with ⟨-, left, right⟩ | ⟨-, left, right⟩
      -- the oldest entries are not done yet
      · obtain ⟨⟨rfl, rfl⟩, rfl, rfl⟩ := pure_both left right
        exact ⟨rfl, s, h⟩
      · rw [modify_bind] at left right
        have retired := h.retire head head' keepLog clock.now
        rcases ite_both left right with ⟨-, left, right⟩ | ⟨-, left, right⟩
        -- a branch that was predicted wrongly ends the turn
        · simp only [get_bind, bind_eq_ok, ofExcept_eq_ok, set_bind, pure_eq_ok] at left right
          obtain ⟨x, _, ⟨flushed, rfl⟩, rfl, rfl⟩ := left
          obtain ⟨y, _, ⟨flushed', rfl⟩, rfl, rfl⟩ := right
          exact ⟨retired.stationsHeld_eq, _, retired.flush flushed flushed'⟩
        · exact ih retired left right

end Thread

/-! ## Section 4: What is seen from outside -/

/-- The times of a micro-op that has left: when it entered the window, when it issued, when it was done and
when it left. -/
def Retirement.times (r : Retirement) : Time × Time × Time × Time :=
  (r.entry.dispatched, r.entry.issued, r.entry.done, r.time)

namespace Thread

variable {s : Shift} {rest rest' : List OpInstance} {time : Time} {th th' : Thread}

theorem Abreast.leaving_times (h : Abreast s rest rest' time th th') (now : Time) (width : Nat) :
    (th'.leaving now width).map Retirement.times = (th.leaving now width).map Retirement.times := by
  have windows := h.window.forall₂
  unfold Thread.leaving
  generalize th.window = es at windows
  generalize th'.window = fs at windows
  induction windows generalizing width with
  | nil =>
    cases width with
    | zero => rfl
    | succ width => rfl
  | @cons e f _ _ same _ ih =>
    cases width with
    | zero => rfl
    | succ width =>
      have times : Retirement.times { entry := f, time := now } =
          Retirement.times { entry := e, time := now } := by
        unfold Retirement.times
        rw [same.dispatched_eq, same.issued_eq, same.done_eq]
      unfold leavingAmong
      rw [same.done_eq, same.flushes_eq]
      split
      · rfl
      · rw [List.map_cons, List.map_cons, times]
        split
        · rfl
        · rw [ih]

theorem Abreast.headCause?_eq (h : Abreast s rest rest' time th th') (now : Time) :
    th'.headCause? now = th.headCause? now := by
  have head : Option.Rel (Entry.Renumbered s) (th.ring.findAmong th.inWindow fun e => now ≤ e.done)
      (th'.ring.findAmong th'.inWindow fun e => now ≤ e.done) := by
    rw [Ring.findAmong_eq, Ring.findAmong_eq]
    exact h.window.find? fun e f same => by rw [same.done_eq]
  unfold headCause?
  generalize th.ring.findAmong th.inWindow (fun e => now ≤ e.done) = o at head
  generalize th'.ring.findAmong th'.inWindow (fun e => now ≤ e.done) = o' at head
  cases head with
  | none => rfl
  | @some e f same =>
    have hit : f.u.dataHit = e.u.dataHit := same.u.congr (f := OpInstance.dataHit) fun _ _ => rfl
    dsimp only
    rw [same.issued_eq, same.u.op_eq, hit]

theorem Expecting.later {time' : Time} (h : th.Expecting rest time) (later : time ≤ time') :
    th.Expecting rest time' :=
  { h with intime := le_trans h.intime later }

/-- Both threads are charged alike, and time passes. -/
theorem Abreast.charge {time' : Time} (h : Abreast s rest rest' time th th') (later : time ≤ time')
    (histogram : Bool) (now span : Time) :
    Abreast s rest rest' time' (th.charge histogram now span) (th'.charge histogram now span) := by
  have left := h.left.later later
  have right := h.right.later later
  refine { h with cpi := ?_, left := { left with }, right := { right with } }
  show th'.stats.cpi.charge th'.cause span = th.stats.cpi.charge th.cause span
  rw [h.cpi, h.cause]

/-! ## Section 5: Supply -/

/-- At least `n` micro-ops are buffered, unless no more than the buffered ones are to come. -/
def Stocked (n : Nat) (rest : List OpInstance) (th : Thread) : Prop := n ≤ th.buffered ∨ rest = []

theorem Stocked.mono {m n : Nat} (h : th.Stocked n rest) (le : m ≤ n) : th.Stocked m rest :=
  h.imp_left (le_trans le)

theorem Stocked.after {n : Nat} {th₁ : Thread} (h : th.Stocked (n + 1) rest)
    (taken : th.buffered ≤ th₁.buffered + 1) : th₁.Stocked n rest := by
  refine h.imp_left fun enough => ?_
  omega

/-- As long as both threads have micro-ops or no more are to come, both run out of them together. -/
theorem Abreast.buffered_pos_iff (h : Abreast s rest rest' time th th') (left : th.Stocked 1 rest)
    (right : th'.Stocked 1 rest') : 0 < th'.buffered ↔ 0 < th.buffered := by
  have length := h.length_eq
  have inside := h.left.inside
  have inside' := h.right.inside
  have inWindow := h.inWindow
  unfold Stocked buffered at left right
  unfold buffered
  rcases left with left | rfl
  · rcases right with right | rfl
    · omega
    · rw [List.length_nil] at length
      omega
  · rw [List.length_nil] at length
    rcases right with right | rfl
    · omega
    · rw [List.length_nil] at length
      omega

/-- What is buffered comes next. -/
theorem exists_next (h : 0 < th.buffered) : ∃ e, th.ring.get? th.inWindow = some e := by
  unfold buffered at h
  rw [← Ring.getElem?_toList]
  exact ⟨_, List.getElem?_eq_getElem (by rw [Ring.length_toList]; omega)⟩

theorem Expecting.stocked {width : Nat} (h : th.Expecting rest time)
    (supplied : th.isStarved width = false) : th.Stocked (2 * width) rest := by
  unfold isStarved at supplied
  rw [Bool.and_eq_false_iff] at supplied
  rcases supplied with ended | enough
  · exact .inr (h.ends (by simpa using ended))
  · exact .inl (by simpa using enough)

end Thread

end CoreTiming
