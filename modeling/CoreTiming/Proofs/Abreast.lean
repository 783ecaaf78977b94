import CoreTiming.Proofs.Renumbering
import CoreTiming.Proofs.Waiting

/-!
# Threads that do the same work under other numbers

Two threads that are given the same micro-ops in different portions are `Abreast`: their windows hold the
same entries at the same stage, and behind these wait the same micro-ops, of which one thread may have
buffered more than the other.  Whatever both threads do in a cycle, they do alike, as long as neither runs
out of micro-ops before the other.
-/

namespace CoreTiming

open Faulting

/-! ## Section 1: Threads abreast -/

namespace Thread

/-- The entries of the ring, followed by the micro-ops `rest` that are still to come, as if these had been
buffered already. -/
def lineup (th : Thread) (rest : List OpInstance) : List Entry :=
  th.ring.toList ++ rest.mapIdx fun i u => Entry.new u (th.nextSeq + i)

/-- The thread is sound at `time`, and `rest` is still to come. -/
structure Expecting (rest : List OpInstance) (time : Time) (th : Thread) : Prop where
  /-- The window is part of the ring. -/
  inside : th.inWindow ≤ th.ring.length
  /-- Every number in use is one. -/
  numbered : ∀ e ∈ th.ring.toList, e.seq ≠ noSeq
  /-- No micro-op comes with producers of its own. -/
  unlinked : Unlinked rest
  /-- There is no branch predictor. -/
  predictor : th.predictor = none
  /-- Nothing comes behind the end of the stream. -/
  ends : th.endOfStream = true → rest = []
  /-- The thread is not ahead of the core. -/
  intime : th.now ≤ time

/-- The threads do the same work, though one may have taken in more micro-ops than the other: `rest` is
still to come for the first one, `rest'` for the second one. -/
structure Abreast (s : Shift) (rest rest' : List OpInstance) (time : Time) (th th' : Thread) :
    Prop where
  /-- The same micro-ops are in flight and to come. -/
  lineup : Pointwise (Entry.Renumbered s) (th.lineup rest) (th'.lineup rest')
  /-- The same registers have writers. -/
  registers : th.registers.Renumbered s th'.registers
  /-- The same stores are in flight. -/
  stores : th.stores.Renumbered s th'.stores
  /-- The windows hold equally many entries. -/
  inWindow : th'.inWindow = th.inWindow
  /-- The front ends are stalled for equally long. -/
  stalledUntil : th'.stalledUntil = th.stalledUntil
  /-- Either both are fetching or none. -/
  fetching : th'.fetching = th.fetching
  /-- Nothing can issue before the same time. -/
  nextEvent : th'.nextEvent = th.nextEvent
  /-- Dispatch stopped for the same reason. -/
  stall : th'.stall = th.stall
  /-- The present cycle is charged to the same cause. -/
  cause : th'.cause = th.cause
  /-- The same long loads are in flight. -/
  longLoads : th'.longLoads = th.longLoads
  /-- Past cycles have been charged alike. -/
  cpi : th'.stats.cpi = th.stats.cpi
  /-- The first thread is sound. -/
  left : th.Expecting rest time
  /-- The second thread is sound. -/
  right : th'.Expecting rest' time

variable {s : Shift} {rest rest' : List OpInstance} {time : Time} {th th' th₁ th₁' : Thread}
  {e f e' f' : Entry} {i x y lowest lowest' : Nat}

theorem lineup_get? (h : th.ring.get? i = some e) (rest : List OpInstance) :
    (th.lineup rest)[i]? = some e := by
  rw [← Ring.getElem?_toList] at h
  unfold lineup
  rw [List.getElem?_append_left (List.getElem?_eq_some_iff.mp h).1]
  exact h

theorem lineup_setEntry (h : th.ring.get? i = some e) (rest : List OpInstance) (x : Entry) :
    (th.setEntry i x).lineup rest = (th.lineup rest).set i x := by
  rw [← Ring.getElem?_toList] at h
  unfold lineup
  rw [toList_setEntry, List.set_append_left _ _ (List.getElem?_eq_some_iff.mp h).1]
  rfl

namespace Abreast

/-- Entries at the same position of the rings are the same. -/
theorem entry (h : Abreast s rest rest' time th th') (left : th.ring.get? i = some e)
    (right : th'.ring.get? i = some f) : e.Renumbered s f := by
  have related := h.lineup i
  rw [lineup_get? left, lineup_get? right] at related
  cases related with
  | some same => exact same

/-- There are as many micro-ops to go in both threads. -/
theorem length_eq (h : Abreast s rest rest' time th th') :
    th'.ring.length + rest'.length = th.ring.length + rest.length := by
  have same := h.lineup.length_eq
  unfold Thread.lineup at same
  simpa using same

theorem window (h : Abreast s rest rest' time th th') :
    Pointwise (Entry.Renumbered s) th.window th'.window := by
  have left : th.window = (th.lineup rest).take th.inWindow := by
    unfold Thread.window Thread.lineup
    rw [List.take_append_of_le_length (by simpa using h.left.inside)]
  have right : th'.window = (th'.lineup rest').take th.inWindow := by
    unfold Thread.window Thread.lineup
    rw [← h.inWindow, List.take_append_of_le_length (by simpa using h.right.inside)]
  rw [left, right]
  exact h.lineup.take _

/-- Inside the window there is an entry in both rings. -/
theorem rel_get? (h : Abreast s rest rest' time th th') (inside : i < th.inWindow) :
    Option.Rel (Entry.Renumbered s) (th.ring.get? i) (th'.ring.get? i) := by
  have related := h.window i
  unfold Thread.window at related
  rw [List.getElem?_take, List.getElem?_take, h.inWindow, if_pos inside, if_pos inside,
    Ring.getElem?_toList, Ring.getElem?_toList] at related
  exact related

theorem rel_oldest? (h : Abreast s rest rest' time th th') :
    Option.Rel (Entry.Renumbered s) th.oldest? th'.oldest? := by
  unfold Thread.oldest?
  rw [h.inWindow]
  split
  · exact .none
  · rename_i some
    exact h.rel_get? (Nat.pos_of_ne_zero some)

/-- The same entry may be changed in both rings, as long as it keeps its number. -/
theorem setEntry {x y : Entry} (h : Abreast s rest rest' time th th')
    (left : th.ring.get? i = some e) (right : th'.ring.get? i = some f) (same : x.Renumbered s y)
    (number : x.seq = e.seq) (number' : y.seq = f.seq) :
    Abreast s rest rest' time (th.setEntry i x) (th'.setEntry i y) := by
  have expecting : ∀ {rest : List OpInstance} {th : Thread} {e x : Entry},
      th.Expecting rest time → th.ring.get? i = some e → x.seq = e.seq →
      (th.setEntry i x).Expecting rest time := by
    intro rest th e x sound found number
    rw [← Ring.getElem?_toList] at found
    refine { sound with inside := ?_, numbered := ?_ }
    · rw [← Ring.length_toList, toList_setEntry, List.length_set, Ring.length_toList]
      exact sound.inside
    · intro e' mem
      rw [toList_setEntry] at mem
      rcases List.mem_or_eq_of_mem_set mem with mem | rfl
      · exact sound.numbered e' mem
      · rw [number]
        exact sound.numbered e (List.mem_of_getElem? found)
  refine { h with
    lineup := ?_
    left := expecting h.left left number
    right := expecting h.right right number' }
  rw [lineup_setEntry left, lineup_setEntry right]
  exact h.lineup.set_both i same

/-! ## Section 2: Looking entries up -/

end Abreast

/-- An entry is found by its distance to the oldest one. -/
theorem locate_position {j : Nat} (h : th.locate x = .ok (j, e)) :
    ∃ first, th.ring.get? 0 = some first ∧ j = x - first.seq ∧ th.ring.get? j = some e ∧ e.seq = x := by
  cases front : th.ring.get? 0 with
  | none =>
    have empty : th.frontSeq? = none := by
      unfold frontSeq? Ring.front?
      rw [front]
      rfl
    simp [locate, empty, front] at h
  | some first =>
    have base : th.frontSeq? = some first.seq := by
      unfold frontSeq? Ring.front?
      rw [front]
      rfl
    simp only [locate, base, Option.getD_some] at h
    split at h
    · cases h
    · split at h
      · rename_i found
        split at h
        · rename_i number
          cases h
          exact ⟨first, rfl, rfl, found, number⟩
        · cases h
      · cases h

namespace Abreast

/-- The oldest entries have the same number. -/
theorem frontSeq (h : Abreast s rest rest' time th th') (left : th.ring.get? i = some e)
    (right : th'.ring.get? i = some f) (a b : Nat) :
    s.Same (th.frontSeq?.getD a) (th'.frontSeq?.getD b) := by
  have first : ∀ {th : Thread} {e : Entry}, th.ring.get? i = some e → ∃ x, th.ring.get? 0 = some x := by
    intro th e found
    rw [← Ring.getElem?_toList] at found ⊢
    have inside := (List.getElem?_eq_some_iff.mp found).1
    exact ⟨_, List.getElem?_eq_getElem (by omega)⟩
  obtain ⟨x, front⟩ := first left
  obtain ⟨y, front'⟩ := first right
  unfold frontSeq? Ring.front?
  rw [front, front']
  exact (h.entry front front').u.seq

theorem locate {j k : Nat} (h : Abreast s rest rest' time th th') (same : s.Same x y)
    (left : th.locate x = .ok (j, e)) (right : th'.locate y = .ok (k, f)) :
    k = j ∧ e.Renumbered s f ∧ th.ring.get? j = some e ∧ th'.ring.get? j = some f := by
  obtain ⟨first, front, position, found, -⟩ := locate_position left
  obtain ⟨first', front', position', found', -⟩ := locate_position right
  have base : s.Same first.seq first'.seq := (h.entry front front').u.seq
  have position_eq : k = j := by
    rw [position, position']
    exact (same.sub_eq base).symm
  subst position_eq
  exact ⟨rfl, h.entry found found', found, found'⟩

end Abreast

/-! ## Section 3: Linking -/

theorem Abreast.awaitAddress {r : Register} (h : Abreast s rest rest' time th th')
    (low : s.Same lowest lowest') (same : e.Renumbered s f) (left : th.awaitAddress lowest e r = .ok e')
    (right : th'.awaitAddress lowest' f r = .ok f') : e'.Renumbered s f' := by
  have live := h.registers.live? low r
  unfold Thread.awaitAddress at left right
  generalize th.registers.live? r lowest = o at live left
  generalize th'.registers.live? r lowest' = o' at live right
  cases live with
  | none =>
    cases left
    cases right
    exact same
  | some number =>
    obtain ⟨⟨j, p⟩, ⟨k, q⟩, located, located', left, right⟩ := Except.bind_both left right
    obtain ⟨-, producer, -, -⟩ := h.locate number located located'
    dsimp only at left right
    rw [producer.isDone_eq] at right
    rcases Except.ite_both left right with ⟨-, left, right⟩ | ⟨-, left, right⟩
    -- the writer has issued
    · cases left
      cases right
      rw [producer.done_eq, same.addressReadyMax_eq]
      exact same.map (g := fun e => { e with addressReadyMax := _ }) fun _ _ _ _ => rfl
    · exact same.addAddressProducer number left right

theorem Abreast.linkAddress (h : Abreast s rest rest' time th th') (low : s.Same lowest lowest')
    (same : e.Renumbered s f) (left : th.linkAddress lowest e = .ok e')
    (right : th'.linkAddress lowest' f = .ok f') : e'.Renumbered s f' := by
  obtain ⟨e₁, f₁, awaited, awaited', left, right⟩ := Except.bind_both left right
  rw [same.u.op_eq] at awaited'
  have same₁ : e₁.Renumbered s f₁ := by
    refine Except.foldlM_both (Q := Eq) (List.forall₂_refl _) awaited awaited' (fun register first first' same => ?_) same
    subst register
    exact h.awaitAddress low same first first'
  have none : f₁.addressProducers.isEmpty = e₁.addressProducers.isEmpty :=
    same₁.addressProducers.isEmpty_eq
  rw [Except.pure_eq_ok] at left right
  rw [none] at right
  subst left right
  split
  · exact same₁.map (g := fun e => { e with addressReady := e.addressReadyMax }) fun _ _ _ _ => rfl
  · exact same₁

theorem Abreast.forward {seqs seqs' : List Nat} (h : Abreast s rest rest' time th th')
    (low : s.Same lowest lowest') (numbers : s.SameList seqs seqs') (same : e.Renumbered s f)
    (left : th.forward lowest e seqs = .ok e') (right : th'.forward lowest' f seqs' = .ok f') :
    e'.Renumbered s f' := by
  induction numbers with
  | nil =>
    cases left
    cases right
    exact same
  | cons number _ ih =>
    unfold Thread.forward at left right
    simp only [← number.lt_iff low] at right
    rcases Except.ite_both left right with ⟨-, left, right⟩ | ⟨-, left, right⟩
    -- the producer has left the ring
    · exact ih left right
    · obtain ⟨⟨j, p⟩, ⟨k, q⟩, located, located', left, right⟩ := Except.bind_both left right
      obtain ⟨-, store, -, -⟩ := h.locate number located located'
      dsimp only at left right
      rw [store.u.op_eq, store.readyMax_eq] at right
      rcases Except.ite_both left right with ⟨-, left, right⟩ | ⟨-, left, right⟩
      -- it is the store that the load reads from
      · obtain ⟨u, v, added, added', left, right⟩ := Except.bind_both left right
        cases left
        cases right
        have given := (same.dropProducer number).observe p.readyMax
        exact given.setOp (given.u.addProducers store.u.producers added added')
      · exact ih left right

theorem Abreast.watch {seqs seqs' : List Nat} {n n' m m' : Option Nat}
    (h : Abreast s rest rest' time th th') (low : s.Same lowest lowest')
    (numbers : s.SameList seqs seqs') (same : e.Renumbered s f)
    (left : watch lowest seqs e n th = .ok (e', m) th₁)
    (right : watch lowest' seqs' f n' th' = .ok (f', m') th₁') :
    e'.Renumbered s f' ∧ Abreast s rest rest' time th₁ th₁' := by
  induction numbers generalizing e f th th' n n' with
  | nil =>
    obtain ⟨made, rfl⟩ := pure_eq_ok.mp left
    obtain ⟨made', rfl⟩ := pure_eq_ok.mp right
    cases made
    cases made'
    exact ⟨same, h⟩
  | cons number _ ih =>
    unfold Thread.watch at left right
    simp only [← number.lt_iff low] at right
    rcases ite_both left right with ⟨-, left, right⟩ | ⟨-, left, right⟩
    -- the producer has left the ring
    · exact ih h (same.dropProducer number) left right
    · rw [get_bind] at left right
      simp only [bind_eq_ok, ofExcept_eq_ok] at left right
      obtain ⟨⟨j, p⟩, _, ⟨located, rfl⟩, left⟩ := left
      obtain ⟨⟨k, q⟩, _, ⟨located', rfl⟩, right⟩ := right
      obtain ⟨rfl, producer, found, found'⟩ := h.locate number located located'
      dsimp only at left right
      rw [producer.isDone_eq, producer.done_eq] at right
      rcases ite_both left right with ⟨-, left, right⟩ | ⟨-, left, right⟩
      -- it has issued
      · exact ih h ((same.observe p.done).dropProducer number) left right
      -- it has not: it will wake the entry
      · simp only [bind_eq_ok, ofExcept_eq_ok, modify_bind] at left right
        obtain ⟨p₁, _, ⟨listed, rfl⟩, left⟩ := left
        obtain ⟨q₁, _, ⟨listed', rfl⟩, right⟩ := right
        have told := producer.addDependant same.u.seq listed listed'
        refine ih (h.setEntry found found' told ?_ ?_) same left right
        · exact (Entry.listed_addDependant listed).1.seq_eq
        · exact (Entry.listed_addDependant listed').1.seq_eq

theorem Abreast.link {forwarding : Bool} (h : Abreast s rest rest' time th th')
    (found : th.ring.get? i = some e) (found' : th'.ring.get? i = some f)
    (left : link forwarding e.fetched th = .ok e' th₁)
    (right : link forwarding f.fetched th' = .ok f' th₁') :
    e'.Renumbered s f' ∧ Abreast s rest rest' time th₁ th₁' := by
  have same := (h.entry found found').fetched
  have low := h.frontSeq found found' e.fetched.seq f.fetched.seq
  have number : e.seq ≠ noSeq := by
    rw [← Ring.getElem?_toList] at found
    exact h.left.numbered e (List.mem_of_getElem? found)
  have number' : f.seq ≠ noSeq := by
    rw [← Ring.getElem?_toList] at found'
    exact h.right.numbered f (List.mem_of_getElem? found')
  unfold Thread.link at left right
  simp only [get_bind, bind_eq_ok, ofExcept_eq_ok, modify_bind, zoom_eq_ok, pure_eq_ok] at left right
  obtain ⟨e₁, _, ⟨addressed, rfl⟩, u₁, _, ⟨awaited, rfl⟩, ⟨u₂, stores⟩, _, ⟨stored, rfl⟩, e₃, _,
    ⟨forwarded, rfl⟩, ⟨e₄, nearest⟩, th₄, watched, ⟨⟩, _, ⟨stats, counted, rfl⟩, rfl, rfl⟩ := left
  obtain ⟨f₁, _, ⟨addressed', rfl⟩, v₁, _, ⟨awaited', rfl⟩, ⟨v₂, stores'⟩, _, ⟨stored', rfl⟩, f₃, _,
    ⟨forwarded', rfl⟩, ⟨f₄, nearest'⟩, th₄', watched', ⟨⟩, _, ⟨stats', counted', rfl⟩, rfl, rfl⟩ := right
  dsimp only at forwarded forwarded' watched watched' counted counted'
  -- the address of a store comes first
  have u_eq : e₁.u = e.fetched.u := by rw [addressed_eq addressed]
  have v_eq : f₁.u = f.fetched.u := by rw [addressed_eq addressed']
  have same₁ : e₁.Renumbered s f₁ := by
    rw [same.u.op_eq] at addressed'
    rcases Except.ite_both addressed addressed' with ⟨-, left, right⟩ | ⟨-, left, right⟩
    · exact h.linkAddress low same left right
    · cases left
      cases right
      exact same
  -- then the tables are asked
  have fromRegisters := h.registers.await low same₁.u awaited awaited'
  have seq₁ : u₁.seq ≠ noSeq := by
    rw [(RegisterTable.awaits_await awaited).seq_eq, u_eq]
    exact number
  have seq₁' : v₁.seq ≠ noSeq := by
    rw [(RegisterTable.awaits_await awaited').seq_eq, v_eq]
    exact number'
  obtain ⟨fromStores, table⟩ := h.stores.link low fromRegisters seq₁ seq₁' stored stored'
  have seq₂ : u₂.seq ≠ noSeq := by
    rw [(StoreTable.link_eq_ok stored).1.seq_eq]
    exact seq₁
  have seq₂' : v₂.seq ≠ noSeq := by
    rw [(StoreTable.link_eq_ok stored').1.seq_eq]
    exact seq₁'
  have same₂ : ({ e₁ with u := u₂ } : Entry).Renumbered s { f₁ with u := v₂ } := same₁.setOp fromStores
  have same₃ : e₃.Renumbered s f₃ := by
    rw [fromStores.op_eq] at forwarded'
    rcases Except.ite_both forwarded forwarded' with ⟨-, left, right⟩ | ⟨-, left, right⟩
    · exact h.forward low fromStores.producers same₂ left right
    · cases left
      cases right
      exact same₂
  -- last the entry is listed with its producers
  have noted : Abreast s rest rest' time
      { th with registers := th.registers.note (th.frontSeq?.getD e.fetched.seq) u₂, stores }
      { th' with
        registers := th'.registers.note (th'.frontSeq?.getD f.fetched.seq) v₂
        stores := stores' } :=
    { h with
      registers := h.registers.note low fromStores seq₂ seq₂'
      stores := table
      left := { h.left with }
      right := { h.right with } }
  obtain ⟨same₄, listed⟩ := noted.watch low same₃.u.producers same₃ watched watched'
  have cpi : stats'.cpi = stats.cpi := by
    rw [cpi_recordDistance counted, cpi_recordDistance counted']
    exact listed.cpi
  exact ⟨same₄.settle, { listed with cpi, left := { listed.left with }, right := { listed.right with } }⟩

end Thread

end CoreTiming
