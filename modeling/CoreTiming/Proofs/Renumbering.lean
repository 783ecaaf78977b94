import CoreTiming.Proofs.Stages
import Mathlib.Data.List.Forall2

/-!
# Micro-ops under other numbers

Whenever a window starts over, its micro-ops get fresh numbers, and those depend on how many of them were
buffered at that time.  So two threads that do the same work may do it under different numbers.  What
matters is that the numbers of one thread correspond to those of the other by a `Shift`: then whatever is
looked up by number is found at the same place.
-/

namespace CoreTiming

/-! ## Section 1: Numbers -/

/-- How the numbers of two threads correspond: `left` in the one thread is `right` in the other one. -/
structure Shift where
  /-- A number of the first thread. -/
  left : Nat
  /-- The same place in the second thread. -/
  right : Nat

namespace Shift

variable {s : Shift} {x y z w : Nat} {l l' k k' : List Nat}

/-- The number `x` of the first thread is `y` in the second one. -/
def Same (s : Shift) (x y : Nat) : Prop := x + s.right = y + s.left

/-- The numbers of two lists correspond one by one. -/
abbrev SameList (s : Shift) : List Nat → List Nat → Prop := List.Forall₂ s.Same

/-- Either there is no number on either side, or both correspond. -/
abbrev SameOption (s : Shift) : Option Nat → Option Nat → Prop := Option.Rel s.Same

theorem Same.lt_iff (h : s.Same x y) (h' : s.Same z w) : x < z ↔ y < w := by
  unfold Same at h h'
  omega

theorem Same.le_iff (h : s.Same x y) (h' : s.Same z w) : x ≤ z ↔ y ≤ w := by
  unfold Same at h h'
  omega

theorem Same.eq_iff (h : s.Same x y) (h' : s.Same z w) : x = z ↔ y = w := by
  unfold Same at h h'
  omega

theorem Same.sub_eq (h : s.Same x y) (h' : s.Same z w) : x - z = y - w := by
  unfold Same at h h'
  omega

theorem same_start (s : Shift) (n : Nat) : s.Same (s.left + n) (s.right + n) := by
  unfold Same
  omega

theorem SameList.mem_iff (h : s.SameList l l') (same : s.Same x y) : x ∈ l ↔ y ∈ l' := by
  induction h with
  | nil => simp
  | cons first _ ih => rw [List.mem_cons, List.mem_cons, same.eq_iff first, ih]

theorem SameList.erase (h : s.SameList l l') (same : s.Same x y) :
    s.SameList (l.erase x) (l'.erase y) := by
  induction h with
  | nil => exact .nil
  | @cons a b _ _ first rest ih =>
    have alike := first.eq_iff same
    by_cases here : a = x
    · have there := alike.mp here
      rw [here, there, List.erase_cons_head, List.erase_cons_head]
      exact rest
    · have elsewhere : b ≠ y := fun there => here (alike.mpr there)
      rw [List.erase_cons_tail (by simpa using here), List.erase_cons_tail (by simpa using elsewhere)]
      exact .cons first ih

theorem SameList.append (h : s.SameList l l') (h' : s.SameList k k') :
    s.SameList (l ++ k) (l' ++ k') :=
  List.rel_append h h'

theorem SameList.isEmpty_eq (h : s.SameList l l') : l'.isEmpty = l.isEmpty := by
  cases h with
  | nil => rfl
  | cons _ _ => rfl

theorem SameOption.filter {p q : Nat → Bool} {o o' : Option Nat} (h : s.SameOption o o')
    (same : ∀ x y, s.Same x y → p x = q y) : s.SameOption (o.filter p) (o'.filter q) := by
  cases h with
  | none => exact .none
  | @some x y related =>
    rw [Option.filter_some, Option.filter_some, same x y related]
    split
    · exact .some related
    · exact .none

/-- Numbers in use are numbers. -/
theorem Same.seq? (h : s.Same x y) (hx : x ≠ noSeq) (hy : y ≠ noSeq) :
    s.SameOption (CoreTiming.seq? x) (CoreTiming.seq? y) := by
  unfold CoreTiming.seq?
  rw [if_neg hx, if_neg hy]
  exact .some h

theorem SameList.push {n : Nat} {a b c d : BoundedList n} {what : String}
    (h : s.SameList a.toList b.toList) (same : s.Same x y) (left : a.push what x = .ok c)
    (right : b.push what y = .ok d) : s.SameList c.toList d.toList := by
  rw [BoundedList.toList_push left, BoundedList.toList_push right]
  exact h.append (.cons same .nil)

theorem SameList.insert {n : Nat} {a b c d : BoundedList n} {what : String}
    (h : s.SameList a.toList b.toList) (same : s.Same x y) (left : a.insert what x = .ok c)
    (right : b.insert what y = .ok d) : s.SameList c.toList d.toList := by
  have present : a.contains x = b.contains y := by
    unfold BoundedList.contains
    rw [Bool.eq_iff_iff, List.contains_iff_mem, List.contains_iff_mem]
    exact h.mem_iff same
  unfold BoundedList.insert at left right
  rw [← present] at right
  split at left
  · rename_i found
    rw [if_pos found] at right
    cases left
    cases right
    exact h
  · rename_i missing
    rw [if_neg missing] at right
    exact h.push same left right

end Shift

/-! ## Section 2: Micro-ops -/

/-- Both are the same micro-op under numbers that correspond. -/
structure OpInstance.Renumbered (s : Shift) (u v : OpInstance) : Prop where
  /-- Nothing but numbers differs. -/
  frame : v = { u with seq := v.seq, producers := v.producers }
  /-- Its own number corresponds. -/
  seq : s.Same u.seq v.seq
  /-- The producers that it waits for correspond. -/
  producers : s.SameList u.producers.toList v.producers.toList

/-- Two loops over lists that match, both of which have gone through, relate what each pair of rounds relates. -/
theorem Except.foldlM_both {ε α β : Type} {Q : α → α → Prop} {R : β → β → Prop} {f f' : β → α → Except ε β}
    {xs xs' : List α} {b b' c c' : β} (lists : List.Forall₂ Q xs xs') (left : xs.foldlM f b = .ok c) (right : xs'.foldlM f' b' = .ok c')
    (round : ∀ {a a' b b' c c'}, Q a a' → f b a = .ok c → f' b' a' = .ok c' → R b b' → R c c')
    (start : R b b') : R c c' := by
  induction lists generalizing b b' with
  | nil =>
    cases left
    cases right
    exact start
  | cons related _ ih =>
    obtain ⟨d, d', first, first', left, right⟩ := bind_both left right
    exact ih left right (round related first first' start)

namespace OpInstance

variable {s : Shift} {u v u' v' : OpInstance} {x y : Nat}

/-- What does not depend on numbers is the same. -/
theorem Renumbered.congr {α : Type} {f : OpInstance → α} (h : u.Renumbered s v)
    (hf : ∀ seq producers, f { u with seq, producers } = f u) : f v = f u := by
  rw [h.frame]
  exact hf _ _

/-- What does not depend on numbers may be changed. -/
theorem Renumbered.map {f : OpInstance → OpInstance} (h : u.Renumbered s v)
    (hf : ∀ u seq producers, f { u with seq, producers } = { f u with seq, producers }) :
    (f u).Renumbered s (f v) := by
  obtain ⟨frame, same, waits⟩ := h
  have left := hf u u.seq u.producers
  have right := hf u v.seq v.producers
  rw [← frame] at right
  rw [left, right]
  exact ⟨rfl, same, waits⟩

theorem Renumbered.op_eq (h : u.Renumbered s v) : v.op = u.op := h.congr (f := op) fun _ _ => rfl

theorem Renumbered.fetchHit_eq (h : u.Renumbered s v) : v.fetchHit = u.fetchHit :=
  h.congr (f := fetchHit) fun _ _ => rfl

theorem Renumbered.latency_eq (h : u.Renumbered s v) : v.latency = u.latency :=
  h.congr (f := latency) fun _ _ => rfl

theorem Renumbered.addProducer (h : u.Renumbered s v) (same : s.Same x y)
    (left : u.addProducer x = .ok u') (right : v.addProducer y = .ok v') : u'.Renumbered s v' := by
  obtain ⟨p, q, inserted, inserted', made, made'⟩ := Except.bind_both left right
  cases made
  cases made'
  refine ⟨?_, h.seq, h.producers.insert same inserted inserted'⟩
  rw [h.frame]

theorem Renumbered.addProducers {l l' : List Nat} (h : u.Renumbered s v) (same : s.SameList l l')
    (left : l.foldlM (fun u producer => u.addProducer producer) u = .ok u')
    (right : l'.foldlM (fun u producer => u.addProducer producer) v = .ok v') :
    u'.Renumbered s v' := by
  exact Except.foldlM_both same left right (fun first added added' h => h.addProducer first added added') h

theorem Renumbered.dropProducer (h : u.Renumbered s v) (same : s.Same x y) :
    (u.dropProducer x).Renumbered s (v.dropProducer y) := by
  refine ⟨?_, h.seq, h.producers.erase same⟩
  show ({ v with producers := _ } : OpInstance) = _
  rw [h.frame]
  rfl

end OpInstance

/-! ## Section 3: Entries -/

/-- Both are the same entry under numbers that correspond. -/
structure Entry.Renumbered (s : Shift) (e f : Entry) : Prop where
  /-- Nothing but the micro-op and numbers differs. -/
  frame : f = { e with
    u := f.u
    dependants := f.dependants
    addressProducers := f.addressProducers }
  /-- It is the same micro-op. -/
  u : e.u.Renumbered s f.u
  /-- The consumers to wake correspond. -/
  dependants : s.SameList e.dependants.toList f.dependants.toList
  /-- The producers of the address correspond. -/
  addressProducers : s.SameList e.addressProducers.toList f.addressProducers.toList

namespace Entry

variable {s : Shift} {e f e' f' : Entry} {x y : Nat}

/-- What depends neither on the micro-op nor on numbers is the same. -/
theorem Renumbered.congr {α : Type} {g : Entry → α} (h : e.Renumbered s f)
    (hg : ∀ u dependants addressProducers, g { e with u, dependants, addressProducers } = g e) :
    g f = g e := by
  rw [h.frame]
  exact hg _ _ _

theorem Renumbered.dispatched_eq (h : e.Renumbered s f) : f.dispatched = e.dispatched :=
  h.congr (g := dispatched) fun _ _ _ => rfl

theorem Renumbered.ready_eq (h : e.Renumbered s f) : f.ready = e.ready :=
  h.congr (g := ready) fun _ _ _ => rfl

theorem Renumbered.readyMax_eq (h : e.Renumbered s f) : f.readyMax = e.readyMax :=
  h.congr (g := readyMax) fun _ _ _ => rfl

theorem Renumbered.addressReady_eq (h : e.Renumbered s f) : f.addressReady = e.addressReady :=
  h.congr (g := addressReady) fun _ _ _ => rfl

theorem Renumbered.addressReadyMax_eq (h : e.Renumbered s f) :
    f.addressReadyMax = e.addressReadyMax :=
  h.congr (g := addressReadyMax) fun _ _ _ => rfl

theorem Renumbered.issued_eq (h : e.Renumbered s f) : f.issued = e.issued :=
  h.congr (g := issued) fun _ _ _ => rfl

theorem Renumbered.done_eq (h : e.Renumbered s f) : f.done = e.done :=
  h.congr (g := done) fun _ _ _ => rfl

theorem Renumbered.isDone_eq (h : e.Renumbered s f) : f.isDone = e.isDone :=
  h.congr (g := isDone) fun _ _ _ => rfl

theorem Renumbered.flushes_eq (h : e.Renumbered s f) : f.flushes = e.flushes :=
  h.u.congr (f := fun u => u.op.isBranch && u.mispredicted) fun _ _ => rfl

/-- What depends neither on the micro-op nor on numbers may be changed. -/
theorem Renumbered.map {g : Entry → Entry} (h : e.Renumbered s f)
    (hg : ∀ (e : Entry) u dependants addressProducers,
      g { e with u, dependants, addressProducers } = { g e with u, dependants, addressProducers }) :
    (g e).Renumbered s (g f) := by
  obtain ⟨frame, same, wakes, waits⟩ := h
  have left := hg e e.u e.dependants e.addressProducers
  have right := hg e f.u f.dependants f.addressProducers
  rw [← frame] at right
  rw [left, right]
  exact ⟨rfl, same, wakes, waits⟩

/-- The micro-op may be exchanged. -/
theorem Renumbered.setOp {u v : OpInstance} (h : e.Renumbered s f) (same : u.Renumbered s v) :
    ({ e with u } : Entry).Renumbered s { f with u := v } := by
  refine ⟨?_, same, h.dependants, h.addressProducers⟩
  dsimp only
  rw [h.frame]

/-- Pushed once more, entries may be numbered in another way. -/
theorem Renumbered.restart {s' : Shift} (h : e.Renumbered s f) (number : s'.Same x y) :
    (e.restart x).Renumbered s' (f.restart y) := by
  refine ⟨rfl, ⟨?_, number, .nil⟩, .nil, .nil⟩
  show ({ f.u.dropAllProducers with seq := y } : OpInstance) = _
  rw [h.u.frame]
  rfl

theorem Renumbered.fetched (h : e.Renumbered s f) : e.fetched.Renumbered s f.fetched :=
  h.setOp (h.u.map (f := fun u => { u with fetchHit := .l1i }) fun _ _ _ => rfl)

theorem Renumbered.dropProducer (h : e.Renumbered s f) (same : s.Same x y) :
    (e.dropProducer x).Renumbered s (f.dropProducer y) :=
  h.setOp (h.u.dropProducer same)

theorem Renumbered.observe (h : e.Renumbered s f) (done : Time) :
    (e.observe done).Renumbered s (f.observe done) :=
  h.map (g := (·.observe done)) fun _ _ _ _ => rfl

theorem Renumbered.settle (h : e.Renumbered s f) : e.settle.Renumbered s f.settle := by
  have same : f.u.producers.isEmpty = e.u.producers.isEmpty := h.u.producers.isEmpty_eq
  unfold Entry.settle
  rw [same]
  split
  · exact h.map (g := fun e => { e with ready := e.readyMax }) fun _ _ _ _ => rfl
  · exact h

theorem Renumbered.addDependant (h : e.Renumbered s f) (same : s.Same x y)
    (left : e.addDependant x = .ok e') (right : f.addDependant y = .ok f') :
    e'.Renumbered s f' := by
  obtain ⟨p, q, pushed, pushed', made, made'⟩ := Except.bind_both left right
  cases made
  cases made'
  refine ⟨?_, h.u, h.dependants.push same pushed pushed', h.addressProducers⟩
  dsimp only
  rw [h.frame]

theorem Renumbered.addAddressProducer (h : e.Renumbered s f) (same : s.Same x y)
    (left : e.addAddressProducer x = .ok e') (right : f.addAddressProducer y = .ok f') :
    e'.Renumbered s f' := by
  obtain ⟨p, q, pushed, pushed', made, made'⟩ := Except.bind_both left right
  cases made
  cases made'
  refine ⟨?_, h.u, h.dependants, h.addressProducers.push same pushed pushed'⟩
  dsimp only
  rw [h.frame]

end Entry

/-! ## Section 4: The table of registers -/

/-- In both tables the same registers have writers, and these correspond. -/
structure RegisterTable.Renumbered (s : Shift) (t t' : RegisterTable) : Prop where
  /-- The same registers are tracked. -/
  size : t'.writers.size = t.writers.size
  /-- The writers correspond. -/
  writers : ∀ r, s.SameOption (t.writer? r) (t'.writer? r)

namespace RegisterTable

variable {s : Shift} {t t' : RegisterTable} {u v u' v' : OpInstance} {lowest lowest' : Nat}

theorem renumbered_empty (s : Shift) : empty.Renumbered s empty := by
  refine ⟨rfl, fun r => ?_⟩
  rw [writer?_empty]
  exact .none

theorem Renumbered.live? (h : t.Renumbered s t') (low : s.Same lowest lowest') (r : Register) :
    s.SameOption (t.live? r lowest) (t'.live? r lowest') := by
  refine Shift.SameOption.filter (h.writers r) fun x y same => ?_
  rw [decide_eq_decide]
  exact low.le_iff same

theorem Renumbered.awaitWriter {r : Register} (h : t.Renumbered s t') (low : s.Same lowest lowest')
    (op : u.Renumbered s v) (left : t.awaitWriter lowest u r = .ok u')
    (right : t'.awaitWriter lowest' v r = .ok v') : u'.Renumbered s v' := by
  have live := h.live? low r
  unfold RegisterTable.awaitWriter at left right
  generalize t.live? r lowest = o at live left
  generalize t'.live? r lowest' = o' at live right
  cases live with
  | none =>
    cases left
    cases right
    exact op
  | some same => exact op.addProducer same left right

theorem Renumbered.await (h : t.Renumbered s t') (low : s.Same lowest lowest')
    (op : u.Renumbered s v) (left : t.await lowest u = .ok u') (right : t'.await lowest' v = .ok v') :
    u'.Renumbered s v' := by
  unfold RegisterTable.await at left right
  rw [op.op_eq] at right
  generalize u.op.sources = rs at left right
  induction rs generalizing u v with
  | nil =>
    cases left
    cases right
    exact op
  | cons r rest ih =>
    obtain ⟨u₁, v₁, first, first', left, right⟩ := Except.bind_both left right
    exact ih (h.awaitWriter low op first first') left right

theorem Renumbered.record {o o' : Option Nat} (h : t.Renumbered s t') (same : s.SameOption o o')
    (r : Register) : (t.record o r).Renumbered s (t'.record o' r) := by
  refine ⟨?_, fun k => ?_⟩
  · unfold RegisterTable.record
    rw [Array.size_setIfInBounds, Array.size_setIfInBounds]
    exact h.size
  · rw [writer?_record, writer?_record, h.size]
    split
    · exact same
    · exact h.writers k

theorem Renumbered.forget (h : t.Renumbered s t') (low : s.Same lowest lowest') (r : Register) :
    (t.forget lowest r).Renumbered s (t'.forget lowest' r) := by
  have writer := h.writers r
  unfold RegisterTable.forget
  generalize t.writer? r = o at writer
  generalize t'.writer? r = o' at writer
  cases writer with
  | none => exact h
  | some same =>
    simp only [low.le_iff same]
    split
    · exact h
    · exact h.record .none r

theorem Renumbered.note (h : t.Renumbered s t') (low : s.Same lowest lowest')
    (op : u.Renumbered s v) (left : u.seq ≠ noSeq) (right : v.seq ≠ noSeq) :
    (t.note lowest u).Renumbered s (t'.note lowest' v) := by
  unfold RegisterTable.note
  rw [op.op_eq]
  have forgotten := List.foldl_rel (l := u.op.sources) h fun r _ t t' h => h.forget low r
  exact List.foldl_rel forgotten fun r _ t t' h => h.record (op.seq.seq? left right) r

end RegisterTable

/-! ## Section 5: The table of stores -/

/-- Both are the same store under numbers that correspond. -/
structure StoreRecord.Renumbered (s : Shift) (r r' : StoreRecord) : Prop where
  /-- The numbers correspond. -/
  seq : s.Same r.seq r'.seq
  /-- The address is the same. -/
  address : r'.address = r.address
  /-- The first number is one. -/
  left : r.seq ≠ noSeq
  /-- The second number is one. -/
  right : r'.seq ≠ noSeq

/-- Both tables hold the same stores and the same fence. -/
structure StoreTable.Renumbered (s : Shift) (t t' : StoreTable) : Prop where
  /-- The stores correspond. -/
  stores : Pointwise (StoreRecord.Renumbered s) t.stores.toList t'.stores.toList
  /-- The latest fences correspond. -/
  fence : s.SameOption t.fence t'.fence

namespace StoreTable

variable {s : Shift} {t t' t₁ t₁' : StoreTable} {u v u' v' : OpInstance} {lowest lowest' : Nat}
  {r r' : Ring StoreRecord}

theorem renumbered_clear (s : Shift) (t t' : StoreTable) : t.clear.Renumbered s t'.clear :=
  ⟨fun _ => .none, .none⟩

theorem renumbered_dropOld (low : s.Same lowest lowest') (fuel : Nat)
    (h : Pointwise (StoreRecord.Renumbered s) r.toList r'.toList) :
    Pointwise (StoreRecord.Renumbered s) (dropOld lowest fuel r).toList
      (dropOld lowest' fuel r').toList := by
  induction fuel generalizing r r' with
  | zero => exact h
  | succ fuel ih =>
    have front := h 0
    rw [Ring.getElem?_toList, Ring.getElem?_toList] at front
    unfold dropOld Ring.front?
    generalize r.get? 0 = o at front
    generalize r'.get? 0 = o' at front
    cases front with
    | none => exact h
    | some same =>
      simp only [same.seq.lt_iff low]
      split
      · apply ih
        rw [Ring.toList_tail, Ring.toList_tail, ← List.drop_one, ← List.drop_one]
        exact h.drop 1
      · exact h

theorem Renumbered.clean (h : t.Renumbered s t') (low : s.Same lowest lowest') :
    (t.clean lowest).Renumbered s (t'.clean lowest') := by
  have length : t'.stores.length = t.stores.length := by
    rw [← Ring.length_toList, ← Ring.length_toList]
    exact h.stores.length_eq
  refine ⟨?_, h.fence⟩
  unfold StoreTable.clean
  rw [length]
  exact renumbered_dropOld low _ h.stores

theorem renumbered_findBelow (address : Address) (n : Nat)
    (h : Pointwise (StoreRecord.Renumbered s) r.toList r'.toList) :
    s.SameOption (findBelow r address n) (findBelow r' address n) := by
  induction n with
  | zero => exact .none
  | succ n ih =>
    have there := h n
    rw [Ring.getElem?_toList, Ring.getElem?_toList] at there
    unfold findBelow
    generalize r.get? n = o at there
    generalize r'.get? n = o' at there
    cases there with
    | none => exact .none
    | some same =>
      dsimp only
      rw [same.address]
      split
      · exact same.seq.seq? same.left same.right
      · exact ih

theorem Renumbered.find? (h : t.Renumbered s t') (address : Address) :
    s.SameOption (t.find? address) (t'.find? address) := by
  have length : t'.stores.length = t.stores.length := by
    rw [← Ring.length_toList, ← Ring.length_toList]
    exact h.stores.length_eq
  unfold StoreTable.find?
  rw [length]
  exact renumbered_findBelow address _ h.stores

theorem Renumbered.liveFence? (h : t.Renumbered s t') (low : s.Same lowest lowest') :
    s.SameOption (t.liveFence? lowest) (t'.liveFence? lowest') := by
  refine Shift.SameOption.filter h.fence fun x y same => ?_
  rw [decide_eq_decide]
  exact low.lt_iff same

theorem renumbered_await {o o' : Option Nat} (op : u.Renumbered s v) (same : s.SameOption o o')
    (left : await u o = .ok u') (right : await v o' = .ok v') : u'.Renumbered s v' := by
  cases same with
  | none =>
    cases left
    cases right
    exact op
  | some same => exact op.addProducer same left right

theorem Renumbered.link (h : t.Renumbered s t') (low : s.Same lowest lowest')
    (op : u.Renumbered s v) (number : u.seq ≠ noSeq) (number' : v.seq ≠ noSeq)
    (left : t.link u lowest = .ok (u', t₁)) (right : t'.link v lowest' = .ok (v', t₁')) :
    u'.Renumbered s v' ∧ t₁.Renumbered s t₁' := by
  have cleaned := h.clean low
  have address : v.address = u.address := op.congr (f := OpInstance.address) fun _ _ => rfl
  unfold StoreTable.link at left right
  rw [op.op_eq, address] at right
  dsimp only at left right
  rcases Except.ite_both left right with ⟨-, left, right⟩ | ⟨-, left, right⟩
  -- a load waits for a store and for the fence
  · obtain ⟨u₁, v₁, store, store', left, right⟩ := Except.bind_both left right
    obtain ⟨u₂, v₂, fence, fence', left, right⟩ := Except.bind_both left right
    cases left
    cases right
    have found := renumbered_await op (cleaned.find? u.address) store store'
    exact ⟨renumbered_await found (cleaned.liveFence? low) fence fence', cleaned⟩
  · rcases Except.ite_both left right with ⟨-, left, right⟩ | ⟨-, left, right⟩
    -- a store waits for the fence and is recorded
    · obtain ⟨stores, stores', pushed, pushed', left, right⟩ := Except.bind_both left right
      obtain ⟨u₁, v₁, fence, fence', left, right⟩ := Except.bind_both left right
      cases left
      cases right
      refine ⟨renumbered_await op (cleaned.liveFence? low) fence fence', ?_, cleaned.fence⟩
      dsimp only
      rw [Ring.toList_push pushed, Ring.toList_push pushed']
      exact cleaned.stores.concat ⟨op.seq, rfl, number, number'⟩
    · rcases Except.ite_both left right with ⟨-, left, right⟩ | ⟨-, left, right⟩
      -- a fence waits for the one before it, and takes its place
      · obtain ⟨u₁, v₁, fence, fence', left, right⟩ := Except.bind_both left right
        cases left
        cases right
        exact ⟨renumbered_await op (cleaned.liveFence? low) fence fence', cleaned.stores,
          op.seq.seq? number number'⟩
      · cases left
        cases right
        exact ⟨op, cleaned⟩

end StoreTable

end CoreTiming
