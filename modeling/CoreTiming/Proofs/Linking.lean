import CoreTiming.Proofs.Tables
import CoreTiming.Proofs.Waking

/-!
# Linking an entry to its producers

An entry that enters the window is linked to the entries that it has to wait for.  `Thread.Linked`
says what this leaves behind: for each producer that is sought, either its result has been taken into
account or the producer will wake the entry (`Thread.Heeds`), unless the producer is a store whose own
producers the entry waits for instead.
-/

namespace CoreTiming

open Faulting

/-! ## Section 1: Listing a consumer -/

namespace Entry

/-- `e'` is `e`, possibly with one more consumer to wake. -/
structure Listed (consumer : Nat) (e e' : Entry) : Prop where
  /-- Only the list of consumers has changed. -/
  frame : e' = { e with dependants := e'.dependants }
  /-- No consumer is dropped from it. -/
  keeps : ∀ q ∈ e.dependants.toList, q ∈ e'.dependants.toList
  /-- No other consumer is added. -/
  fewer : ∀ q ∈ e'.dependants.toList, q ∈ e.dependants.toList ∨ q = consumer

namespace Listed

variable {consumer : Nat} {e e' e'' : Entry}

theorem refl (e : Entry) : Listed consumer e e := ⟨rfl, fun _ h => h, fun _ h => .inl h⟩

theorem trans (h : Listed consumer e e') (h' : Listed consumer e' e'') : Listed consumer e e'' :=
  ⟨by rw [h'.frame, h.frame], fun q hq => h'.keeps q (h.keeps q hq),
    fun q hq => (h'.fewer q hq).elim (h.fewer q) .inr⟩

theorem seq_eq (h : Listed consumer e e') : e'.seq = e.seq := by
  rw [h.frame]
  rfl

theorem done_eq (h : Listed consumer e e') : e'.done = e.done := by
  rw [h.frame]

end Listed

theorem listed_addDependant {e e' : Entry} {seq : Nat} (h : e.addDependant seq = .ok e') :
    e.Listed seq e' ∧ seq ∈ e'.dependants.toList := by
  obtain ⟨dependants, pushed, he⟩ := Except.bind_eq_ok.mp h
  cases he
  have list := BoundedList.toList_push pushed
  refine ⟨⟨rfl, fun q hq => ?_, fun q hq => ?_⟩, ?_⟩
  · show q ∈ dependants.toList
    rw [list]
    exact List.mem_append_left _ hq
  · have added : q ∈ dependants.toList := hq
    rw [list] at added
    exact (List.mem_append.mp added).imp_right List.mem_singleton.mp
  · show seq ∈ dependants.toList
    rw [list]
    exact List.mem_append_right _ (List.mem_singleton.mpr rfl)

end Entry

namespace Thread

variable {th th' : Thread} {lowest : Nat} {e e' : Entry} {seqs : List Nat}

/-! ## Section 2: The parts of linking -/

/-- What looking up one address register does to a store that enters the window. -/
inductive AddressStep (th : Thread) (lowest : Nat) (e : Entry) (r : Register) : Entry → Prop
  /-- Nothing in flight writes the register. -/
  | free (none : th.registers.live? r lowest = none) : AddressStep th lowest e r e
  /-- The result of its writer is known. -/
  | known {q i : Nat} {p : Entry} (live : th.registers.live? r lowest = some q)
      (located : th.locate q = .ok (i, p)) (done : p.isDone = true) :
      AddressStep th lowest e r { e with addressReadyMax := max e.addressReadyMax p.done }
  /-- Its writer has to issue yet. -/
  | awaited {q i : Nat} {p : Entry} {producers : BoundedList maxAddressProducers}
      (live : th.registers.live? r lowest = some q) (located : th.locate q = .ok (i, p))
      (waiting : p.isDone = false) (list : producers.toList = e.addressProducers.toList ++ [q]) :
      AddressStep th lowest e r { e with addressProducers := producers }

theorem addressStep_of_awaitAddress {r : Register} (h : th.awaitAddress lowest e r = .ok e') :
    th.AddressStep lowest e r e' := by
  unfold awaitAddress at h
  split at h
  · rename_i none
    cases h
    exact .free none
  · rename_i writer live
    obtain ⟨⟨i, p⟩, located, h⟩ := Except.bind_eq_ok.mp h
    dsimp only at h
    split at h
    · rename_i done
      cases h
      exact .known live located done
    · rename_i waiting
      obtain ⟨producers, pushed, added⟩ := Except.bind_eq_ok.mp h
      cases added
      exact .awaited live located (Bool.eq_false_iff.mpr waiting) (BoundedList.toList_push pushed)

theorem linkAddress_eq_ok (h : th.linkAddress lowest e = .ok e') :
    e' = { e with
      addressReady := e'.addressReady
      addressReadyMax := e'.addressReadyMax
      addressProducers := e'.addressProducers } := by
  obtain ⟨x, linked, hx⟩ := Except.bind_eq_ok.mp h
  have frame : x = { e with
      addressReadyMax := x.addressReadyMax
      addressProducers := x.addressProducers } := by
    refine Except.keeps_of_foldlM (P := fun x => x = { e with
      addressReadyMax := x.addressReadyMax
      addressProducers := x.addressProducers }) linked (fun _ step frame => ?_) rfl
    cases addressStep_of_awaitAddress step with
    | free => exact frame
    | known => rw [frame]
    | awaited => rw [frame]
  rw [Except.pure_eq_ok] at hx
  subst hx
  split
  · rw [frame]
  · rw [frame]

/-- The address of a store waits for writers on record only. -/
theorem mem_addressProducers_linkAddress {q : Nat} (h : th.linkAddress lowest e = .ok e')
    (mem : q ∈ e'.addressProducers.toList) :
    q ∈ e.addressProducers.toList ∨ ∃ r, th.registers.live? r lowest = some q := by
  obtain ⟨x, linked, hx⟩ := Except.bind_eq_ok.mp h
  have awaited : q ∈ x.addressProducers.toList →
      q ∈ e.addressProducers.toList ∨ ∃ r, th.registers.live? r lowest = some q := by
    refine Except.keeps_of_foldlM (P := fun x => q ∈ x.addressProducers.toList →
      q ∈ e.addressProducers.toList ∨ ∃ r, th.registers.live? r lowest = some q)
      linked (fun {_ r _} _ step before mem => ?_) .inl
    cases addressStep_of_awaitAddress step with
    | free => exact before mem
    | known => exact before mem
    | awaited live _ _ list =>
      dsimp only at mem
      rw [list] at mem
      rcases List.mem_append.mp mem with old | new
      · exact before old
      · exact .inr ⟨r, List.mem_singleton.mp new ▸ live⟩
  rw [Except.pure_eq_ok] at hx
  subst hx
  refine awaited ?_
  split at mem
  · exact mem
  · exact mem

/-- The result of producer `q` reaches `e'`, which enters the window: either it is part of what `e'`
has been told, or `e'` waits for it and the producer will wake `e'`. -/
def Heeds (th th' : Thread) (e' : Entry) (q : Nat) : Prop :=
  ∃ (i : Nat) (p : Entry), th.ring.toList[i]? = some p ∧ p.seq = q ∧
    (p.done ≤ e'.readyMax ∨ q ∈ e'.u.producers.toList ∧
      ∃ p', th'.ring.toList[i]? = some p' ∧ e'.seq ∈ p'.dependants.toList)

/-- `e'` takes from the store numbered `q` what the store itself waits for. -/
def Passes (th : Thread) (e' : Entry) (q : Nat) (reaches : Nat → Prop) : Prop :=
  ∃ (i : Nat) (p : Entry), th.ring.toList[i]? = some p ∧ p.seq = q ∧ p.u.op.isStore = true ∧
    p.readyMax ≤ e'.readyMax ∧ ∀ q' ∈ p.u.producers.toList, reaches q'

/-- `e'` is `e` after it may have taken over what a store among `seqs` waits for. -/
structure Forwards (th : Thread) (seqs : List Nat) (e e' : Entry) : Prop where
  /-- Only what concerns the producers has changed. -/
  frame : e' = { e with u := { e.u with producers := e'.u.producers }, readyMax := e'.readyMax }
  /-- What was known of the producers is still known. -/
  readyMax_le : e.readyMax ≤ e'.readyMax
  /-- A producer that is given up is a store whose own producers have come in its place. -/
  keeps : ∀ q ∈ e.u.producers.toList, q ∈ e'.u.producers.toList ∨
    th.Passes e' q (· ∈ e'.u.producers.toList)
  /-- Other producers come from an entry in the ring. -/
  fewer : ∀ q ∈ e'.u.producers.toList, q ∈ e.u.producers.toList ∨
    ∃ s ∈ seqs, ∃ (i : Nat) (p : Entry),
      th.ring.toList[i]? = some p ∧ p.seq = s ∧ q ∈ p.u.producers.toList
  /-- No producer is listed more often than before. -/
  nodup : e.u.producers.toList.Nodup → e'.u.producers.toList.Nodup
  /-- The times are those of entries in the ring. -/
  times : ∀ P : Time → Prop, P e.readyMax →
    (∀ p ∈ th.ring.toList, p.seq ∈ seqs → P p.readyMax) → P e'.readyMax

theorem Forwards.refl (th : Thread) (seqs : List Nat) (e : Entry) : th.Forwards seqs e e :=
  ⟨rfl, le_refl _, fun _ h => .inl h, fun _ h => .inl h, id, fun _ h _ => h⟩

theorem Forwards.cons {seq : Nat} (h : th.Forwards seqs e e') : th.Forwards (seq :: seqs) e e' where
  frame := h.frame
  readyMax_le := h.readyMax_le
  keeps := h.keeps
  fewer q hq := (h.fewer q hq).imp_right fun ⟨s, hs, found⟩ =>
    ⟨s, List.mem_cons_of_mem _ hs, found⟩
  nodup := h.nodup
  times P hm hp := h.times P hm fun p mem hseq => hp p mem (List.mem_cons_of_mem _ hseq)

theorem forwards_forward (h : th.forward lowest e seqs = .ok e') : th.Forwards seqs e e' := by
  induction seqs with
  | nil =>
    cases h
    exact .refl _ _ _
  | cons seq rest ih =>
    unfold forward at h
    split at h
    · exact (ih h).cons
    · obtain ⟨⟨i, store⟩, located, h⟩ := Except.bind_eq_ok.mp h
      obtain ⟨entry, hseq⟩ := locate_eq_ok located
      dsimp only at h
      split at h
      · rename_i isStore
        obtain ⟨u, added, he⟩ := Except.bind_eq_ok.mp h
        cases he
        have awaits := OpInstance.awaits_addProducers added
        refine ⟨?_, le_max_left _ _, fun q hq => ?_, fun q hq => ?_,
          fun nodup => awaits.nodup (nodup.erase seq), fun P hm hp =>
          max_rec' P hm (hp _ (List.mem_of_getElem? entry) (hseq ▸ List.mem_cons_self))⟩
        · rw [awaits.frame]
          rfl
        · by_cases hne : q = seq
          · subst hne
            exact .inr ⟨i, store, entry, hseq, isStore, le_max_right _ _,
              fun q' hq' => (awaits.mem_iff q').mpr (.inr hq')⟩
          · exact .inl ((awaits.mem_iff q).mpr (.inl ((List.mem_erase_of_ne hne).mpr hq)))
        · rcases (awaits.mem_iff q).mp hq with hq | hq
          · exact .inl (List.mem_of_mem_erase hq)
          · exact .inr ⟨seq, List.mem_cons_self, i, store, entry, hseq, hq⟩
      · exact (ih h).cons

/-- `e'` is `e` after it has looked at the producers `seqs`. -/
structure Watches (th : Thread) (lowest : Nat) (seqs : List Nat) (e : Entry) (th' : Thread)
    (e' : Entry) : Prop where
  /-- Only what concerns the producers has changed. -/
  frame : e' = { e with u := { e.u with producers := e'.u.producers }, readyMax := e'.readyMax }
  /-- In the thread, only entries have changed. -/
  thread : th' = { th with ring := th'.ring }
  /-- They have got a consumer. -/
  ring : Pointwise (Entry.Listed e.seq) th.ring.toList th'.ring.toList
  /-- What was known of the producers is still known. -/
  readyMax_le : e.readyMax ≤ e'.readyMax
  /-- A producer that is given up is no longer in flight, or its result has been noted. -/
  keeps : ∀ q ∈ e.u.producers.toList, q ∈ e'.u.producers.toList ∨ q < lowest ∨
    ∃ (i : Nat) (p : Entry), th.ring.toList[i]? = some p ∧ p.seq = q ∧ p.done ≤ e'.readyMax
  /-- No producer is added. -/
  fewer : ∀ q ∈ e'.u.producers.toList, q ∈ e.u.producers.toList
  /-- The producers that have been looked at have delivered, or will wake the entry. -/
  listed : ∀ q ∈ seqs, lowest ≤ q → ∃ (i : Nat) (p : Entry), th.ring.toList[i]? = some p ∧
    p.seq = q ∧ (p.done ≤ e'.readyMax ∨
      ∃ p', th'.ring.toList[i]? = some p' ∧ e.seq ∈ p'.dependants.toList)
  /-- No producer is listed more often than before. -/
  nodup : e.u.producers.toList.Nodup → e'.u.producers.toList.Nodup
  /-- The producers that have been looked at and are not given up have not issued, and will wake the
  entry. -/
  pending : e.u.producers.toList.Nodup → ∀ q ∈ seqs, q ∈ e'.u.producers.toList →
    ∃ (i : Nat) (p p' : Entry), th.ring.toList[i]? = some p ∧ th'.ring.toList[i]? = some p' ∧
      p.seq = q ∧ p.done = .never ∧ e.seq ∈ p'.dependants.toList
  /-- Only they have got the entry as a consumer. -/
  others : ∀ (i : Nat) (p p' : Entry), th.ring.toList[i]? = some p → th'.ring.toList[i]? = some p' →
    e.seq ∈ p'.dependants.toList → e.seq ∈ p.dependants.toList ∨ p.seq ∈ seqs
  /-- The times are those of producers that have issued. -/
  times : ∀ P : Time → Prop, P e.readyMax →
    (∀ p ∈ th.ring.toList, p.seq ∈ seqs → p.done ≠ .never → P p.done) → P e'.readyMax

namespace Watches

variable {seq i : Nat} {p p₁ : Entry}

/-- A producer whose result is known, or that is no longer in flight, is given up. -/
theorem drop {m : Time}
    (w : th.Watches lowest seqs
      { e with u := { e.u with producers := e.u.producers.erase seq }, readyMax := m } th' e')
    (le : e.readyMax ≤ m)
    (time : ∀ P : Time → Prop, P e.readyMax →
      (∀ p ∈ th.ring.toList, p.seq = seq → p.done ≠ .never → P p.done) → P m)
    (known : seq < lowest ∨
      ∃ (i : Nat) (p : Entry), th.ring.toList[i]? = some p ∧ p.seq = seq ∧ p.done ≤ e'.readyMax) :
    th.Watches lowest (seq :: seqs) e th' e' := by
  refine ⟨?_, w.thread, w.ring, le_trans le w.readyMax_le, ?_, ?_, ?_, ?_, ?_, ?_, ?_⟩
  · rw [w.frame]
  · intro q hq
    by_cases same : q = seq
    · rw [same]
      exact .inr known
    · exact w.keeps q ((List.mem_erase_of_ne same).mpr hq)
  · intro q hq
    exact List.mem_of_mem_erase (w.fewer q hq)
  · intro q hq hle
    rcases List.mem_cons.mp hq with rfl | hq
    · obtain ⟨i, p, entry, hseq, told⟩ := known.resolve_left (Nat.not_lt.mpr hle)
      exact ⟨i, p, entry, hseq, .inl told⟩
    · exact w.listed q hq hle
  · intro nodup
    exact w.nodup (nodup.erase seq)
  · intro nodup q hq kept
    rcases List.mem_cons.mp hq with rfl | hq
    · exact absurd (w.fewer _ kept) nodup.not_mem_erase
    · exact w.pending (nodup.erase seq) q hq kept
  · intro i p p' hp hp' listed
    exact (w.others i p p' hp hp' listed).imp_right (List.mem_cons_of_mem _)
  · intro P hm hp
    refine w.times P (time P hm fun p mem hseq => ?_) fun p mem hseq => ?_
    · exact hp p mem (hseq ▸ List.mem_cons_self)
    · exact hp p mem (List.mem_cons_of_mem _ hseq)

/-- A producer that is not done yet is told of its consumer. -/
theorem list (entry : th.ring.toList[i]? = some p) (hseq : p.seq = seq) (waiting : p.done = .never)
    (added : p.addDependant e.seq = .ok p₁) (w : (th.setEntry i p₁).Watches lowest seqs e th' e') :
    th.Watches lowest (seq :: seqs) e th' e' := by
  obtain ⟨grows, hlists⟩ := Entry.listed_addDependant added
  have related := w.ring
  rw [toList_setEntry] at related
  have changed : Pointwise (Entry.Listed e.seq) th.ring.toList (th.ring.toList.set i p₁) :=
    .set Entry.Listed.refl entry grows
  have self : (th.ring.toList.set i p₁)[i]? = some p₁ :=
    List.getElem?_set_self (List.getElem?_eq_some_iff.mp entry).1
  -- what is found in the ring afterwards was there before, with the same number and the same result
  have back : ∀ {j : Nat} {x : Entry}, (th.setEntry i p₁).ring.toList[j]? = some x →
      ∃ y, th.ring.toList[j]? = some y ∧ y.Listed e.seq x := by
    intro j x hx
    rw [toList_setEntry] at hx
    exact changed.right hx
  refine ⟨w.frame, ?_, changed.trans (fun _ _ _ => .trans) related, w.readyMax_le, ?_, w.fewer,
    ?_, w.nodup, ?_, ?_, ?_⟩
  · rw [w.thread]
    rfl
  · intro q hq
    rcases w.keeps q hq with hq | hq | ⟨j, x, hx, hxseq, hdone⟩
    · exact .inl hq
    · exact .inr (.inl hq)
    · obtain ⟨y, hy, grown⟩ := back hx
      rw [grown.seq_eq] at hxseq
      rw [grown.done_eq] at hdone
      exact .inr (.inr ⟨j, y, hy, hxseq, hdone⟩)
  · intro q hq hle
    rcases List.mem_cons.mp hq with rfl | hq
    · obtain ⟨p₂, hp₂, grown⟩ := related.left self
      exact ⟨i, p, entry, hseq, .inr ⟨p₂, hp₂, grown.keeps _ hlists⟩⟩
    · obtain ⟨j, x, hx, hxseq, hfate⟩ := w.listed q hq hle
      obtain ⟨y, hy, grown⟩ := back hx
      rw [grown.seq_eq] at hxseq
      rw [grown.done_eq] at hfate
      exact ⟨j, y, hy, hxseq, hfate⟩
  · intro nodup q hq kept
    rcases List.mem_cons.mp hq with rfl | hq
    · obtain ⟨p₂, hp₂, grown⟩ := related.left self
      exact ⟨i, p, p₂, entry, hp₂, hseq, waiting, grown.keeps _ hlists⟩
    · obtain ⟨j, x, x', hx, hx', hxseq, hdone, hlisted⟩ := w.pending nodup q hq kept
      obtain ⟨y, hy, grown⟩ := back hx
      rw [grown.seq_eq] at hxseq
      rw [grown.done_eq] at hdone
      exact ⟨j, y, x', hy, hx', hxseq, hdone, hlisted⟩
  · intro j x x' hx hx' hlisted
    obtain ⟨y, hy, grown⟩ := changed.left hx
    rcases w.others j y x' (by rw [toList_setEntry]; exact hy) hx' hlisted with old | rest
    · by_cases here : i = j
      · subst here
        rw [entry] at hx
        cases hx
        exact .inr (hseq ▸ List.mem_cons_self)
      · rw [List.getElem?_set_ne here, hx] at hy
        cases hy
        exact .inl old
    · rw [grown.seq_eq] at rest
      exact .inr (List.mem_cons_of_mem _ rest)
  · intro P hm hp
    refine w.times P hm fun x hx => ?_
    obtain ⟨j, hj⟩ := List.getElem?_of_mem hx
    obtain ⟨y, hy, grown⟩ := back hj
    rw [grown.done_eq, grown.seq_eq]
    exact fun hseq => hp y (List.mem_of_getElem? hy) (List.mem_cons_of_mem _ hseq)

end Watches

theorem watches_watch {nearest nearest' : Option Nat}
    (h : watch lowest seqs e nearest th = .ok (e', nearest') th') :
    th.Watches lowest seqs e th' e' := by
  induction seqs generalizing e nearest th with
  | nil =>
    obtain ⟨heq, rfl⟩ := pure_eq_ok.mp h
    cases heq
    refine ⟨rfl, rfl, .refl Entry.Listed.refl _, le_refl _, fun _ h => .inl h, fun _ h => h,
      fun _ h => (by cases h), id, fun _ _ h => (by cases h), fun i p p' hp hp' listed => ?_,
      fun _ h _ => h⟩
    rw [hp] at hp'
    cases hp'
    exact .inl listed
  | cons seq rest ih =>
    unfold watch at h
    split at h
    -- the producer has left the ring
    · rename_i stale
      have w := ih h
      exact w.drop (e := e) (m := e.readyMax) (le_refl _) (fun _ hm _ => hm) (.inl stale)
    · simp only [get_bind, bind_eq_ok, ofExcept_eq_ok] at h
      obtain ⟨⟨i, p⟩, _, ⟨located, rfl⟩, h⟩ := h
      obtain ⟨entry, hseq⟩ := locate_eq_ok located
      dsimp only at h
      split at h
      -- it has issued
      · have w := ih h
        have told : p.done ≤ e'.readyMax := le_trans (le_max_right _ _) w.readyMax_le
        have issued : p.done ≠ .never := by
          rename_i isDone
          exact Entry.isDone_iff.mp isDone
        exact w.drop (e := e) (m := max e.readyMax p.done) (le_max_left _ _)
          (fun P hm hp => max_rec' P hm (hp _ (List.mem_of_getElem? entry) hseq issued))
          (.inr ⟨i, p, entry, hseq, told⟩)
      -- it has not
      · have waiting : p.done = .never := by
          rename_i notDone
          exact Entry.isDone_eq_false_iff.mp (Bool.eq_false_iff.mpr notDone)
        simp only [bind_eq_ok, ofExcept_eq_ok, modify_bind] at h
        obtain ⟨p₁, _, ⟨added, rfl⟩, h⟩ := h
        exact (ih h).list entry hseq waiting added

/-- After `watch` has looked at all producers of an entry, each one in flight is heeded. -/
theorem Watches.heeds (w : th.Watches lowest e.u.producers.toList e th' e') {q : Nat}
    (hq : q ∈ e.u.producers.toList) (hle : lowest ≤ q) : th.Heeds th' e' q := by
  have hseq : e'.seq = e.seq := by
    rw [w.frame]
    rfl
  obtain ⟨i, p, hp, hpseq, done | lists⟩ := w.listed q hq hle
  · exact ⟨i, p, hp, hpseq, .inl done⟩
  · rcases w.keeps q hq with kept | stale | ⟨j, x, hx, hxseq, done⟩
    · rw [← hseq] at lists
      exact ⟨i, p, hp, hpseq, .inr ⟨kept, lists⟩⟩
    · omega
    · exact ⟨j, x, hx, hxseq, .inl done⟩

/-! ## Section 3: Linking -/

/-- The number of the oldest entry in flight when `e` enters the window. -/
def oldestSeq (th : Thread) (e : Entry) : Nat := th.frontSeq?.getD e.seq

/-- The producers that `e` looks for when it enters the window. -/
def sought (th : Thread) (e : Entry) : List Nat :=
  e.u.producers.toList ++ th.registers.sought (th.oldestSeq e) e.u.op ++
    th.stores.sought (th.oldestSeq e) e.u

/-- `e` looks for the producer `q` itself, or finds it listed by one that it looks for. -/
def Seeks (th : Thread) (e : Entry) (q : Nat) : Prop :=
  q ∈ th.sought e ∨ ∃ s ∈ th.sought e, ∃ (i : Nat) (p : Entry),
    th.ring.toList[i]? = some p ∧ p.seq = s ∧ q ∈ p.u.producers.toList

/-- `e'` and `th'` are what linking makes of the entry `e` and its thread. -/
structure Linked (forwarding : Bool) (th : Thread) (e : Entry) (th' : Thread) (e' : Entry) :
    Prop where
  /-- Only what concerns the producers has changed. -/
  entry : e' = { e with
    u := { e.u with producers := e'.u.producers }
    ready := e'.ready
    readyMax := e'.readyMax
    addressReady := e'.addressReady
    addressReadyMax := e'.addressReadyMax
    addressProducers := e'.addressProducers }
  /-- The entry is ready if it waits for no producer. -/
  ready : e'.ready = if e'.u.producers.isEmpty then e'.readyMax else e.ready
  /-- What was known of the producers is still known. -/
  readyMax_le : e.readyMax ≤ e'.readyMax
  /-- In the thread, the entries, the tables and the counters have changed. -/
  thread : th' = { th with
    ring := th'.ring
    registers := th.registers.note (th.oldestSeq e) e.u
    stores := th'.stores
    stats := th'.stats }
  /-- No commitment has been put on record. -/
  commitLog : th'.stats.commitLog = th.stats.commitLog
  /-- The stores in flight. -/
  stores : th'.stores.stores.toList = th.stores.storesAfter (th.oldestSeq e) e.u
  /-- The latest fence. -/
  fence : th'.stores.fence = th.stores.fenceAfter e.u
  /-- Entries have got a consumer. -/
  ring : Pointwise (Entry.Listed e.seq) th.ring.toList th'.ring.toList
  /-- Each producer in flight is heeded, or a load takes over what it waits for. -/
  heeds : ∀ q ∈ th.sought e, th.oldestSeq e ≤ q → th.Heeds th' e' q ∨
    (forwarding = true ∧ e.u.op.isLoad = true ∧
      th.Passes e' q fun q' => th.oldestSeq e ≤ q' → th.Heeds th' e' q')
  /-- No other producers are listed. -/
  fewer : ∀ q ∈ e'.u.producers.toList, th.Seeks e q
  /-- The address waits for writers on record. -/
  addresses : ∀ q ∈ e'.addressProducers.toList,
    q ∈ e.addressProducers.toList ∨ ∃ r, th.registers.live? r (th.oldestSeq e) = some q
  /-- No producer is listed more often than before. -/
  nodup : e.u.producers.toList.Nodup → e'.u.producers.toList.Nodup
  /-- The producers that are listed have not issued, and will wake the entry. -/
  pending : e.u.producers.toList.Nodup → ∀ q ∈ e'.u.producers.toList,
    ∃ (i : Nat) (p p' : Entry), th.ring.toList[i]? = some p ∧ th'.ring.toList[i]? = some p' ∧
      p.seq = q ∧ p.done = .never ∧ e.seq ∈ p'.dependants.toList
  /-- Only producers have got the entry as a consumer. -/
  others : ∀ (i : Nat) (p p' : Entry), th.ring.toList[i]? = some p → th'.ring.toList[i]? = some p' →
    e.seq ∈ p'.dependants.toList → e.seq ∈ p.dependants.toList ∨ th.Seeks e p.seq
  /-- The times are those of producers. -/
  times : ∀ P : Time → Prop, P e.readyMax →
    (∀ p ∈ th.ring.toList, th.Seeks e p.seq → (p.done ≠ .never → P p.done) ∧ P p.readyMax) →
    P e'.readyMax

namespace Linked

variable {forwarding : Bool} (h : Linked forwarding th e th' e')

include h

theorem op_eq : e'.u.op = e.u.op := by
  rw [h.entry]

theorem seq_eq : e'.seq = e.seq := by
  rw [h.entry]
  rfl

theorem dependants_eq : e'.dependants = e.dependants := by
  rw [h.entry]

theorem issued_eq : e'.issued = e.issued := by
  rw [h.entry]

theorem done_eq : e'.done = e.done := by
  rw [h.entry]

end Linked

/-- Counting a distance changes the counters of distances only. -/
theorem recordDistance_frame {distance : Nat} {s s' : ThreadStats}
    (h : ThreadStats.recordDistance distance s = .ok () s') :
    s' = { s with
      producerDistance := s'.producerDistance
      totalProducerDistance := s'.totalProducerDistance
      totalConsumers := s'.totalConsumers } := by
  unfold ThreadStats.recordDistance at h
  rw [modify_bind] at h
  split at h
  · simp only [get_bind, bind_eq_ok, ofExcept_eq_ok, modify_eq_ok] at h
    obtain ⟨_, _, ⟨-, rfl⟩, rfl⟩ := h
    rfl
  · obtain ⟨-, rfl⟩ := pure_eq_ok.mp h
    rfl

theorem commitLog_recordDistance {distance : Nat} {s s' : ThreadStats}
    (h : ThreadStats.recordDistance distance s = .ok () s') : s'.commitLog = s.commitLog := by
  rw [recordDistance_frame h]

theorem cpi_recordDistance {distance : Nat} {s s' : ThreadStats}
    (h : ThreadStats.recordDistance distance s = .ok () s') : s'.cpi = s.cpi := by
  rw [recordDistance_frame h]

theorem addressed_eq {lowest : Nat} {e e' : Entry}
    (h : (if e.u.op.isStore then th.linkAddress lowest e else .ok e) = .ok e') :
    e' = { e with
      addressReady := e'.addressReady
      addressReadyMax := e'.addressReadyMax
      addressProducers := e'.addressProducers } := by
  split at h
  · exact linkAddress_eq_ok h
  · cases h
    rfl

/-- Before anything is taken over or given up, the tables add the producers that they name. -/
theorem awaits_tables {e₁ : Entry} {u₁ u₂ : OpInstance} {stores : StoreTable} (u_eq : e₁.u = e.u)
    (awaited : th.registers.await (th.oldestSeq e) e₁.u = .ok u₁)
    (stored : th.stores.link u₁ (th.oldestSeq e) = .ok (u₂, stores)) :
    e.u.Awaits (th.registers.sought (th.oldestSeq e) e.u.op ++ th.stores.sought (th.oldestSeq e) e.u) u₂ := by
  have fromRegisters := RegisterTable.awaits_await awaited
  obtain ⟨fromStores, -, -⟩ := StoreTable.link_eq_ok stored
  have sameStores : th.stores.sought (th.oldestSeq e) u₁ = th.stores.sought (th.oldestSeq e) e.u := by
    rw [fromRegisters.frame, u_eq]
    rfl
  have added := fromRegisters.append fromStores
  rwa [u_eq, sameStores] at added

theorem mem_sought_iff {u : OpInstance} {q : Nat}
    (added : e.u.Awaits (th.registers.sought (th.oldestSeq e) e.u.op ++ th.stores.sought (th.oldestSeq e) e.u) u) :
    q ∈ u.producers.toList ↔ q ∈ th.sought e := by
  simp only [added.mem_iff, sought, List.append_assoc, List.mem_append]

/-- Whether or not a load looks for the stores that it waits for. -/
theorem forwards_of_ite {on : Bool}
    (h : (if on then th.forward lowest e e.u.producers.toList else .ok e) = .ok e') :
    th.Forwards e.u.producers.toList e e' := by
  split at h
  · exact forwards_forward h
  · cases h
    exact .refl _ _ _

/-- What is taken over comes from producers that are looked for. -/
theorem Forwards.seeks {x x' : Entry} {q : Nat} (h : th.Forwards x.u.producers.toList x x')
    (added : e.u.Awaits
      (th.registers.sought (th.oldestSeq e) e.u.op ++ th.stores.sought (th.oldestSeq e) e.u) x.u)
    (mem : q ∈ x'.u.producers.toList) : th.Seeks e q := by
  rcases h.fewer q mem with own | ⟨s, listed, found⟩
  · exact .inl ((mem_sought_iff added).mp own)
  · exact .inr ⟨s, (mem_sought_iff added).mp listed, found⟩

theorem Passes.imp {q : Nat} {reaches reaches' : Nat → Prop} (h : th.Passes e q reaches)
    (hmax : e.readyMax ≤ e'.readyMax) (himp : ∀ q', reaches q' → reaches' q') :
    th.Passes e' q reaches' := by
  obtain ⟨i, p, hp, hseq, isStore, hready, all⟩ := h
  exact ⟨i, p, hp, hseq, isStore, le_trans hready hmax, fun q' hq' => himp q' (all q' hq')⟩

/-- The stages in which `e` is linked.  The tables add the producers that they name, which makes it `e₁`.
A load gives up stores for what these wait for, which makes it `e₂`.  Last it is listed with the producers
that are left, which makes it `e₃`. -/
structure Stages (forwarding : Bool) (th : Thread) (e e₁ e₂ : Entry) (table : StoreTable) (th' : Thread)
    (e₃ : Entry) : Prop where
  /-- At first only what concerns the address and the producers changes. -/
  frame : e₁ = { e with
    u := e₁.u
    addressReady := e₁.addressReady
    addressReadyMax := e₁.addressReadyMax
    addressProducers := e₁.addressProducers }
  /-- The address waits for writers on record. -/
  addresses : ∀ q ∈ e₁.addressProducers.toList,
    q ∈ e.addressProducers.toList ∨ ∃ r, th.registers.live? r (th.oldestSeq e) = some q
  /-- The tables add the producers that they name. -/
  added : e.u.Awaits
    (th.registers.sought (th.oldestSeq e) e.u.op ++ th.stores.sought (th.oldestSeq e) e.u) e₁.u
  /-- The stores in flight. -/
  stores : table.stores.toList = th.stores.storesAfter (th.oldestSeq e) e.u
  /-- The latest fence. -/
  fence : table.fence = th.stores.fenceAfter e.u
  /-- Producers may be given up for what they wait for themselves. -/
  forwards : th.Forwards e₁.u.producers.toList e₁ e₂
  /-- Only loads do so, if they do at all. -/
  onlyLoads : (forwarding = true ∧ e.u.op.isLoad = true) ∨ e₂ = e₁
  /-- The producers that are left are told. -/
  watches : { th with registers := th.registers.note (th.oldestSeq e) e.u, stores := table }.Watches
    (th.oldestSeq e) e₂.u.producers.toList e₂ th' e₃

theorem stages_of_link {forwarding : Bool} (h : link forwarding e th = .ok e' th') :
    ∃ (e₁ e₂ e₃ : Entry) (table : StoreTable) (th₃ : Thread) (distance : Nat) (stats : ThreadStats),
      Stages forwarding th e e₁ e₂ table th₃ e₃ ∧
        ThreadStats.recordDistance distance th₃.stats = .ok () stats ∧ e₃.settle = e' ∧
        { th₃ with stats } = th' := by
  unfold link at h
  simp only [get_bind, bind_eq_ok, ofExcept_eq_ok, modify_bind, zoom_eq_ok, pure_eq_ok] at h
  obtain ⟨e₁, _, ⟨addressed, rfl⟩, u₁, _, ⟨awaited, rfl⟩, ⟨u₂, table⟩, _, ⟨stored, rfl⟩, e₃, _,
    ⟨forwarded, rfl⟩, ⟨e₄, nearest⟩, th₄, watched, ⟨⟩, _, ⟨stats, counted, rfl⟩, rfl, rfl⟩ := h
  dsimp only at forwarded watched counted
  -- the addresses come first and leave the micro-op alone, so that the tables are asked about that of `e`
  have address := addressed_eq addressed
  have u_eq : e₁.u = e.u := by rw [address]
  have fromRegisters := RegisterTable.awaits_await awaited
  obtain ⟨-, storesAfter, fence⟩ := StoreTable.link_eq_ok stored
  have added := awaits_tables u_eq awaited stored
  have note : ∀ t : RegisterTable, t.note (th.oldestSeq e) u₂ = t.note (th.oldestSeq e) e.u := by
    intro t
    rw [added.frame]
    rfl
  refine ⟨{ e₁ with u := u₂ }, e₃, e₄, table, th₄, nearest.getD 0, stats,
    { frame := ?_, addresses := ?_, added, stores := ?_, fence := ?_
      forwards := forwards_of_ite (e := { e₁ with u := u₂ }) forwarded, onlyLoads := ?_, watches := ?_ },
    counted, rfl, rfl⟩
  · rw [address]
  · intro q hq
    split at addressed
    · exact mem_addressProducers_linkAddress addressed hq
    · cases addressed
      exact .inl hq
  · rw [StoreTable.storesAfter, fromRegisters.op_eq, fromRegisters.seq_eq, fromRegisters.address_eq,
      u_eq] at storesAfter
    exact storesAfter
  · rw [StoreTable.fenceAfter, fromRegisters.op_eq, fromRegisters.seq_eq, u_eq] at fence
    exact fence
  · split at forwarded
    · rename_i both
      rw [added.op_eq] at both
      exact .inl (Bool.and_eq_true_iff.mp both)
    · cases forwarded
      exact .inr rfl
  · rw [← note]
    exact watches_watch watched

namespace Stages

variable {forwarding : Bool} {e₁ e₂ e₃ : Entry} {table : StoreTable} {q : Nat}
  (h : Stages forwarding th e e₁ e₂ table th' e₃)

include h

theorem seq_eq : e₂.seq = e.seq := by
  rw [h.forwards.frame]
  show e₁.u.seq = e.u.seq
  rw [h.added.seq_eq]

theorem mem_iff : q ∈ e₁.u.producers.toList ↔ q ∈ th.sought e := mem_sought_iff h.added

theorem seeks (mem : q ∈ e₂.u.producers.toList) : th.Seeks e q := h.forwards.seeks h.added mem

theorem heeds (mem : q ∈ th.sought e) (alive : th.oldestSeq e ≤ q) : th.Heeds th' e₃ q ∨
    (forwarding = true ∧ e.u.op.isLoad = true ∧
      th.Passes e₃ q fun q' => th.oldestSeq e ≤ q' → th.Heeds th' e₃ q') := by
  have heeded : ∀ q ∈ e₂.u.producers.toList, th.oldestSeq e ≤ q → th.Heeds th' e₃ q :=
    fun q kept alive => h.watches.heeds kept alive
  rcases h.onlyLoads with ⟨on, load⟩ | same
  · rcases h.forwards.keeps q (h.mem_iff.mpr mem) with kept | passes
    · exact .inl (heeded q kept alive)
    · exact .inr ⟨on, load, passes.imp h.watches.readyMax_le heeded⟩
  · refine .inl (heeded q ?_ alive)
    rw [same]
    exact h.mem_iff.mpr mem

/-- What holds of the times of producers holds of the time that the entry has been told. -/
theorem times (P : Time → Prop) (before : P e.readyMax)
    (all : ∀ p ∈ th.ring.toList, th.Seeks e p.seq → (p.done ≠ .never → P p.done) ∧ P p.readyMax) :
    P e₃.readyMax := by
  refine h.watches.times P (h.forwards.times P ?_ fun p mem named => ?_) fun p mem left => ?_
  · rw [h.frame]
    exact before
  · exact (all p mem (.inl (h.mem_iff.mp named))).2
  · exact (all p mem (h.seeks left)).1

theorem linked {distance : Nat} {stats : ThreadStats}
    (counted : ThreadStats.recordDistance distance th'.stats = .ok () stats) :
    Linked forwarding th e { th' with stats } e₃.settle := by
  have settled : e₃.settle = { e₃ with
      ready := if e₃.u.producers.isEmpty then e₃.readyMax else e₃.ready } := by
    unfold Entry.settle
    split <;> rfl
  have watches := h.watches
  have seq := h.seq_eq
  rw [settled]
  refine
    { entry := ?_, ready := ?_, readyMax_le := ?_, thread := ?_, commitLog := ?_, stores := ?_,
      fence := ?_, ring := ?_, heeds := fun q => h.heeds, fewer := fun q mem => h.seeks (watches.fewer q mem),
      addresses := ?_, nodup := ?_, pending := ?_, others := ?_, times := h.times }
  · rw [watches.frame, h.forwards.frame, h.added.frame, h.frame]
  · rw [watches.frame, h.forwards.frame, h.frame]
  · have told := le_trans h.forwards.readyMax_le watches.readyMax_le
    rw [h.frame] at told
    exact told
  · rw [watches.thread]
  · rw [commitLog_recordDistance counted, watches.thread]
  · rw [watches.thread]
    exact h.stores
  · rw [watches.thread]
    exact h.fence
  · rw [← seq]
    exact watches.ring
  · intro q mem
    rw [watches.frame, h.forwards.frame] at mem
    exact h.addresses q mem
  · intro nodup
    exact watches.nodup (h.forwards.nodup (h.added.nodup nodup))
  · intro nodup q mem
    rw [← seq]
    exact watches.pending (h.forwards.nodup (h.added.nodup nodup)) q (watches.fewer q mem) mem
  · intro i p p' hp hp' listed
    rw [← seq] at listed ⊢
    exact (watches.others i p p' hp hp' listed).imp_right h.seeks

end Stages

theorem linked_link {forwarding : Bool} (h : link forwarding e th = .ok e' th') :
    Linked forwarding th e th' e' := by
  obtain ⟨e₁, e₂, e₃, table, th₃, distance, stats, stages, counted, rfl, rfl⟩ := stages_of_link h
  exact stages.linked counted

end Thread

end CoreTiming
