import CoreTiming.Proofs.Outcome
import CoreTiming.Proofs.Pointwise
import CoreTiming.Proofs.TimeOrder
import Mathlib.Data.List.Basic

/-!
# Waking consumers

An entry that issues tells its consumers when its result is available.  `Entry.Woken` says what
this may do to an entry; the lemmas on `wake`, `wakeAll` and `start` say that nothing else happens
to the ring, and that every listed consumer learns the time.
-/

namespace CoreTiming

open Faulting

/-! ## Section 1: Reading and changing entries by position -/

namespace Thread

theorem locate_eq_ok {th : Thread} {seq i : Nat} {e : Entry} (h : th.locate seq = .ok (i, e)) :
    th.ring.toList[i]? = some e ∧ e.seq = seq := by
  simp only [locate] at h
  split at h
  · cases h
  · split at h
    · split at h
      · cases h
        rw [Ring.getElem?_toList]
        exact ⟨‹_›, ‹_›⟩
      · cases h
    · cases h

@[simp] theorem toList_setEntry (th : Thread) (i : Nat) (e : Entry) :
    (th.setEntry i e).ring.toList = th.ring.toList.set i e := by
  unfold setEntry
  rw [Ring.toList_modify, List.set_eq_modify]

end Thread

/-! ## Section 2: What a wake-up does to an entry -/

namespace Entry

theorem isDone_iff {e : Entry} : e.isDone = true ↔ e.done ≠ .never := by
  simp [isDone, Time.isNever_eq_false_iff]

theorem isDone_eq_false_iff {e : Entry} : e.isDone = false ↔ e.done = .never := by
  simp [isDone, Time.isNever_iff]

/-- The entry cannot issue before it has seen the last of its producers. -/
structure Timely (e : Entry) : Prop where
  /-- It waits for the results that it has been told of. -/
  readyMax_le : e.readyMax ≤ e.ready
  /-- While it still lists a producer it cannot issue at all. -/
  ready_eq : e.u.producers.toList ≠ [] → e.ready = .never

/-- `e'` is `e` after it may have been told that producer `seq` is done at `done`. -/
structure Woken (seq : Nat) (done : Time) (e e' : Entry) : Prop where
  /-- Only what concerns the producers has changed. -/
  frame : e' = { e with
    u := { e.u with producers := e'.u.producers }
    ready := e'.ready
    readyMax := e'.readyMax
    addressReady := e'.addressReady
    addressReadyMax := e'.addressReadyMax }
  /-- What was known of the producers is still known. -/
  readyMax_le : e.readyMax ≤ e'.readyMax
  /-- No other producer is forgotten. -/
  keeps : ∀ q ∈ e.u.producers.toList, q ≠ seq → q ∈ e'.u.producers.toList
  /-- No producer is added. -/
  fewer : ∀ q ∈ e'.u.producers.toList, q ∈ e.u.producers.toList
  /-- The entry is still held back by its producers. -/
  timely : e.Timely → e'.Timely
  /-- It has been told of this time only. -/
  readyMax_eq : e'.readyMax = e.readyMax ∨ e'.readyMax = max e.readyMax done
  /-- No producer is listed more often than before. -/
  nodup : e.u.producers.toList.Nodup → e'.u.producers.toList.Nodup
  /-- Once the last producer is forgotten, nothing but the results of producers is waited for. -/
  prompt : e'.u.producers.toList = [] →
    (e.u.producers.toList = [] ∧ e'.ready = e.ready) ∨ e'.ready ≤ e'.readyMax
  /-- The times are the old ones or the one it has been told. -/
  times : ∀ P : Time → Prop, P done → P e.readyMax → P e.ready → P e'.readyMax ∧ P e'.ready

/-- `e'` is `e` after it has been told that producer `seq` is done at `done`. -/
structure Heard (seq : Nat) (done : Time) (e e' : Entry) : Prop where
  /-- It knows the time. -/
  told : done ≤ e'.readyMax
  /-- It waits for the producer no longer. -/
  freed : e.u.producers.toList.Nodup → seq ∉ e'.u.producers.toList

namespace Woken

variable {seq : Nat} {done : Time} {e e' e'' : Entry}

theorem refl (e : Entry) : Woken seq done e e :=
  ⟨rfl, le_refl _, fun _ h _ => h, fun _ h => h, id, .inl rfl, id, fun none => .inl ⟨none, rfl⟩,
    fun _ _ hm hr => ⟨hm, hr⟩⟩

theorem trans (h : Woken seq done e e') (h' : Woken seq done e' e'') : Woken seq done e e'' where
  frame := by
    rw [h'.frame, h.frame]
  readyMax_le := le_trans h.readyMax_le h'.readyMax_le
  keeps q hq hne := h'.keeps q (h.keeps q hq hne) hne
  fewer q hq := h.fewer q (h'.fewer q hq)
  timely ht := h'.timely (h.timely ht)
  readyMax_eq := by
    rcases h.readyMax_eq with same | told
    · rw [← same]
      exact h'.readyMax_eq
    · rcases h'.readyMax_eq with same' | told'
      · exact .inr (same'.trans told)
      · rw [told', told, max_assoc, max_self]
        exact .inr rfl
  nodup hn := h'.nodup (h.nodup hn)
  prompt none := by
    rcases h'.prompt none with ⟨none', same⟩ | le
    · rcases h.prompt none' with ⟨none'', same'⟩ | le
      · exact .inl ⟨none'', same.trans same'⟩
      · rw [same]
        exact .inr (le_trans le h'.readyMax_le)
    · exact .inr le
  times P hd hm hr := h'.times P hd (h.times P hd hm hr).1 (h.times P hd hm hr).2

theorem seq_eq (h : Woken seq done e e') : e'.seq = e.seq := by
  rw [h.frame]
  rfl

end Woken

/-- The step that a wake-up makes before it looks at the address. -/
theorem woken_settle (seq : Nat) (done : Time) (e : Entry) :
    Woken seq done e ((e.observe done).dropProducer seq).settle := by
  unfold settle
  split
  · rename_i empty
    refine ⟨rfl, le_max_left _ _, fun q hq hne => ?_, fun q hq => List.mem_of_mem_erase hq,
      fun _ => ⟨le_refl _, ?_⟩, .inr rfl, fun nodup => nodup.erase seq, fun _ => .inr (le_refl _),
      fun P hd hm _ => ?_⟩
    · exact (List.mem_erase_of_ne hne).mpr hq
    · intro some
      exact absurd (List.isEmpty_iff.mp empty) some
    · have : P (max e.readyMax done) := max_rec' P hm hd
      exact ⟨this, this⟩
  · rename_i some
    refine ⟨rfl, le_max_left _ _, fun q hq hne => ?_, fun q hq => List.mem_of_mem_erase hq,
      fun timely => ?_, .inr rfl, fun nodup => nodup.erase seq, fun none => ?_, fun P hd hm hr => ⟨?_, hr⟩⟩
    · exact (List.mem_erase_of_ne hne).mpr hq
    · have waits : e.ready = .never := by
        apply timely.ready_eq
        intro none
        apply some
        show (e.u.producers.toList.erase seq).isEmpty = true
        rw [none]
        rfl
      refine ⟨?_, fun _ => waits⟩
      show max e.readyMax done ≤ e.ready
      rw [waits]
      exact Time.le_never _
    · exact absurd (List.isEmpty_iff.mpr none) some
    · exact max_rec' P hm hd

theorem Woken.of_address {seq : Nat} {done : Time} {e e' : Entry} (h : Woken seq done e e')
    (ready readyMax : Time) :
    Woken seq done e { e' with addressReady := ready, addressReadyMax := readyMax } :=
  ⟨by rw [h.frame], h.readyMax_le, h.keeps, h.fewer,
    fun timely => ⟨(h.timely timely).readyMax_le, (h.timely timely).ready_eq⟩, h.readyMax_eq, h.nodup, h.prompt,
    h.times⟩

/-- The step that a wake-up makes before it looks at the address tells the entry what it has to know. -/
theorem heard_settle (seq : Nat) (done : Time) (e : Entry) :
    Heard seq done e ((e.observe done).dropProducer seq).settle := by
  have same : ((e.observe done).dropProducer seq).settle.readyMax = max e.readyMax done ∧
      ((e.observe done).dropProducer seq).settle.u.producers = e.u.producers.erase seq := by
    unfold settle
    split
    · exact ⟨rfl, rfl⟩
    · exact ⟨rfl, rfl⟩
  refine ⟨?_, fun nodup => ?_⟩
  · rw [same.1]
    exact le_max_right _ _
  · rw [same.2]
    exact nodup.not_mem_erase

end Entry

/-! ## Section 3: Waking one consumer, and all of them -/

namespace Thread

variable {th th' : Thread} {front seq consumer : Nat} {done : Time}

theorem observeAddress_eq_ok {e e' : Entry} {producers : List Nat} {latest : Time} {resolved : Bool}
    (h : th.observeAddress front seq done e producers latest resolved = .ok e') :
    e' = { e with addressReady := e'.addressReady, addressReadyMax := e'.addressReadyMax } := by
  induction producers generalizing latest resolved with
  | nil =>
    cases h
    rfl
  | cons producer rest ih =>
    unfold observeAddress at h
    split at h
    · exact ih h
    · obtain ⟨_, -, h⟩ := Except.bind_eq_ok.mp h
      exact ih h

theorem wake_eq_ok (h : wake front seq done consumer th = .ok () th') :
    ∃ (i : Nat) (e e' : Entry), th.ring.toList[i]? = some e ∧ e.seq = consumer ∧ e.Woken seq done e' ∧
      e.Heard seq done e' ∧ th' = th.setEntry i e' := by
  unfold wake at h
  simp only [get_bind, bind_eq_ok, ofExcept_eq_ok, modify_eq_ok] at h
  obtain ⟨⟨i, e⟩, _, ⟨located, rfl⟩, e', _, ⟨observed, rfl⟩, rfl⟩ := h
  obtain ⟨entry, hseq⟩ := locate_eq_ok located
  have woken := Entry.woken_settle seq done e
  have heard := Entry.heard_settle seq done e
  split at observed
  · have frame := observeAddress_eq_ok observed
    refine ⟨i, e, e', entry, hseq, ?_, ?_, rfl⟩
    · rw [frame]
      exact woken.of_address _ _
    · rw [frame]
      exact ⟨heard.told, heard.freed⟩
  · cases observed
    exact ⟨i, e, _, entry, hseq, woken, heard, rfl⟩

theorem wakeAll_eq_ok {consumers : List Nat} (h : wakeAll front seq done consumers th = .ok () th') :
    th' = { th with ring := th'.ring } ∧
    Pointwise (Entry.Woken seq done) th.ring.toList th'.ring.toList ∧
    (∀ (i : Nat) (x : Entry), th.ring.toList[i]? = some x → x.seq ∉ consumers → th'.ring.toList[i]? = some x) ∧
    ∀ consumer ∈ consumers, ∃ (i : Nat) (e e' : Entry), th.ring.toList[i]? = some e ∧
      th'.ring.toList[i]? = some e' ∧ e.seq = consumer ∧ e.Heard seq done e' := by
  induction consumers generalizing th with
  | nil =>
    obtain ⟨-, rfl⟩ := pure_eq_ok.mp h
    refine ⟨rfl, .refl Entry.Woken.refl _, fun _ _ hx _ => hx, ?_⟩
    intro _ hmem
    cases hmem
  | cons first rest ih =>
    obtain ⟨⟨⟩, th₁, hfirst, hrest⟩ := bind_eq_ok.mp h
    obtain ⟨i, e, e', entry, hseq, woken, hears, rfl⟩ := wake_eq_ok hfirst
    obtain ⟨frame, related, others, heard⟩ := ih hrest
    rw [toList_setEntry] at related others heard
    have changed : Pointwise (Entry.Woken seq done) th.ring.toList (th.ring.toList.set i e') :=
      .set Entry.Woken.refl entry woken
    -- whom the first wake-up has reached stays so, since the later ones only ever tell more
    refine ⟨?_, changed.trans (fun _ _ _ => .trans) related, ?_, ?_⟩
    · rw [frame]
      rfl
    · intro j x hx hout
      rw [List.mem_cons, not_or] at hout
      refine others j x ?_ hout.2
      have : i ≠ j := by
        rintro rfl
        rw [entry] at hx
        cases hx
        exact hout.1 hseq
      rw [List.getElem?_set_ne this]
      exact hx
    · intro consumer hmem
      rcases List.mem_cons.mp hmem with rfl | hmem
      · have self : (th.ring.toList.set i e')[i]? = some e' :=
          List.getElem?_set_self (List.getElem?_eq_some_iff.mp entry).1
        obtain ⟨e'', hat, woken'⟩ := related.left self
        exact ⟨i, e, e'', entry, hat, hseq, le_trans hears.told woken'.readyMax_le,
          fun nodup listed => hears.freed nodup (woken'.fewer _ listed)⟩
      · obtain ⟨j, x, x', hx, hx', same, hears'⟩ := heard consumer hmem
        obtain ⟨y, hy, woken'⟩ := changed.right hx
        exact ⟨j, y, x', hy, hx', woken'.seq_eq.symm.trans same, hears'.told,
          fun nodup => hears'.freed (woken'.nodup nodup)⟩

/-- The ring right after entry `i`, which is `e`, has issued, with its consumers still asleep. -/
def issuedAt (th : Thread) (i : Nat) (e : Entry) (now done : Time) : List Entry :=
  th.ring.toList.set i { e with issued := now, done }

/-- Counting an access changes the counters of loads and stores only. -/
theorem countAccess_frame (op : MicroOp) (latency : Time) (c : ThreadStats) :
    countAccess op latency c = { c with
      loadsCount := (countAccess op latency c).loadsCount
      loadsLatency := (countAccess op latency c).loadsLatency
      storesCount := (countAccess op latency c).storesCount
      storesLatency := (countAccess op latency c).storesLatency } := by
  unfold countAccess
  split
  · rfl
  · split
    · rfl
    · rfl

theorem cpi_countAccess (op : MicroOp) (latency : Time) (c : ThreadStats) :
    (countAccess op latency c).cpi = c.cpi := by
  rw [countAccess_frame]

theorem start_eq_ok {i : Nat} {e : Entry} {now latency : Time}
    (h : start i e now done latency th = .ok () th') :
    th' = { th with ring := th'.ring, stats := th'.stats } ∧
    th'.stats.commitLog = th.stats.commitLog ∧
    Pointwise (Entry.Woken e.seq done) (th.issuedAt i e now done) th'.ring.toList ∧
    (∀ (j : Nat) (x : Entry), (th.issuedAt i e now done)[j]? = some x → x.seq ∉ e.dependants.toList →
      th'.ring.toList[j]? = some x) ∧
    ∀ consumer ∈ e.dependants.toList, ∃ (j : Nat) (x x' : Entry),
      (th.issuedAt i e now done)[j]? = some x ∧ th'.ring.toList[j]? = some x' ∧ x.seq = consumer ∧
        x.Heard e.seq done x' := by
  unfold start at h
  simp only [get_bind, modify_bind] at h
  obtain ⟨frame, related, others, heard⟩ := wakeAll_eq_ok h
  refine ⟨?_, ?_, ?_, ?_, ?_⟩
  · rw [frame]
    rfl
  · rw [frame]
    show (countAccess e.u.op latency th.stats).commitLog = _
    rw [countAccess_frame]
  · simpa [issuedAt] using related
  · simpa [issuedAt] using others
  · simpa [issuedAt] using heard

/-- An entry that starts is counted. -/
theorem stats_start {i : Nat} {e : Entry} {now latency : Time}
    (h : start i e now done latency th = .ok () th') : th'.stats = countAccess e.u.op latency th.stats := by
  unfold start at h
  simp only [get_bind, modify_bind] at h
  rw [(wakeAll_eq_ok h).1]

end Thread

end CoreTiming
