import CoreTiming.Proofs.Linking

/-!
# When the address of a store is known

A store waits for the writers of its address registers apart from its other producers.  When it enters the
window it looks each of them up: `Thread.Surveys` says what it takes down.  Later any of its producers wakes it,
and each time it looks up again those writers that it has taken down: `Entry.Reviews` says what follows.  Once
none of them is pending, the address is known at the latest of the times on record.
-/

namespace CoreTiming

open Faulting

/-! ## Section 1: Producers among entries -/

/-- Among the entries `es`, number `q` has a result. -/
def Delivered (es : List Entry) (q : Nat) : Prop := ∃ p ∈ es, p.seq = q ∧ p.done ≠ .never

/-- Among the entries `es`, number `q` has no result yet. -/
def Pending (es : List Entry) (q : Nat) : Prop := ∃ p ∈ es, p.seq = q ∧ p.done = .never

section

variable {es es' : List Entry} {q seq : Nat} {done : Time}

/-- Being woken gives no entry a result. -/
theorem Delivered.of_woken (woken : Pointwise (Entry.Woken seq done) es es') (h : Delivered es q) :
    Delivered es' q := by
  obtain ⟨p, mem, number, result⟩ := h
  obtain ⟨i, hi⟩ := List.getElem?_of_mem mem
  obtain ⟨p', hi', same⟩ := woken.left hi
  refine ⟨p', List.mem_of_getElem? hi', same.seq_eq.trans number, ?_⟩
  rw [same.frame]
  exact result

theorem Pending.of_woken (woken : Pointwise (Entry.Woken seq done) es es') (h : Pending es q) :
    Pending es' q := by
  obtain ⟨p, mem, number, result⟩ := h
  obtain ⟨i, hi⟩ := List.getElem?_of_mem mem
  obtain ⟨p', hi', same⟩ := woken.left hi
  refine ⟨p', List.mem_of_getElem? hi', same.seq_eq.trans number, ?_⟩
  rw [same.frame]
  exact result

end

namespace Thread

variable {th th' : Thread} {lowest front seq consumer : Nat} {e e' x x' : Entry} {done : Time}

/-! ## Section 2: Entering the window -/

/-- The writers on record of the registers that form an address. -/
def addressSought (th : Thread) (lowest : Nat) (op : MicroOp) : List Nat :=
  op.addressRegisters.filterMap fun r => th.registers.live? r lowest

/-- `e'` is `e` after it has looked up the writers `qs`. -/
structure Surveys (th : Thread) (qs : List Nat) (e e' : Entry) : Prop where
  /-- What was known is still known. -/
  le : e.addressReadyMax ≤ e'.addressReadyMax
  /-- What was waited for is still waited for. -/
  keeps : ∀ q ∈ e.addressProducers.toList, q ∈ e'.addressProducers.toList
  /-- Each of the writers is there; its result is known, or it is waited for. -/
  found : ∀ q ∈ qs, ∃ p ∈ th.ring.toList, p.seq = q ∧
    (p.done ≠ .never ∧ p.done ≤ e'.addressReadyMax ∨ p.done = .never ∧ q ∈ e'.addressProducers.toList)
  /-- Only writers without a result are waited for in addition. -/
  fewer : ∀ q ∈ e'.addressProducers.toList,
    q ∈ e.addressProducers.toList ∨ q ∈ qs ∧ Pending th.ring.toList q
  /-- The latest time is that of one of them, if it is new. -/
  latest : e'.addressReadyMax = e.addressReadyMax ∨
    ∃ p ∈ th.ring.toList, p.seq ∈ qs ∧ p.done ≠ .never ∧ e'.addressReadyMax = p.done

namespace Surveys

variable {e'' : Entry} {qs rs : List Nat}

theorem refl (th : Thread) (e : Entry) : th.Surveys [] e e :=
  ⟨le_refl _, fun _ h => h, fun _ h => (by cases h), fun _ h => .inl h, .inl rfl⟩

theorem append (h : th.Surveys qs e e') (h' : th.Surveys rs e' e'') : th.Surveys (qs ++ rs) e e'' := by
  refine ⟨le_trans h.le h'.le, fun q hq => h'.keeps q (h.keeps q hq), fun q hq => ?_, fun q hq => ?_, ?_⟩
  · rcases List.mem_append.mp hq with first | second
    · obtain ⟨p, mem, number, known | waits⟩ := h.found q first
      · exact ⟨p, mem, number, .inl ⟨known.1, le_trans known.2 h'.le⟩⟩
      · exact ⟨p, mem, number, .inr ⟨waits.1, h'.keeps q waits.2⟩⟩
    · exact h'.found q second
  · rcases h'.fewer q hq with old | ⟨mem, pending⟩
    · exact (h.fewer q old).imp_right fun ⟨mem, pending⟩ => ⟨List.mem_append_left _ mem, pending⟩
    · exact .inr ⟨List.mem_append_right _ mem, pending⟩
  · rcases h'.latest with same | ⟨p, mem, sought, result, new⟩
    · rw [same]
      exact h.latest.imp_right fun ⟨p, mem, sought, rest⟩ => ⟨p, mem, List.mem_append_left _ sought, rest⟩
    · exact .inr ⟨p, mem, List.mem_append_right _ sought, result, new⟩

end Surveys

/-- One register is looked up. -/
theorem surveys_awaitAddress {r : Register} (h : th.awaitAddress lowest e r = .ok e') :
    th.Surveys (th.registers.live? r lowest).toList e e' ∧ e'.addressReady = e.addressReady := by
  cases addressStep_of_awaitAddress h with
  | free none =>
    rw [none]
    exact ⟨.refl th e, rfl⟩
  | @known q i p live located isDone =>
    obtain ⟨entry, number⟩ := locate_eq_ok located
    have mem := List.mem_of_getElem? entry
    have result := Entry.isDone_iff.mp isDone
    rw [live]
    refine ⟨⟨le_max_left _ _, fun _ hq => hq, fun q' hq' => ?_, fun _ hq => .inl hq, ?_⟩, rfl⟩
    · obtain rfl : q' = q := by simpa using hq'
      exact ⟨p, mem, number, .inl ⟨result, le_max_right _ _⟩⟩
    · rcases max_choice e.addressReadyMax p.done with old | new
      · exact .inl old
      · exact .inr ⟨p, mem, by simp [number], result, new⟩
  | @awaited q i p producers live located notDone list =>
    obtain ⟨entry, number⟩ := locate_eq_ok located
    have mem := List.mem_of_getElem? entry
    have waits := Entry.isDone_eq_false_iff.mp notDone
    have listed : ∀ q', q' ∈ producers.toList ↔ q' ∈ e.addressProducers.toList ∨ q' = q := by
      intro q'
      rw [list, List.mem_append, List.mem_singleton]
    rw [live]
    refine ⟨⟨le_refl _, fun q' hq' => (listed q').mpr (.inl hq'), fun q' hq' => ?_, fun q' hq' => ?_, .inl rfl⟩, rfl⟩
    · obtain rfl : q' = q := by simpa using hq'
      exact ⟨p, mem, number, .inr ⟨waits, (listed q').mpr (.inr rfl)⟩⟩
    · rcases (listed q').mp hq' with old | new
      · exact .inl old
      · exact .inr ⟨by simp [new], p, mem, number.trans new.symm, waits⟩

theorem surveys_foldlM {rs : List Register} (h : rs.foldlM (th.awaitAddress lowest) e = .ok e') :
    th.Surveys (rs.filterMap fun r => th.registers.live? r lowest) e e' ∧ e'.addressReady = e.addressReady := by
  induction rs generalizing e with
  | nil =>
    cases h
    exact ⟨.refl th _, rfl⟩
  | cons r rest ih =>
    obtain ⟨x, first, h⟩ := Except.bind_eq_ok.mp h
    obtain ⟨first, same⟩ := surveys_awaitAddress first
    obtain ⟨second, same'⟩ := ih h
    have both := first.append second
    refine ⟨?_, same'.trans same⟩
    cases live : th.registers.live? r lowest with
    | none => simpa [List.filterMap_cons, live] using both
    | some q => simpa [List.filterMap_cons, live] using both

/-- The address of a store that enters the window is known at once, unless it waits for a writer. -/
theorem surveys_linkAddress (h : th.linkAddress lowest e = .ok e') :
    th.Surveys (th.addressSought lowest e.u.op) e e' ∧
      e'.addressReady = if e'.addressProducers.isEmpty then e'.addressReadyMax else e.addressReady := by
  obtain ⟨x, surveyed, h⟩ := Except.bind_eq_ok.mp h
  obtain ⟨surveys, same⟩ := surveys_foldlM surveyed
  rw [Except.pure_eq_ok] at h
  subst h
  cases empty : x.addressProducers.isEmpty with
  | true =>
    rw [if_pos rfl]
    refine ⟨⟨surveys.le, surveys.keeps, surveys.found, surveys.fewer, surveys.latest⟩, ?_⟩
    exact (if_pos empty).symm
  | false =>
    rw [if_neg Bool.false_ne_true, empty, if_neg Bool.false_ne_true]
    exact ⟨surveys, same⟩

/-- Linking a store looks up the writers of its address; the rest of it leaves that alone. -/
theorem surveys_link {forwarding : Bool} (h : link forwarding e th = .ok e' th') (store : e.u.op.isStore = true) :
    th.Surveys (th.addressSought (th.oldestSeq e) e.u.op) e e' ∧
      e'.addressReady = if e'.addressProducers.isEmpty then e'.addressReadyMax else e.addressReady := by
  unfold link at h
  simp only [get_bind, bind_eq_ok, ofExcept_eq_ok, modify_bind, zoom_eq_ok, pure_eq_ok] at h
  obtain ⟨e₁, _, ⟨addressed, rfl⟩, u₁, _, ⟨awaited, rfl⟩, ⟨u₂, stores⟩, _, ⟨stored, rfl⟩, e₃, _,
    ⟨forwarded, rfl⟩, ⟨e₄, nearest⟩, th₄, watched, ⟨⟩, _, ⟨stats, counted, rfl⟩, rfl, rfl⟩ := h
  rw [if_pos store] at addressed
  -- what follows the look-up only concerns the operands
  have forwards : th.Forwards u₂.producers.toList { e₁ with u := u₂ } e₃ := by
    dsimp only at forwarded
    split at forwarded
    · exact forwards_forward forwarded
    · cases forwarded
      exact .refl _ _ _
  have settled : e₄.settle = { e₄ with
      ready := if e₄.u.producers.isEmpty then e₄.readyMax else e₄.ready } := by
    unfold Entry.settle
    split <;> rfl
  have same : e₄.settle.addressReady = e₁.addressReady ∧ e₄.settle.addressReadyMax = e₁.addressReadyMax ∧
      e₄.settle.addressProducers = e₁.addressProducers := by
    rw [settled, (watches_watch watched).frame, forwards.frame]
    exact ⟨rfl, rfl, rfl⟩
  obtain ⟨surveys, ready⟩ := surveys_linkAddress addressed
  obtain ⟨same, latest, producers⟩ := same
  rw [← same, ← latest, ← producers] at ready
  refine ⟨⟨?_, ?_, ?_, ?_, ?_⟩, ready⟩
  · rw [latest]
    exact surveys.le
  · rw [producers]
    exact surveys.keeps
  · rw [latest, producers]
    exact surveys.found
  · rw [producers]
    exact surveys.fewer
  · rw [latest]
    exact surveys.latest

/-- A store is to be woken by all producers that it looks for and that have no result. -/
theorem listed_link {forwarding : Bool} {q : Nat} (h : link forwarding e th = .ok e' th')
    (store : e.u.op.isStore = true) (known : e.readyMax ≠ .never) (seeks : q ∈ th.sought e)
    (alive : th.oldestSeq e ≤ q) :
    ∃ (i : Nat) (p p' : Entry), th.ring.toList[i]? = some p ∧ th'.ring.toList[i]? = some p' ∧ p.seq = q ∧
      (p.done = .never → e.seq ∈ p'.dependants.toList) := by
  unfold link at h
  simp only [get_bind, bind_eq_ok, ofExcept_eq_ok, modify_bind, zoom_eq_ok, pure_eq_ok] at h
  obtain ⟨e₁, _, ⟨addressed, rfl⟩, u₁, _, ⟨awaited, rfl⟩, ⟨u₂, stores⟩, _, ⟨stored, rfl⟩, e₃, _,
    ⟨forwarded, rfl⟩, ⟨e₄, nearest⟩, th₄, watched, ⟨⟩, _, ⟨stats, counted, rfl⟩, rfl, rfl⟩ := h
  have address := addressed_eq addressed
  have u_eq : e₁.u = e.u := by rw [address]
  have added := awaits_tables u_eq awaited stored
  have load : u₂.op.isLoad = false := by
    rw [added.op_eq]
    simp only [MicroOp.isLoad, MicroOp.isStore, beq_iff_eq] at store ⊢
    simp [store]
  -- a store takes over nothing
  obtain rfl : e₃ = { e₁ with u := u₂ } := by
    dsimp only at forwarded
    rw [load, Bool.and_false, if_neg Bool.false_ne_true] at forwarded
    cases forwarded
    rfl
  have watches := watches_watch watched
  obtain ⟨i, p, entry, number, fate⟩ := watches.listed q ((mem_sought_iff added).mpr seeks) alive
  obtain ⟨p', entry', -⟩ := watches.ring.left entry
  refine ⟨i, p, p', entry, entry', number, fun pending => ?_⟩
  rcases fate with told | ⟨p'', entry'', lists⟩
  · -- what has no result is not told
    have latest : e₄.readyMax ≠ .never := by
      refine watches.times (· ≠ .never) ?_ fun _ _ _ result => result
      show e₁.readyMax ≠ .never
      rw [address]
      exact known
    rw [pending, Time.never_le_iff] at told
    exact absurd told latest
  · rw [entry'] at entry''
    cases entry''
    show e.u.seq ∈ _
    rw [← added.seq_eq]
    exact lists

end Thread

/-! ## Section 3: Being woken -/

/-- `e'` is `e` after it has been woken by `seq`, whose result comes at `done`, while the oldest entry in the ring
was number `front` and those in the ring had the results that the entries `es` show. -/
structure Entry.Reviews (es : List Entry) (front seq : Nat) (done : Time) (e e' : Entry) : Prop where
  /-- The micro-op is the same. -/
  op : e'.u.op = e.u.op
  /-- It is taken down for good whom the address waits for. -/
  producers : e'.addressProducers = e.addressProducers
  /-- An address that is known does not change. -/
  settled : e.addressReady ≠ .never → e'.addressReady = e.addressReady ∧ e'.addressReadyMax = e.addressReadyMax
  /-- The result counts if the address waits for it. -/
  latest : e.u.op.isStore = true → e.addressReady = .never →
    e'.addressReadyMax =
      if seq ∈ e.addressProducers.toList ∧ front ≤ seq then max e.addressReadyMax done else e.addressReadyMax
  /-- The address is known once nothing that it waits for is pending. -/
  resolved : e.u.op.isStore = true → e.addressReady = .never →
    (∀ q ∈ e.addressProducers.toList, front ≤ q → Delivered es q) ∧ e'.addressReady = e'.addressReadyMax ∨
      (∃ q ∈ e.addressProducers.toList, front ≤ q ∧ Pending es q) ∧ e'.addressReady = .never

namespace Entry.Reviews

variable {es es' : List Entry} {front seq seq' : Nat} {done done' : Time} {e e' e'' : Entry}

/-- Being told once more changes nothing. -/
theorem trans (h : Reviews es front seq done e e') (h' : Reviews es front seq done e' e'') :
    Reviews es front seq done e e'' := by
  refine ⟨h'.op.trans h.op, h'.producers.trans h.producers, fun known => ?_, fun store open_ => ?_,
    fun store open_ => ?_⟩
  · obtain ⟨ready, latest⟩ := h.settled known
    obtain ⟨ready', latest'⟩ := h'.settled (ready ▸ known)
    exact ⟨ready'.trans ready, latest'.trans latest⟩
  · have first := h.latest store open_
    by_cases still : e'.addressReady = .never
    · rw [h'.latest (h.op ▸ store) still, h.producers, first]
      split
      · rw [max_assoc, max_self]
      · rfl
    · rw [(h'.settled still).2, first]
  · by_cases still : e'.addressReady = .never
    · have second := h'.resolved (h.op ▸ store) still
      rwa [h.producers] at second
    · rw [(h'.settled still).1, (h'.settled still).2]
      exact h.resolved store open_

/-- Only the results of entries matter. -/
theorem of_woken (h : Reviews es front seq done e e') (woken : Pointwise (Entry.Woken seq' done') es es') :
    Reviews es' front seq done e e' := by
  refine ⟨h.op, h.producers, h.settled, h.latest, fun store open_ => ?_⟩
  rcases h.resolved store open_ with ⟨delivered, ready⟩ | ⟨⟨q, mem, present, pending⟩, ready⟩
  · exact .inl ⟨fun q mem present => (delivered q mem present).of_woken woken, ready⟩
  · exact .inr ⟨⟨q, mem, present, pending.of_woken woken⟩, ready⟩

end Entry.Reviews

namespace Thread

variable {th th' : Thread} {front seq consumer : Nat} {e e' : Entry} {done : Time}

theorem observeAddress_resolves {producers : List Nat} {latest : Time} {resolved : Bool}
    (h : th.observeAddress front seq done e producers latest resolved = .ok e') :
    e'.addressReadyMax = (if seq ∈ producers ∧ front ≤ seq then max latest done else latest) ∧
    ((resolved = true ∧ (∀ q ∈ producers, front ≤ q → Delivered th.ring.toList q) ∧
        e'.addressReady = e'.addressReadyMax) ∨
      ((resolved = false ∨ ∃ q ∈ producers, front ≤ q ∧ Pending th.ring.toList q) ∧
        e'.addressReady = e.addressReady)) := by
  -- along the list of producers; the flag says whether all that were looked at have results
  induction producers generalizing latest resolved with
  | nil =>
    cases h
    refine ⟨by simp, ?_⟩
    cases resolved with
    | true => exact .inl ⟨rfl, fun _ mem => (by cases mem), rfl⟩
    | false => exact .inr ⟨.inl rfl, rfl⟩
  | cons producer rest ih =>
    unfold observeAddress at h
    split at h
    · -- the producer has left
      rename_i left
      obtain ⟨time, ready⟩ := ih h
      refine ⟨?_, ?_⟩
      · rw [time]
        refine if_congr ?_ rfl rfl
        rw [List.mem_cons]
        constructor
        · rintro ⟨mem, present⟩
          exact ⟨.inr mem, present⟩
        · rintro ⟨rfl | mem, present⟩
          · omega
          · exact ⟨mem, present⟩
      · rcases ready with ⟨all, delivered, same⟩ | ⟨none | ⟨q, mem, pending⟩, same⟩
        · refine .inl ⟨all, fun q mem present => ?_, same⟩
          rcases List.mem_cons.mp mem with rfl | mem
          · omega
          · exact delivered q mem present
        · exact .inr ⟨.inl none, same⟩
        · exact .inr ⟨.inr ⟨q, List.mem_cons_of_mem _ mem, pending⟩, same⟩
    · rename_i present
      rw [Nat.not_lt] at present
      obtain ⟨⟨i, p⟩, located, h⟩ := Except.bind_eq_ok.mp h
      obtain ⟨entry, number⟩ := locate_eq_ok located
      have mem := List.mem_of_getElem? entry
      obtain ⟨time, ready⟩ := ih h
      refine ⟨?_, ?_⟩
      · rw [time]
        by_cases same : producer = seq
        · subst same
          simp only [if_true, List.mem_cons, true_or, true_and, if_pos present]
          split
          · rw [max_assoc, max_self]
          · rfl
        · simp only [if_neg same, List.mem_cons, Ne.symm same, false_or]
      · rcases ready with ⟨all, delivered, same⟩ | ⟨why, same⟩
        · rw [Bool.and_eq_true] at all
          refine .inl ⟨all.1, fun q hq present => ?_, same⟩
          rcases List.mem_cons.mp hq with rfl | hq
          · exact ⟨p, mem, number, Entry.isDone_iff.mp all.2⟩
          · exact delivered q hq present
        · refine .inr ⟨?_, same⟩
          rcases why with none | ⟨q, hq, rest⟩
          · cases resolved with
            | false => exact .inl rfl
            | true =>
              rw [Bool.true_and] at none
              exact .inr ⟨producer, List.mem_cons_self, present, p, mem, number,
                Entry.isDone_eq_false_iff.mp none⟩
          · exact .inr ⟨q, List.mem_cons_of_mem _ hq, rest⟩

/-- A store that is woken looks up the writers that its address waits for. -/
theorem reviews_wake (h : wake front seq done consumer th = .ok () th') :
    ∃ (i : Nat) (e e' : Entry), th.ring.toList[i]? = some e ∧ e.seq = consumer ∧ e.Woken seq done e' ∧
      e.Reviews th.ring.toList front seq done e' ∧ th' = th.setEntry i e' := by
  unfold wake at h
  simp only [get_bind, bind_eq_ok, ofExcept_eq_ok, modify_eq_ok] at h
  obtain ⟨⟨i, e⟩, _, ⟨located, rfl⟩, e', _, ⟨observed, rfl⟩, rfl⟩ := h
  obtain ⟨entry, number⟩ := locate_eq_ok located
  dsimp only at observed entry number ⊢
  have woken := Entry.woken_settle seq done e
  -- what comes before leaves the address alone
  have same : ((e.observe done).dropProducer seq).settle.u.op = e.u.op ∧
      ((e.observe done).dropProducer seq).settle.addressProducers = e.addressProducers ∧
      ((e.observe done).dropProducer seq).settle.addressReady = e.addressReady ∧
      ((e.observe done).dropProducer seq).settle.addressReadyMax = e.addressReadyMax := by
    unfold Entry.settle
    split
    · exact ⟨rfl, rfl, rfl, rfl⟩
    · exact ⟨rfl, rfl, rfl, rfl⟩
  generalize ((e.observe done).dropProducer seq).settle = y at observed woken same
  obtain ⟨op, producers, ready, latest⟩ := same
  split at observed
  · rename_i waits
    rw [Bool.and_eq_true, Time.isNever_iff, ready] at waits
    have frame := observeAddress_eq_ok observed
    obtain ⟨time, fate⟩ := observeAddress_resolves observed
    rw [producers, latest] at time
    refine ⟨i, e, e', entry, number, ?_, ⟨?_, ?_, fun known => absurd waits.2 known, fun _ _ => time,
      fun _ _ => ?_⟩, rfl⟩
    · rw [frame]
      exact woken.of_address _ _
    · rw [frame]
      exact op
    · rw [frame]
      exact producers
    · rw [producers, ready, waits.2] at fate
      rcases fate with ⟨-, delivered, same⟩ | ⟨none | pending, same⟩
      · exact .inl ⟨delivered, same⟩
      · cases none
      · exact .inr ⟨pending, same⟩
  · rename_i stays
    cases observed
    rw [Bool.and_eq_true, Time.isNever_iff, op, ready, not_and] at stays
    exact ⟨i, e, _, entry, number, woken, ⟨op, producers, fun _ => ⟨ready, latest⟩,
      fun store waits => absurd waits (stays store), fun store waits => absurd waits (stays store)⟩, rfl⟩

/-- Every consumer that is woken looks up the writers that its address waits for. -/
theorem reviews_wakeAll {consumers : List Nat} (distinct : (th.ring.toList.map Entry.seq).Nodup)
    (h : wakeAll front seq done consumers th = .ok () th') {i : Nat} {x x' : Entry}
    (before : th.ring.toList[i]? = some x) (after : th'.ring.toList[i]? = some x')
    (told : x.seq ∈ consumers) : x.Reviews th'.ring.toList front seq done x' := by
  induction consumers generalizing th x with
  | nil => cases told
  | cons first rest ih =>
    obtain ⟨⟨⟩, th₁, woken, onwards⟩ := bind_eq_ok.mp h
    obtain ⟨j, e, e', entry, number, wakes, reviews, rfl⟩ := reviews_wake woken
    have changed : Pointwise (Entry.Woken seq done) th.ring.toList (th.setEntry j e').ring.toList := by
      rw [toList_setEntry]
      exact .set Entry.Woken.refl entry wakes
    obtain ⟨-, related, others, -⟩ := wakeAll_eq_ok onwards
    have distinct' : ((th.setEntry j e').ring.toList.map Entry.seq).Nodup := by
      rw [changed.map_eq fun _ _ same => same.seq_eq]
      exact distinct
    obtain ⟨y, at_i, same⟩ := changed.left before
    have to_end : ∀ {z z' : Entry}, z.Reviews th.ring.toList front seq done z' →
        z.Reviews th'.ring.toList front seq done z' := fun reviews =>
      (reviews.of_woken changed).of_woken related
    by_cases here : x.seq = first
    · -- the entry is the one that is woken first
      have at_j : i = j := by
        have inside : i < (th.ring.toList.map Entry.seq).length := by
          rw [List.length_map]
          exact (List.getElem?_eq_some_iff.mp before).1
        refine (List.getElem?_inj inside distinct).mp ?_
        rw [List.getElem?_map, List.getElem?_map, before, entry, Option.map_some, Option.map_some, here, number]
      subst at_j
      rw [before] at entry
      cases entry
      obtain rfl : y = e' := by
        rw [toList_setEntry, List.getElem?_set_self (List.getElem?_eq_some_iff.mp before).1] at at_i
        exact (Option.some.inj at_i).symm
      -- its number may come again in the rest
      by_cases again : y.seq ∈ rest
      · exact (to_end reviews).trans (ih distinct' onwards at_i again)
      · have unchanged := others i y at_i again
        rw [after] at unchanged
        cases unchanged
        exact to_end reviews
    · -- it is not touched yet
      have elsewhere : j ≠ i := by
        rintro rfl
        rw [before] at entry
        cases entry
        exact here number
      obtain rfl : y = x := by
        rw [toList_setEntry, List.getElem?_set_ne elsewhere, before] at at_i
        exact (Option.some.inj at_i).symm
      exact ih distinct' onwards at_i ((List.mem_cons.mp told).resolve_left here)

/-- An address that is known does not change when entries are woken. -/
theorem addressReady_wakeAll {consumers : List Nat} (h : wakeAll front seq done consumers th = .ok () th') :
    Pointwise (fun x x' => x.addressReady ≠ .never → x'.addressReady = x.addressReady)
      th.ring.toList th'.ring.toList := by
  induction consumers generalizing th with
  | nil =>
    obtain ⟨-, rfl⟩ := pure_eq_ok.mp h
    exact .refl (fun _ _ => rfl) _
  | cons first rest ih =>
    obtain ⟨⟨⟩, th₁, woken, onwards⟩ := bind_eq_ok.mp h
    obtain ⟨j, e, e', entry, -, -, reviews, rfl⟩ := reviews_wake woken
    have changed : Pointwise (fun x x' : Entry => x.addressReady ≠ .never → x'.addressReady = x.addressReady)
        th.ring.toList (th.setEntry j e').ring.toList := by
      rw [toList_setEntry]
      exact .set (fun _ _ => rfl) entry fun known => (reviews.settled known).1
    refine changed.trans (fun x y z first second known => ?_) (ih onwards)
    rw [second (first known ▸ known), first known]

/-- What is told by an entry that issues looks up the writers that its address waits for. -/
theorem reviews_start {i j : Nat} {now latency : Time} {x x' : Entry}
    (distinct : (th.ring.toList.map Entry.seq).Nodup) (entry : th.ring.toList[i]? = some e)
    (h : start i e now done latency th = .ok () th') (before : (th.issuedAt i e now done)[j]? = some x)
    (after : th'.ring.toList[j]? = some x') (told : x.seq ∈ e.dependants.toList) :
    x.Reviews th'.ring.toList (th.oldestSeq e) e.seq done x' := by
  unfold start at h
  simp only [get_bind, modify_bind] at h
  refine reviews_wakeAll ?_ h ?_ after told
  · obtain ⟨inside, same⟩ := List.getElem?_eq_some_iff.mp entry
    have unchanged : (th.ring.toList.map Entry.seq).set i e.seq = th.ring.toList.map Entry.seq := by
      rw [← List.map_set, ← same, List.set_getElem_self]
    rw [toList_setEntry, List.map_set]
    show ((th.ring.toList.map Entry.seq).set i e.seq).Nodup
    rwa [unchanged]
  · rwa [toList_setEntry]

theorem addressReady_start {i : Nat} {now latency : Time} (h : start i e now done latency th = .ok () th') :
    Pointwise (fun x x' => x.addressReady ≠ .never → x'.addressReady = x.addressReady)
      (th.issuedAt i e now done) th'.ring.toList := by
  unfold start at h
  simp only [get_bind, modify_bind] at h
  simpa [issuedAt] using addressReady_wakeAll h

end Thread

end CoreTiming
