import CoreTiming.Dependency.RegisterTable
import CoreTiming.Dependency.StoreTable
import CoreTiming.Proofs.Outcome
import Mathlib.Data.List.TakeWhile

/-!
# What the tables make a micro-op wait for

A micro-op that enters the window asks the register table and the store table for its producers.
`OpInstance.Awaits` says that it has got a list of them; the lemmas of this module name the list that
each table yields, and what the tables know afterwards.
-/

namespace CoreTiming

theorem seq?_eq_some {n q : Nat} (h : seq? n = some q) : n = q := by
  unfold seq? at h
  split at h
  · cases h
  · exact Option.some.inj h

/-! ## Section 1: Producer lists -/

namespace OpInstance

/-- `u'` is `u`, except that it waits for the producers `qs` as well. -/
structure Awaits (u : OpInstance) (qs : List Nat) (u' : OpInstance) : Prop where
  /-- Only the list of producers has changed. -/
  frame : u' = { u with producers := u'.producers }
  /-- Exactly the producers `qs` have been added. -/
  mem_iff : ∀ q, q ∈ u'.producers.toList ↔ q ∈ u.producers.toList ∨ q ∈ qs
  /-- None is listed twice. -/
  nodup : u.producers.toList.Nodup → u'.producers.toList.Nodup

variable {u u' u'' : OpInstance} {qs rs : List Nat} {q : Nat}

theorem Awaits.nil (u : OpInstance) : u.Awaits [] u :=
  ⟨rfl, by simp, id⟩

theorem Awaits.append (h : u.Awaits qs u') (h' : u'.Awaits rs u'') : u.Awaits (qs ++ rs) u'' := by
  refine ⟨?_, fun q => ?_, fun nodup => h'.nodup (h.nodup nodup)⟩
  · rw [h'.frame, h.frame]
  · rw [h'.mem_iff, h.mem_iff, List.mem_append, or_assoc]

theorem Awaits.op_eq (h : u.Awaits qs u') : u'.op = u.op := by
  rw [h.frame]

theorem Awaits.seq_eq (h : u.Awaits qs u') : u'.seq = u.seq := by
  rw [h.frame]

theorem Awaits.address_eq (h : u.Awaits qs u') : u'.address = u.address := by
  rw [h.frame]

theorem awaits_addProducer (h : u.addProducer q = .ok u') : u.Awaits [q] u' := by
  obtain ⟨producers, inserted, hu⟩ := Except.bind_eq_ok.mp h
  cases hu
  unfold BoundedList.insert at inserted
  split at inserted
  · rename_i there
    cases inserted
    have : q ∈ u.producers.toList := by simpa [BoundedList.contains] using there
    refine ⟨rfl, fun p => ?_, id⟩
    simp only [List.mem_singleton]
    constructor
    · exact Or.inl
    · rintro (hp | rfl)
      · exact hp
      · exact this
  · rename_i absent
    have : q ∉ u.producers.toList := by simpa [BoundedList.contains] using absent
    refine ⟨rfl, fun p => ?_, fun nodup => ?_⟩
    · show p ∈ producers.toList ↔ _
      rw [BoundedList.toList_push inserted, List.mem_append]
    · show producers.toList.Nodup
      rw [BoundedList.toList_push inserted, List.nodup_append]
      refine ⟨nodup, by simp, fun p listed r single => ?_⟩
      rw [List.mem_singleton] at single
      rintro rfl
      exact this (single ▸ listed)

theorem awaits_addProducers {qs : List Nat}
    (h : qs.foldlM (fun u q => u.addProducer q) u = .ok u') : u.Awaits qs u' := by
  induction qs generalizing u with
  | nil =>
    cases h
    exact .nil _
  | cons q rest ih =>
    obtain ⟨v, added, h⟩ := Except.bind_eq_ok.mp h
    exact (awaits_addProducer added).append (ih h)

end OpInstance

/-! ## Section 2: The register table -/

namespace RegisterTable

variable {t : RegisterTable} {lowest : Nat} {u u' : OpInstance} {r : Register}

/-- The live writers of the registers that a micro-op reads. -/
def sought (t : RegisterTable) (lowest : Nat) (op : MicroOp) : List Nat :=
  op.sources.filterMap fun r => t.live? r lowest

theorem awaits_awaitWriters {rs : List Register} (h : rs.foldlM (t.awaitWriter lowest) u = .ok u') :
    u.Awaits (rs.filterMap fun r => t.live? r lowest) u' := by
  induction rs generalizing u with
  | nil =>
    cases h
    exact .nil _
  | cons r rest ih =>
    obtain ⟨v, first, h⟩ := Except.bind_eq_ok.mp h
    unfold awaitWriter at first
    cases live : t.live? r lowest with
    | none =>
      rw [live] at first
      cases first
      simp only [List.filterMap_cons, live]
      exact ih h
    | some q =>
      rw [live] at first
      simp only [List.filterMap_cons, live]
      exact (OpInstance.awaits_addProducer first).append (ih h)

theorem awaits_await (h : t.await lowest u = .ok u') : u.Awaits (t.sought lowest u.op) u' :=
  awaits_awaitWriters h

@[simp] theorem size_record (t : RegisterTable) (seq : Option Nat) (r : Register) :
    (t.record seq r).writers.size = t.writers.size := by
  simp [record]

theorem live?_record (t : RegisterTable) (seq : Option Nat) (r k : Register) :
    (t.record seq r).live? k lowest =
      if k = r ∧ r < t.writers.size then seq.filter (lowest ≤ ·) else t.live? k lowest := by
  unfold live?
  rw [writer?_record]
  split <;> rfl

theorem size_forget (t : RegisterTable) (r : Register) :
    (forget lowest t r).writers.size = t.writers.size := by
  unfold forget
  split
  · split
    · rfl
    · exact size_record _ _ _
  · rfl

/-- Only stale writers are forgotten. -/
theorem live?_forget (t : RegisterTable) (r k : Register) :
    (forget lowest t r).live? k lowest = t.live? k lowest := by
  unfold forget
  cases writer : t.writer? r with
  | none => rfl
  | some q =>
    show (if lowest ≤ q then t else t.record none r).live? k lowest = t.live? k lowest
    split
    · rfl
    · rename_i stale
      rw [live?_record]
      split
      · rename_i hk
        rw [live?, hk.1, writer]
        simp [Option.filter, stale]
      · rfl

theorem size_foldl_forget (rs : List Register) :
    (rs.foldl (forget lowest) t).writers.size = t.writers.size := by
  induction rs generalizing t with
  | nil => rfl
  | cons r rest ih =>
    rw [List.foldl_cons, ih, size_forget]

theorem live?_foldl_forget (rs : List Register) (k : Register) :
    (rs.foldl (forget lowest) t).live? k lowest = t.live? k lowest := by
  induction rs generalizing t with
  | nil => rfl
  | cons r rest ih =>
    rw [List.foldl_cons, ih, live?_forget]

theorem size_foldl_record (rs : List Register) (seq : Option Nat) :
    (rs.foldl (·.record seq) t).writers.size = t.writers.size := by
  induction rs generalizing t with
  | nil => rfl
  | cons r rest ih =>
    rw [List.foldl_cons, ih, size_record]

theorem live?_foldl_record (rs : List Register) (seq : Option Nat) (k : Register) :
    (rs.foldl (·.record seq) t).live? k lowest =
      if k ∈ rs ∧ k < t.writers.size then seq.filter (lowest ≤ ·) else t.live? k lowest := by
  induction rs generalizing t with
  | nil => simp
  | cons r rest ih =>
    rw [List.foldl_cons, ih, size_record, live?_record]
    by_cases hk : k = r
    · subst hk
      by_cases hsize : k < t.writers.size <;> simp [hsize]
    · simp [hk]

@[simp] theorem size_note (t : RegisterTable) (u : OpInstance) :
    (t.note lowest u).writers.size = t.writers.size := by
  rw [note, size_foldl_record, size_foldl_forget]

/-- After `u` has been noted, it is the writer of its destinations; nothing else has changed. -/
theorem live?_note (t : RegisterTable) (u : OpInstance) (k : Register) :
    (t.note lowest u).live? k lowest =
      if k ∈ u.op.destinations ∧ k < t.writers.size then (seq? u.seq).filter (lowest ≤ ·)
      else t.live? k lowest := by
  rw [note, live?_foldl_record, size_foldl_forget, live?_foldl_forget]

@[simp] theorem live?_empty (k : Register) : empty.live? k lowest = none := by
  rw [live?, writer?_empty]
  rfl

@[simp] theorem size_empty : empty.writers.size = numRegisters := by
  simp [empty]

/-- Fewer writers are live from a later number on. -/
theorem live?_of_le {later : Nat} (h : lowest ≤ later) (t : RegisterTable) (k : Register) :
    t.live? k later = (t.live? k lowest).filter (later ≤ ·) := by
  unfold live?
  cases t.writer? k with
  | none => rfl
  | some q =>
    by_cases hq : later ≤ q
    · have : lowest ≤ q := Nat.le_trans h hq
      simp [Option.filter, hq, this]
    · by_cases hq' : lowest ≤ q <;> simp [Option.filter, hq, hq']

end RegisterTable

/-! ## Section 3: The store table -/

/-- Whether the micro-op is a fence that accesses no memory itself. -/
def MicroOp.isBarrier (op : MicroOp) : Bool := op.fence && !op.isLoad && !op.isStore

namespace StoreTable

variable {t t' : StoreTable} {lowest : Nat} {u u' : OpInstance}

theorem toList_dropOld {n : Nat} {stores : Ring StoreRecord} (h : stores.length ≤ n) :
    (dropOld lowest n stores).toList = stores.toList.dropWhile (·.seq < lowest) := by
  induction n generalizing stores with
  | zero =>
    have : stores.toList = [] := List.eq_nil_of_length_eq_zero (by simpa using h)
    simp [dropOld, this]
  | succ n ih =>
    unfold dropOld
    cases front : stores.front? with
    | none =>
      have : stores.toList = [] := by
        have := Ring.drop_toList_of_get?_none front
        simpa using this
      simp [this]
    | some store =>
      have split := Ring.drop_toList_of_get? front
      rw [List.drop_zero, Nat.zero_add, List.drop_one] at split
      rw [split]
      by_cases hold : store.seq < lowest
      · have shorter : stores.tail.length ≤ n := by
          rw [← Ring.length_toList, Ring.toList_tail]
          rw [← Ring.length_toList] at h
          rw [List.length_tail]
          omega
        simp [hold, ih shorter]
      · simp only [hold, if_false]
        rw [List.dropWhile_cons_of_neg (by simpa using hold)]
        exact split

@[simp] theorem toList_clean (t : StoreTable) (lowest : Nat) :
    (t.clean lowest).stores.toList = t.stores.toList.dropWhile (·.seq < lowest) :=
  toList_dropOld (Nat.le_refl _)

theorem findBelow_eq (stores : Ring StoreRecord) (address : Address) {n : Nat}
    (h : n ≤ stores.length) :
    findBelow stores address n =
      ((stores.toList.take n).reverse.find? (·.address = address)).bind (seq? ·.seq) := by
  induction n with
  | zero => simp [findBelow]
  | succ n ih =>
    have hlt : n < stores.toList.length := by
      rw [Ring.length_toList]
      omega
    have at_n : stores.get? n = some stores.toList[n] := by
      rw [← Ring.getElem?_toList, List.getElem?_eq_getElem hlt]
    unfold findBelow
    rw [at_n, List.take_succ_eq_append_getElem hlt, List.reverse_append, List.reverse_singleton,
      List.singleton_append, List.find?_cons]
    by_cases hit : stores.toList[n].address = address
    · simp [hit]
    · simp [hit, ih (by omega)]

theorem find?_eq (t : StoreTable) (address : Address) :
    t.find? address =
      (t.stores.toList.reverse.find? (·.address = address)).bind (seq? ·.seq) := by
  rw [find?, findBelow_eq _ _ (Nat.le_refl _), List.take_of_length_le (by simp)]

/-- What a micro-op waits for on behalf of the store table. -/
def sought (t : StoreTable) (lowest : Nat) (u : OpInstance) : List Nat :=
  if u.op.isLoad then ((t.clean lowest).find? u.address).toList ++ (t.liveFence? lowest).toList
  else if u.op.isStore || u.op.fence then (t.liveFence? lowest).toList
  else []

/-- The stores that the table names after `u` has been linked. -/
def storesAfter (t : StoreTable) (lowest : Nat) (u : OpInstance) : List StoreRecord :=
  (t.clean lowest).stores.toList ++
    if u.op.isStore then [{ seq := u.seq, address := u.address }] else []

/-- The fence that the table names after `u` has been linked. -/
def fenceAfter (t : StoreTable) (u : OpInstance) : Option Nat :=
  if u.op.isBarrier then seq? u.seq else t.fence

theorem awaits_await {producer : Option Nat} (h : await u producer = .ok u') :
    u.Awaits producer.toList u' := by
  cases producer with
  | none =>
    cases h
    exact .nil _
  | some q => exact OpInstance.awaits_addProducer h

theorem link_eq_ok (h : link u lowest t = .ok (u', t')) :
    u.Awaits (t.sought lowest u) u' ∧ t'.stores.toList = t.storesAfter lowest u ∧
      t'.fence = t.fenceAfter u := by
  simp only [link] at h
  unfold sought storesAfter fenceAfter MicroOp.isBarrier
  have fence : (t.clean lowest).liveFence? lowest = t.liveFence? lowest := rfl
  rw [fence] at h
  -- a load waits for a store and a fence; a store or a fence waits for the last fence, and is recorded itself
  by_cases load : u.op.isLoad
  · have store : u.op.isStore = false := by
      simp only [MicroOp.isLoad, MicroOp.isStore, beq_iff_eq] at load ⊢
      simp [load]
    simp only [load, if_true, Except.bind_eq_ok, Except.pure_eq_ok, Prod.mk.injEq] at h
    obtain ⟨v, first, _, second, rfl, rfl⟩ := h
    refine ⟨?_, ?_, ?_⟩
    · rw [if_pos load]
      exact (awaits_await first).append (awaits_await second)
    · simp [store]
    · rw [if_neg (by simp [load])]
      rfl
  · rw [if_neg load]
    by_cases store : u.op.isStore
    · simp only [load, store, if_true, if_false, Except.bind_eq_ok, Except.pure_eq_ok,
        Bool.false_eq_true, Prod.mk.injEq] at h
      obtain ⟨stores, pushed, _, second, rfl, rfl⟩ := h
      refine ⟨?_, ?_, ?_⟩
      · rw [if_pos (by simp [store])]
        exact awaits_await second
      · rw [if_pos store]
        exact Ring.toList_push pushed
      · rw [if_neg (by simp [store])]
        rfl
    · by_cases isFence : u.op.fence
      · simp only [load, store, isFence, if_true, if_false, Except.bind_eq_ok, Except.pure_eq_ok,
          Bool.false_eq_true, Prod.mk.injEq] at h
        obtain ⟨_, second, rfl, rfl⟩ := h
        refine ⟨?_, ?_, ?_⟩
        · rw [if_pos (by simp [isFence])]
          exact awaits_await second
        · simp [store]
        · rw [if_pos (by simp [load, store, isFence])]
      · simp only [load, store, isFence, if_false, Except.pure_eq_ok, Bool.false_eq_true,
          Prod.mk.injEq] at h
        obtain ⟨rfl, rfl⟩ := h
        refine ⟨?_, ?_, ?_⟩
        · rw [if_neg (by simp [store, isFence])]
          exact .nil _
        · simp [store]
        · rw [if_neg (by simp [isFence])]
          rfl

end StoreTable

end CoreTiming
