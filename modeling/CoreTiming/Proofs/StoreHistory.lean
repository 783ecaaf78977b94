import CoreTiming.Proofs.Occupancy

/-!
# What the store buffer knows of the stores to an address

A store goes into the slot that is tagged with its address, or else takes the slot that is assigned to it; either way
the slot is tagged with its address and falls free when the store is over.  So no address has two slots, and each slot
shows the last store that was placed in it (`StoreBuffer.Keeps`): a lookup says of an address whether the last store to
it is over (`StoreBuffer.shows_last_stores`).

Of the stores before the last one a slot knows nothing.  It stays busy until all of them are over if no store goes into
the slot of another one that is over later (`NoneOutlived`), which does not hold in general
(`StoreBuffer.outlived_store_forgotten`).
-/

namespace CoreTiming

/-- How a store has been placed in the buffer. -/
structure Placement where
  /-- The slot that it is in. -/
  slot : Nat
  /-- The address that is stored to. -/
  address : Address
  /-- When it enters the buffer. -/
  entered : Time
  /-- When it is over. -/
  stop : Time
  deriving DecidableEq

namespace StoreBuffer

variable {b : StoreBuffer} {s : Store} {slot : StoreSlot} {i n : Nat} {a : Address} {entered t : Time}
  {log : List Placement} {p : Placement}

/-! ## Section 1: Slots and addresses -/

/-- No address has two slots. -/
def Distinct (b : StoreBuffer) : Prop :=
  ∀ (i j : Nat) (s s' : StoreSlot) (a : Address), b.slots[i]? = some s → b.slots[j]? = some s' →
    s.address = some a → s'.address = some a → i = j

theorem exists_of_find? (found : b.find? a = some i) : ∃ slot, b.slots[i]? = some slot ∧ slot.address = some a := by
  obtain ⟨inside, tagged, -⟩ := List.findIdx?_eq_some_iff_getElem.mp found
  exact ⟨_, List.getElem?_eq_getElem inside, beq_iff_eq.mp tagged⟩

/-- The slot of an address is found. -/
theorem Distinct.find?_eq (h : b.Distinct) (there : b.slots[i]? = some slot) (tagged : slot.address = some a) :
    b.find? a = some i := by
  cases found : b.find? a with
  | none => exact absurd tagged (find?_eq_none_iff.mp found slot (List.mem_of_getElem? there))
  | some j =>
    obtain ⟨slot', there', tagged'⟩ := exists_of_find? found
    rw [h j i slot' slot a there' there tagged' tagged]

/-- A lookup compares with the time at which the slot of the address falls free. -/
theorem Distinct.lookup_eq (h : b.Distinct) (there : b.slots[i]? = some slot) (tagged : slot.address = some a)
    (t : Time) : b.lookup t a = if t ≤ slot.freeAt then .valid else .completed := by
  have found : (b.slots.find? fun s => s.address == some a) = some slot := by
    have index : (b.slots.findIdx? fun s => s.address == some a) = some i := h.find?_eq there tagged
    rw [List.find?_eq_bind_findIdx?_getElem?, index]
    exact there
  unfold lookup
  rw [found]

/-- How a store enters the buffer. -/
inductive Enters (b : StoreBuffer) (s : Store) (i : Nat) : (entered : Time) → Prop
  /-- The slot is that of its address. -/
  | coalesce {slot : StoreSlot} (there : b.slots[i]? = some slot) (tagged : slot.address = some s.address) :
    Enters b s i s.start
  /-- The address has no slot, and the store waits until this one falls free. -/
  | take {slot : StoreSlot} (there : b.slots[i]? = some slot) (absent : b.find? s.address = none) :
    Enters b s i (max s.start slot.freeAt)

theorem exists_enters (slots : b.slots ≠ []) (s : Store) : ∃ i entered, b.Enters s i entered ∧
    b.execute s.start s.duration s.address = (entered, b.place i entered s.duration s.address) := by
  cases found : b.find? s.address with
  | some i =>
    obtain ⟨slot, there, tagged⟩ := exists_of_find? found
    refine ⟨i, s.start, .coalesce there tagged, ?_⟩
    unfold execute
    rw [found]
  | none =>
    have some_slots : b.freeAt ≠ [] := by
      unfold freeAt
      simpa using slots
    obtain ⟨u, falls, moved, -⟩ := Slots.assign_spec some_slots s.start
    obtain ⟨slot, there, rfl⟩ : ∃ slot, b.slots[(Slots.assign b.freeAt s.start).1]? = some slot ∧ slot.freeAt = u := by
      unfold freeAt at falls ⊢
      rw [List.getElem?_map] at falls
      exact Option.map_eq_some_iff.mp falls
    refine ⟨_, _, .take there found, ?_⟩
    unfold execute
    rw [found, ← moved]
    rfl

theorem Enters.exists_slot (h : b.Enters s i entered) : ∃ slot, b.slots[i]? = some slot := by
  cases h with
  | coalesce there => exact ⟨_, there⟩
  | take there => exact ⟨_, there⟩

theorem Enters.inside (h : b.Enters s i entered) : i < b.slots.length := by
  obtain ⟨slot, there⟩ := h.exists_slot
  exact (List.getElem?_eq_some_iff.mp there).1

/-- What the slots are after a store has entered one of them. -/
theorem getElem?_place (inside : i < b.slots.length) (j : Nat) (start duration : Time) :
    (b.place i start duration a).slots[j]? =
      if i = j then some { freeAt := start + duration, address := some a } else b.slots[j]? := by
  unfold place
  split
  · rename_i same
    rw [← same, List.getElem?_set_self inside]
  · rename_i other
    rw [List.getElem?_set_ne other]

/-- Where a store enters, no other slot has its address. -/
theorem Enters.alone (h : b.Enters s i entered) (distinct : b.Distinct) {j : Nat} (there : b.slots[j]? = some slot)
    (tagged : slot.address = some s.address) : i = j := by
  cases h with
  | coalesce there' tagged' => exact distinct _ _ _ _ _ there' there tagged' tagged
  | take _ absent => exact absurd tagged (find?_eq_none_iff.mp absent slot (List.mem_of_getElem? there))

theorem Enters.distinct (h : b.Enters s i entered) (distinct : b.Distinct) :
    (b.place i entered s.duration s.address).Distinct := by
  intro j k slot slot' a first second tagged tagged'
  rw [getElem?_place h.inside] at first second
  split at first <;> split at second
  · rename_i at_j at_k
    exact at_j.symm.trans at_k
  · rename_i at_j _
    cases first
    rw [← Option.some.inj tagged] at tagged'
    exact at_j.symm.trans (h.alone distinct second tagged')
  · rename_i _ at_k
    cases second
    rw [← Option.some.inj tagged'] at tagged
    exact (h.alone distinct first tagged).symm.trans at_k
  · exact distinct j k slot slot' a first second tagged tagged'

/-! ## Section 2: Histories -/

/-- How a store is placed: in the slot that has its address afterwards. -/
def placement (b : StoreBuffer) (s : Store) : Placement :=
  let (entered, b') := b.execute s.start s.duration s.address
  { slot := (b'.find? s.address).getD 0, address := s.address, entered, stop := entered + s.duration }

/-- Buffers a store and says how it has been placed. -/
def record (b : StoreBuffer) (s : Store) : Placement × StoreBuffer :=
  (b.placement s, (b.execute s.start s.duration s.address).2)

/-- How stores are placed in a new buffer of `n` slots. -/
def history (n : Nat) (stores : List Store) : List Placement := (replay record (new n) stores).1

/-- A buffer of `n` slots after stores. -/
def after (n : Nat) (stores : List Store) : StoreBuffer := (replay record (new n) stores).2

theorem history_concat (n : Nat) (stores : List Store) (s : Store) :
    history n (stores ++ [s]) = history n stores ++ [((after n stores).record s).1] := by
  unfold history after
  rw [replay_concat]

theorem after_concat (n : Nat) (stores : List Store) (s : Store) :
    after n (stores ++ [s]) = ((after n stores).record s).2 := by
  unfold after
  rw [replay_concat]

/-- The last store that was placed in slot `i`. -/
def lastIn (log : List Placement) (i : Nat) : Option Placement := log.reverse.find? fun p => p.slot == i

theorem lastIn_concat (log : List Placement) (p : Placement) (i : Nat) :
    lastIn (log ++ [p]) i = if p.slot = i then some p else lastIn log i := by
  unfold lastIn
  rw [List.reverse_append, List.reverse_singleton, List.singleton_append, List.find?_cons]
  by_cases here : p.slot = i
  · rw [if_pos here, beq_iff_eq.mpr here]
  · rw [if_neg here, beq_eq_false_iff_ne.mpr here]

/-- A store is the last one in its slot if those that come after it are in others. -/
theorem lastIn_of_split {before later : List Placement} (none : ∀ q ∈ later, q.slot ≠ p.slot) :
    lastIn (before ++ p :: later) p.slot = some p := by
  unfold lastIn
  have not_later : (later.reverse.find? fun q => q.slot == p.slot) = Option.none := by
    rw [List.find?_eq_none]
    intro q mem same
    exact none q (List.mem_reverse.mp mem) (beq_iff_eq.mp same)
  rw [List.reverse_append, List.reverse_cons, List.append_assoc, List.find?_append, not_later, Option.none_or,
    List.singleton_append, List.find?_cons, beq_self_eq_true]

theorem mem_of_lastIn (last : lastIn log i = some p) : p ∈ log ∧ p.slot = i := by
  unfold lastIn at last
  obtain ⟨same, -⟩ := List.find?_eq_some_iff_append.mp last
  exact ⟨List.mem_reverse.mp (List.mem_of_find?_eq_some last), beq_iff_eq.mp same⟩

/-- What a slot shows of the last store that was placed in it. -/
def shown : Option Placement → StoreSlot
  | none => {}
  | some p => { freeAt := p.stop, address := some p.address }

/-- The buffer keeps, of the stores that have been placed in it, the last one in each slot. -/
structure Keeps (b : StoreBuffer) (log : List Placement) : Prop where
  /-- There are slots. -/
  slots : b.slots ≠ []
  /-- No address has two of them. -/
  distinct : b.Distinct
  /-- Stores are placed in slots. -/
  inside : ∀ p ∈ log, p.slot < b.slots.length
  /-- Each slot shows the last store that was placed in it. -/
  shows : ∀ (i : Nat) (slot : StoreSlot), b.slots[i]? = some slot → slot = shown (lastIn log i)

theorem keeps_new (n : Nat) : (new n).Keeps [] := by
  have empty : ∀ (i : Nat) (slot : StoreSlot), (new n).slots[i]? = some slot → slot = {} := fun i slot there =>
    List.eq_of_mem_replicate (List.mem_of_getElem? there)
  refine ⟨?_, ?_, fun _ mem => absurd mem List.not_mem_nil, empty⟩
  · show List.replicate (max n 1) ({} : StoreSlot) ≠ []
    rw [← List.length_pos_iff, List.length_replicate]
    exact lt_max_of_lt_right Nat.one_pos
  · intro i j slot slot' a first _ tagged _
    rw [empty i slot first] at tagged
    cases tagged

/-- One more store: where and when it has entered, and that the buffer keeps it. -/
theorem Keeps.record (h : b.Keeps log) (s : Store) : ∃ i entered, b.Enters s i entered ∧
    (b.record s).1 = { slot := i, address := s.address, entered, stop := entered + s.duration } ∧
    (b.record s).2.Keeps (log ++ [(b.record s).1]) := by
  obtain ⟨i, entered, enters, executed⟩ := exists_enters h.slots s
  have distinct := enters.distinct h.distinct
  -- no other slot has that address, so the slot it went to is the one a look-up finds
  have there : (b.place i entered s.duration s.address).slots[i]? =
      some { freeAt := entered + s.duration, address := some s.address } := by
    rw [getElem?_place enters.inside, if_pos rfl]
  have placed : b.record s = ({ slot := i, address := s.address, entered, stop := entered + s.duration },
      b.place i entered s.duration s.address) := by
    unfold StoreBuffer.record placement
    rw [executed]
    dsimp only
    rw [distinct.find?_eq there rfl, Option.getD_some]
  have length : (b.place i entered s.duration s.address).slots.length = b.slots.length := List.length_set
  rw [placed]
  refine ⟨i, entered, enters, rfl, ?_, distinct, ?_, ?_⟩
  · rw [← List.length_pos_iff, length, List.length_pos_iff]
    exact h.slots
  · intro p mem
    rw [length]
    rcases List.mem_append.mp mem with old | new
    · exact h.inside p old
    · rw [List.mem_singleton.mp new]
      exact enters.inside
  · intro j slot at_j
    rw [lastIn_concat]
    rw [getElem?_place enters.inside] at at_j
    split at at_j
    · rename_i same
      rw [if_pos same]
      exact (Option.some.inj at_j).symm
    · rename_i other
      rw [if_neg other]
      exact h.shows j slot at_j

theorem keeps_after (n : Nat) (stores : List Store) : (after n stores).Keeps (history n stores) := by
  induction stores using List.reverseRecOn with
  | nil => exact keeps_new n
  | append_singleton stores s ih =>
    obtain ⟨-, -, -, -, keeps⟩ := ih.record s
    rw [history_concat, after_concat]
    exact keeps

/-! ## Section 3: Stores that outlive later ones -/

/-- No store is still in its slot when a later one to its address, which goes into the same slot, is over. -/
def NoneOutlived (log : List Placement) : Prop :=
  log.Pairwise fun p q => p.slot = q.slot → p.address = q.address → p.stop ≤ q.stop

/-- A store does not let its slot fall free earlier than before, unless it is to the address of the slot. -/
theorem Keeps.freeAt_le (h : b.Keeps log) (enters : b.Enters s i entered) (there : b.slots[i]? = some slot)
    (outlived : ∀ p ∈ log, p.slot = i → p.address = s.address → p.stop ≤ entered + s.duration) :
    slot.freeAt ≤ entered + s.duration := by
  cases enters with
  | coalesce there' tagged =>
    rw [there] at there'
    rw [← Option.some.inj there'] at tagged
    have shows := h.shows i slot there
    cases last : lastIn log i with
    | none =>
      rw [shows, last] at tagged
      cases tagged
    | some p =>
      rw [last] at shows
      rw [shows] at tagged ⊢
      obtain ⟨mem, at_i⟩ := mem_of_lastIn last
      exact outlived p mem at_i (Option.some.inj tagged)
  | take there' =>
    rw [there] at there'
    rw [← Option.some.inj there']
    exact (le_max_right _ _).trans (Time.le_add_right _ _)

/-- A slot is free only when all stores that were placed in it are over, if none of them outlives one that goes into the
slot of its address. -/
theorem stop_le_freeAt {stores : List Store} (outlived : NoneOutlived (history n stores)) :
    ∀ p ∈ history n stores, ∀ slot, (after n stores).slots[p.slot]? = some slot → p.stop ≤ slot.freeAt := by
  induction stores using List.reverseRecOn with
  | nil => exact fun _ mem => absurd mem List.not_mem_nil
  | append_singleton stores s ih =>
    have keeps := keeps_after n stores
    have keeps' := keeps_after n (stores ++ [s])
    obtain ⟨i, entered, enters, placed, -⟩ := keeps.record s
    rw [history_concat, placed] at outlived keeps' ⊢
    obtain ⟨front, -, last⟩ := List.pairwise_append.mp outlived
    intro p mem slot there
    rw [keeps'.shows p.slot slot there, lastIn_concat]
    rcases List.mem_append.mp mem with old | new
    · -- an older store: the slot was busy until it is over
      obtain ⟨slot₀, there₀⟩ : ∃ slot₀, (after n stores).slots[p.slot]? = some slot₀ :=
        ⟨_, List.getElem?_eq_getElem (keeps.inside p old)⟩
      have before := ih front p old slot₀ there₀
      dsimp only
      split
      · rename_i same
        subst same
        refine before.trans (keeps.freeAt_le enters there₀ fun q mem at_i to_a => ?_)
        exact last q mem _ List.mem_cons_self at_i to_a
      · rw [← keeps.shows p.slot slot₀ there₀]
        exact before
    · rw [List.mem_singleton.mp new, if_pos rfl]
      exact le_refl _

/-! ## Section 4: What lookups say -/

/-- No address has two slots of a store buffer.  A slot falls free when the last store that was placed in it is over,
and as long as no other one is placed there, a lookup of its address finds the store valid until then and completed
afterwards.  If no store outlives a later one that goes into the slot of its address, then no slot falls free before all
stores that were placed in it are over, and a lookup of an address that has a slot finds its stores valid until all of
those that were placed there are over. -/
theorem shows_last_stores (n : Nat) (stores : List Store) :
    (after n stores).Distinct ∧
      (∀ before p later, history n stores = before ++ p :: later → (∀ q ∈ later, q.slot ≠ p.slot) →
        (∃ slot, (after n stores).slots[p.slot]? = some slot ∧ slot.freeAt = p.stop) ∧
        ∀ t, (after n stores).lookup t p.address = if t ≤ p.stop then .valid else .completed) ∧
      (NoneOutlived (history n stores) → ∀ p ∈ history n stores,
        ∃ slot, (after n stores).slots[p.slot]? = some slot ∧ p.stop ≤ slot.freeAt ∧
          (slot.address = some p.address → ∀ t, t ≤ p.stop → (after n stores).lookup t p.address = .valid)) := by
  have keeps := keeps_after n stores
  have exists_slot : ∀ p ∈ history n stores, ∃ slot, (after n stores).slots[p.slot]? = some slot := fun p mem =>
    ⟨_, List.getElem?_eq_getElem (keeps.inside p mem)⟩
  refine ⟨keeps.distinct, ?_, ?_⟩
  · intro before p later split last
    obtain ⟨slot, there⟩ := exists_slot p (split ▸ List.mem_append_right _ List.mem_cons_self)
    have shows := keeps.shows p.slot slot there
    rw [split, lastIn_of_split last] at shows
    subst shows
    exact ⟨⟨_, there, rfl⟩, keeps.distinct.lookup_eq there rfl⟩
  · intro outlived p mem
    obtain ⟨slot, there⟩ := exists_slot p mem
    have busy := stop_le_freeAt outlived p mem slot there
    refine ⟨slot, there, busy, fun tagged t early => ?_⟩
    rw [keeps.distinct.lookup_eq there tagged, if_pos (early.trans busy)]

/-- Stores to a first address, before and after one to a second address, whose slot a third address takes. -/
def storesToThree : List Store :=
  [{ start := .ofNat 0, duration := .ofNat 10, address := 64 },
    { start := .ofNat 0, duration := .ofNat 4, address := 128 },
    { start := .ofNat 1, duration := .ofNat 12, address := 64 },
    { start := .ofNat 5, duration := .ofNat 3, address := 192 }]

/-- The stores to the first address go into one slot, which is busy until both are over. -/
theorem shows_last_stores_to_three :
    history 2 storesToThree = [⟨0, 64, .ofNat 0, .ofNat 10⟩, ⟨1, 128, .ofNat 0, .ofNat 4⟩, ⟨0, 64, .ofNat 1, .ofNat 13⟩,
      ⟨1, 192, .ofNat 5, .ofNat 8⟩] ∧ NoneOutlived (history 2 storesToThree) ∧
      (∀ t, (after 2 storesToThree).lookup t 64 = if t ≤ .ofNat 13 then .valid else .completed) ∧
      (∀ t, t ≤ .ofNat 10 → (after 2 storesToThree).lookup t 64 = .valid) ∧
      (after 2 storesToThree).lookup (.ofNat 4) 128 = .notFound := by
  have log : history 2 storesToThree = [⟨0, 64, .ofNat 0, .ofNat 10⟩, ⟨1, 128, .ofNat 0, .ofNat 4⟩,
      ⟨0, 64, .ofNat 1, .ofNat 13⟩, ⟨1, 192, .ofNat 5, .ofNat 8⟩] := by decide
  have outlived : NoneOutlived (history 2 storesToThree) := by
    rw [log]
    unfold NoneOutlived
    decide
  obtain ⟨-, last, all⟩ := shows_last_stores 2 storesToThree
  obtain ⟨⟨slot, there, -⟩, lookups⟩ := last [⟨0, 64, .ofNat 0, .ofNat 10⟩, ⟨1, 128, .ofNat 0, .ofNat 4⟩]
    ⟨0, 64, .ofNat 1, .ofNat 13⟩ [⟨1, 192, .ofNat 5, .ofNat 8⟩] log (by decide)
  refine ⟨log, outlived, lookups, fun t early => ?_, by decide⟩
  rw [lookups, if_pos (early.trans (by decide))]

/-- A store of ten units of time, and one to the same address that is over after two. -/
def outlivingStores : List Store :=
  [{ start := .ofNat 0, duration := .ofNat 10, address := 256 },
    { start := .ofNat 1, duration := .ofNat 1, address := 256 }]

/-- A store that outlives a later one in its slot is forgotten: long before it is over, a lookup of its address finds
stores to it completed, and the slot is given to another address. -/
theorem outlived_store_forgotten :
    InTimeOrder (outlivingStores.map Store.toRequest) ∧
      history 1 outlivingStores = [⟨0, 256, .ofNat 0, .ofNat 10⟩, ⟨0, 256, .ofNat 1, .ofNat 2⟩] ∧
      (after 1 outlivingStores).lookup (.ofNat 5) 256 = .completed ∧
      ((after 1 outlivingStores).execute (.ofNat 5) (.ofNat 3) 512).1 = .ofNat 5 := by
  decide

end StoreBuffer

end CoreTiming
