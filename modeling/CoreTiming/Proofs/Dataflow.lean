import CoreTiming.Proofs.Bookkeeping
import CoreTiming.Proofs.Passage

/-!
# Dataflow

A micro-op issues after the results that it reads are available: those of the youngest older writers
of its registers and, for a load, that of the youngest older store to its address, or what that store
waits for if stores are forwarded.

Between the time at which a micro-op enters the window and the time at which it issues, each of these
results is on its way in one of three forms (`Account.Reaches`).  The invariant `Account.Heeding` says
that none of them is lost, however dispatch, issue, commit and flushes interleave.
-/

namespace CoreTiming

/-! ## Section 1: What a micro-op needs -/

/-- The micro-op at position `k` needs the result of one of the positions `js`. -/
inductive Needs (forwarding : Bool) (prog : List OpInstance) : (k : Nat) → (js : List Nat) → Prop
  /-- It reads a register that `j` writes. -/
  | register {k j : Nat} {u : OpInstance} {r : Register} (at_k : prog[k]? = some u)
      (reads : r ∈ u.op.sources) (tracked : r < numRegisters)
      (writer : Youngest prog (OpInstance.Writes r) k j) : Needs forwarding prog k [j]
  /-- It loads what `s` stores. -/
  | memory {k s : Nat} {u : OpInstance} (direct : forwarding = false) (at_k : prog[k]? = some u)
      (load : u.op.isLoad = true) (store : Youngest prog (OpInstance.StoresTo u.address) k s) :
      Needs forwarding prog k [s]
  /-- It loads what `s` stores, and `s` reads a register that `j` writes.  The result of `s` will do,
  since `s` itself needs that of `j`. -/
  | forwarded {k s j : Nat} {u v : OpInstance} {r : Register} (passed : forwarding = true)
      (at_k : prog[k]? = some u) (load : u.op.isLoad = true)
      (store : Youngest prog (OpInstance.StoresTo u.address) k s) (at_s : prog[s]? = some v)
      (reads : r ∈ v.op.sources) (tracked : r < numRegisters)
      (writer : Youngest prog (OpInstance.Writes r) s j) : Needs forwarding prog k [j, s]

namespace Needs

variable {forwarding : Bool} {prog : List OpInstance} {u : OpInstance} {js : List Nat} {j k : Nat}

/-- What a micro-op needs does not depend on what is pushed behind it. -/
theorem of_append (h : Needs forwarding (prog ++ [u]) k js) (hk : k < prog.length) :
    Needs forwarding prog k js := by
  have front : ∀ {m : Nat} {v : OpInstance}, (prog ++ [u])[m]? = some v → m < prog.length →
      prog[m]? = some v := by
    intro m v hm inside
    rwa [List.getElem?_append_left inside] at hm
  cases h with
  | register at_k reads tracked writer =>
    exact .register (front at_k hk) reads tracked (writer.of_append (by omega))
  | memory direct at_k load store =>
    exact .memory direct (front at_k hk) load (store.of_append (by omega))
  | forwarded passed at_k load store at_s reads tracked writer =>
    have := store.before
    exact .forwarded passed (front at_k hk) load (store.of_append (by omega))
      (front at_s (by omega)) reads tracked (writer.of_append (by omega))

/-- Only older results are needed. -/
theorem lt (h : Needs forwarding prog k js) (mem : j ∈ js) : j < k := by
  cases h with
  | register at_k reads tracked writer =>
    rw [List.mem_singleton] at mem
    rw [mem]
    exact writer.before
  | memory direct at_k load store =>
    rw [List.mem_singleton] at mem
    rw [mem]
    exact store.before
  | forwarded passed at_k load store at_s reads tracked writer =>
    have := store.before
    have := writer.before
    rcases List.mem_cons.mp mem with rfl | mem
    · omega
    · rw [List.mem_singleton] at mem
      omega

end Needs

/-- Stores write no registers. -/
def StoresWriteNothing (prog : List OpInstance) : Prop :=
  ∀ u ∈ prog, u.op.isStore = true → u.op.destinations = []

/-! ## Section 2: How a result reaches its reader -/

/-- The entry `e'` is `e` later on, before `e` has issued. -/
structure Entry.Continues (e e' : Entry) : Prop where
  /-- The number is the same. -/
  seq_eq : e'.seq = e.seq
  /-- It has entered the window when it had. -/
  dispatched_eq : e'.dispatched = e.dispatched
  /-- It has issued when it had. -/
  issued_eq : e'.issued = e.issued
  /-- Its result is available no later. -/
  done_le : e'.done ≤ e.done
  /-- What it had been told of its producers is not forgotten. -/
  readyMax_le : e.readyMax ≤ e'.readyMax
  /-- It waits for the producers that it waited for. -/
  producers : ∀ q ∈ e.u.producers.toList, q ∈ e'.u.producers.toList
  /-- It wakes the consumers that it was to wake. -/
  dependants : ∀ q ∈ e.dependants.toList, q ∈ e'.dependants.toList

namespace Entry

variable {e e' : Entry}

theorem Continues.refl (e : Entry) : e.Continues e :=
  ⟨rfl, rfl, rfl, le_refl _, le_refl _, fun _ h => h, fun _ h => h⟩

theorem SamePoint.continues (h : e.SamePoint e') : e.Continues e' := by
  rw [h]
  exact ⟨rfl, rfl, rfl, le_refl _, le_refl _, fun _ h => h, fun _ h => h⟩

theorem Listed.continues {consumer : Nat} (h : e.Listed consumer e') : e.Continues e' := by
  have keeps := h.keeps
  rw [h.frame]
  exact ⟨rfl, rfl, rfl, le_refl _, le_refl _, fun _ h => h, keeps⟩

end Entry

namespace Account

variable {config : Config} {a b : Account} {e p : Entry} {j k : Nat}

/-- The result of `p`, which stands at position `j`, reaches `e`: it is part of what `e` has been told,
it was available when `e` entered the window, or `e` waits for `p`, and `p` will tell it. -/
def Reaches (a : Account) (j : Nat) (p e : Entry) : Prop :=
  p.done ≤ e.readyMax ∨ p.done ≤ e.dispatched ∨
    (p.seq ∈ e.u.producers.toList ∧ (a.retired.length ≤ j → e.seq ∈ p.dependants.toList))

theorem Reaches.continue {p' e' : Entry} (h : a.Reaches j p e) (hp : p.Continues p')
    (he : e.Continues e') (left : a.retired.length ≤ b.retired.length) : b.Reaches j p' e' := by
  rcases h with told | before | ⟨waits, tells⟩
  · exact .inl (le_trans hp.done_le (le_trans told he.readyMax_le))
  · refine .inr (.inl ?_)
    rw [he.dispatched_eq]
    exact le_trans hp.done_le before
  · refine .inr (.inr ⟨?_, fun inRing => ?_⟩)
    · rw [hp.seq_eq]
      exact he.producers _ waits
    · rw [he.seq_eq]
      exact hp.dependants _ (tells (by omega))

/-- No result is lost on its way. -/
structure Heeding (config : Config) (a : Account) : Prop where
  /-- What an entry in the window needs reaches it. -/
  reached : ∀ (k : Nat) (js : List Nat) (e : Entry),
    Needs config.window.forwarding a.pushed k js → a.retired.length ≤ k → k < a.edge →
      a.entries[k]? = some e → ∃ j ∈ js, ∃ p, a.entries[j]? = some p ∧ a.Reaches j p e
  /-- What has issued had what it needed. -/
  kept : ∀ (k : Nat) (js : List Nat) (e : Entry),
    Needs config.window.forwarding a.pushed k js → k < a.edge → a.entries[k]? = some e →
      ∃ j ∈ js, ∃ p, a.entries[j]? = some p ∧ p.done ≤ e.issued

theorem heeding_of_edge (h : a.edge = 0) : Heeding config a := by
  refine ⟨fun k js e _ _ inside => ?_, fun k js e _ inside => ?_⟩
  · omega
  · omega

/-! ## Section 3: Steps on which nothing enters or issues -/

/-- Entries inside the window go on as they were. -/
theorem Heeding.continue (h : Heeding config a)
    (needs : ∀ k js, k < a.edge → Needs config.window.forwarding b.pushed k js →
      Needs config.window.forwarding a.pushed k js)
    (left : a.retired.length ≤ b.retired.length) (edge : b.edge ≤ a.edge)
    (entries : ∀ k, k < b.edge → Option.Rel Entry.Continues a.entries[k]? b.entries[k]?) :
    Heeding config b := by
  refine ⟨fun k js x need inRing inside hx => ?_, fun k js x need inside hx => ?_⟩
  · have need := needs k js (by omega) need
    obtain ⟨y, hy, hyx⟩ := rel_right (entries k inside) hx
    obtain ⟨j, mem, p, hp, reaches⟩ := h.reached k js y need (by omega) (by omega) hy
    have older := need.lt mem
    obtain ⟨p', hp', hpp'⟩ := rel_left (entries j (by omega)) hp
    exact ⟨j, mem, p', hp', reaches.continue hpp' hyx left⟩
  · have need := needs k js (by omega) need
    obtain ⟨y, hy, hyx⟩ := rel_right (entries k inside) hx
    obtain ⟨j, mem, p, hp, kept⟩ := h.kept k js y need (by omega) hy
    have older := need.lt mem
    obtain ⟨p', hp', hpp'⟩ := rel_left (entries j (by omega)) hp
    refine ⟨j, mem, p', hp', ?_⟩
    rw [hyx.issued_eq]
    exact le_trans hpp'.done_le kept

theorem Heeding.quiet (h : Heeding config a) (same : a.SameBooks b)
    (entries : Pointwise Entry.SamePoint a.entries b.entries) : Heeding config b := by
  refine h.continue ?_ (le_of_eq (congrArg _ same.retired.symm)) (le_of_eq same.edge_eq) ?_
  · intro k js _ need
    rwa [same.pushed] at need
  · intro k _
    exact (entries.mono fun _ _ => Entry.SamePoint.continues) k

theorem Heeding.take {u : OpInstance} (h : Heeding config a) (order : InOrder config a)
    (takes : Takes a b u e) : Heeding config b := by
  have inside := order.edge_le
  have length : a.pushed.length = a.entries.length := by
    have := congrArg List.length order.program
    rw [List.length_map, List.length_map] at this
    exact this.symm
  refine h.continue ?_ (le_of_eq (congrArg _ takes.retired.symm)) (le_of_eq takes.edge_eq) ?_
  · intro k js within need
    rw [takes.pushed] at need
    exact need.of_append (by omega)
  · intro k within
    rw [takes.edge_eq] at within
    rw [takes.entries, List.getElem?_append_left (by omega)]
    exact Pointwise.refl Entry.Continues.refl _ k

theorem Heeding.release (h : Heeding config a) (oldest : a.thread.oldest? = some e) :
    Heeding config (a.release config e) := by
  refine h.continue (fun _ _ _ => id) ?_ (le_of_eq (edge_release oldest)) ?_
  · rw [length_release]
    exact Nat.le_succ _
  · intro k _
    rw [entries_release config oldest]
    exact Pointwise.refl Entry.Continues.refl _ k

theorem Heeding.restart (h : Heeding config a) (restarts : Restarts a b) : Heeding config b := by
  have edge := restarts.edge_eq
  refine h.continue ?_ (le_of_eq (congrArg _ restarts.retired.symm)) ?_ ?_
  · intro k js _ need
    rwa [restarts.pushed] at need
  · unfold Account.edge at *
    omega
  · intro k within
    rw [restarts.left k (by omega)]
    exact Pointwise.refl Entry.Continues.refl _ k

/-! ## Section 4: An entry enters the window -/

/-- Entries that were in the window already go on as they were. -/
theorem Enters.continues {e' : Entry} {th : Thread} (enters : Enters config a b e e' th)
    (hk : k < a.edge) : Option.Rel Entry.Continues a.entries[k]? b.entries[k]? :=
  rel_mono (fun _ _ => Entry.Listed.continues) (enters.others k (Nat.ne_of_lt hk))

/-- A producer in flight that linking has heeded reaches the entry. -/
theorem Enters.reaches_of_heeds {e' : Entry} {th : Thread} (enters : Enters config a b e e' th)
    (order : InOrder config a) (inRing : a.retired.length ≤ j) (older : j < a.edge)
    (at_j : a.entries[j]? = some p) (heeds : a.thread.Heeds th e' p.seq) {x : Entry}
    (at_edge : b.entries[a.edge]? = some x) :
    ∃ p', b.entries[j]? = some p' ∧ b.Reaches j p' x := by
  rw [enters.entered] at at_edge
  cases at_edge
  obtain ⟨i, p₀, hp₀, same, delivered⟩ := heeds
  -- the producer is where its number says
  rw [← entries_add] at hp₀
  obtain rfl : j = a.retired.length + i := order.position_unique at_j hp₀ same.symm
  rw [at_j] at hp₀
  cases hp₀
  obtain ⟨p', at_j', listed⟩ := rel_left (enters.others _ (Nat.ne_of_lt older)) at_j
  refine ⟨p', at_j', ?_⟩
  rcases delivered with told | ⟨waits, p'', hp'', tells⟩
  · refine .inl ?_
    rw [listed.done_eq]
    exact told
  · refine .inr (.inr ⟨?_, fun _ => ?_⟩)
    · rw [listed.seq_eq]
      exact waits
    · have inside : i ≠ a.thread.inWindow := by
        unfold edge at older
        omega
      rw [enters.ring i inside, hp''] at at_j'
      cases at_j'
      exact tells

/-- A producer that has left was done before the entry entered the window. -/
theorem Enters.reaches_of_left {e' : Entry} {th : Thread} (enters : Enters config a b e e' th)
    (timed : Timed a) (left : j < a.retired.length) {x : Entry}
    (at_edge : b.entries[a.edge]? = some x) : ∃ p', b.entries[j]? = some p' ∧ b.Reaches j p' x := by
  rw [enters.entered] at at_edge
  cases at_edge
  obtain ⟨r, hr⟩ : ∃ r, a.retired[j]? = some r := ⟨_, List.getElem?_eq_getElem left⟩
  refine ⟨r.entry, ?_, .inr (.inl (timed.settled r (List.mem_of_getElem? hr)))⟩
  rw [enters.left j left, entries_of_lt left, hr]
  rfl

/-- What linking looks for on behalf of a register. -/
theorem Tabled.mem_sought_of_writer (h : Tabled a) (order : InOrder config a) {r : Register}
    {u : OpInstance} (next : a.entries[a.edge]? = some e) (at_edge : a.pushed[a.edge]? = some u)
    (reads : r ∈ u.op.sources) (tracked : r < numRegisters) (inRing : a.retired.length ≤ j)
    (writer : Youngest a.pushed (OpInstance.Writes r) a.edge j) (at_j : a.entries[j]? = some p) :
    p.seq ∈ a.thread.sought e.fetched := by
  obtain ⟨v, hv, op, -⟩ := order.op_of_entry next
  rw [at_edge] at hv
  cases hv
  have live := h.writers r j p tracked inRing writer at_j
  unfold Thread.sought
  rw [order.lowest_eq next]
  refine List.mem_append_left _ (List.mem_append_right _ ?_)
  show p.seq ∈ e.u.op.sources.filterMap _
  rw [← op]
  exact List.mem_filterMap.mpr ⟨r, reads, live⟩

/-- What linking looks for on behalf of a load. -/
theorem Tabled.mem_sought_of_store (h : Tabled a) (order : InOrder config a) {u : OpInstance}
    (next : a.entries[a.edge]? = some e) (at_edge : a.pushed[a.edge]? = some u)
    (load : u.op.isLoad = true) (inRing : a.retired.length ≤ j)
    (store : Youngest a.pushed (OpInstance.StoresTo u.address) a.edge j)
    (at_j : a.entries[j]? = some p) : p.seq ∈ a.thread.sought e.fetched := by
  obtain ⟨v, hv, op, address⟩ := order.op_of_entry next
  rw [at_edge] at hv
  cases hv
  have found := h.find?_eq order inRing store at_j
  unfold Thread.sought
  rw [order.lowest_eq next]
  refine List.mem_append_right _ ?_
  unfold StoreTable.sought
  have isLoad : e.fetched.u.op.isLoad = true := by
    show e.u.op.isLoad = true
    rw [← op]
    exact load
  rw [if_pos isLoad]
  refine List.mem_append_left _ ?_
  show p.seq ∈ ((a.thread.stores.clean a.thread.base).find? e.u.address).toList
  rw [← address, found]
  exact Option.mem_toList.mpr rfl

/-- A producer in the ring that linking looks for reaches the entry, or it is a store, and linking heeds
what that store waits for in its place. -/
theorem Enters.reaches_or_passes {e' : Entry} {th : Thread} (enters : Enters config a b e e' th)
    (order : InOrder config a) (inRing : a.retired.length ≤ j) (older : j < a.edge)
    (at_j : a.entries[j]? = some p) (sought : p.seq ∈ a.thread.sought e.fetched) {x : Entry}
    (at_edge : b.entries[a.edge]? = some x) :
    (∃ p', b.entries[j]? = some p' ∧ b.Reaches j p' x) ∨
      config.window.forwarding = true ∧ p.u.op.isStore = true ∧ p.readyMax ≤ e'.readyMax ∧
        ∀ q ∈ p.u.producers.toList, a.thread.base ≤ q → a.thread.Heeds th e' q := by
  have lowest := order.lowest_eq enters.next
  have alive : a.thread.oldestSeq e.fetched ≤ p.seq := by
    have := order.seq_of_le inRing at_j
    omega
  rcases enters.linked.heeds p.seq sought alive with heeds | ⟨on, -, passes⟩
  · exact .inl (enters.reaches_of_heeds order inRing older at_j heeds at_edge)
  · obtain ⟨i, z, hz, same, isStore, ready, all⟩ := passes
    -- the store that is passed is the entry with its number
    rw [← entries_add] at hz
    obtain rfl := order.position_unique at_j hz same.symm
    rw [at_j] at hz
    cases hz
    rw [lowest] at all
    exact .inr ⟨on, isStore, ready, all⟩

/-- What reaches a store that is passed reaches the load. -/
theorem Enters.reaches_through {e' y : Entry} {th : Thread} {s : Nat}
    (enters : Enters config a b e e' th) (order : InOrder config a) (timed : Timed a)
    (at_s : a.entries[s]? = some y) (older : s < a.edge) (ready : y.readyMax ≤ e'.readyMax)
    (all : ∀ q ∈ y.u.producers.toList, a.thread.base ≤ q → a.thread.Heeds th e' q)
    (inRing : a.retired.length ≤ j) (oldest : j < s) (at_j : a.entries[j]? = some p)
    (reaches : a.Reaches j p y) {x : Entry} (at_edge : b.entries[a.edge]? = some x) :
    ∃ p', b.entries[j]? = some p' ∧ b.Reaches j p' x := by
  rcases reaches with told | before | ⟨waits, -⟩
  · obtain ⟨p', hp', later⟩ := rel_left (enters.continues (Nat.lt_trans oldest older)) at_j
    rw [enters.entered] at at_edge
    cases at_edge
    exact ⟨p', hp', .inl (le_trans later.done_le (le_trans told ready))⟩
  · obtain ⟨p', hp', later⟩ := rel_left (enters.continues (Nat.lt_trans oldest older)) at_j
    rw [enters.entered] at at_edge
    cases at_edge
    have dispatched := timed.dispatched_le s y at_s older
    exact ⟨p', hp', .inr (.inl (le_trans later.done_le (le_trans before dispatched)))⟩
  · have alive : a.thread.base ≤ p.seq := by
      have := order.seq_of_le inRing at_j
      omega
    exact enters.reaches_of_heeds order inRing (Nat.lt_trans oldest older) at_j
      (all p.seq waits alive) at_edge

/-- What the entry that enters needs reaches it. -/
theorem Heeding.reached_enter {e' : Entry} {th : Thread} (h : Heeding config a)
    (order : InOrder config a) (timed : Timed a) (tabled : Tabled a)
    (storeless : StoresWriteNothing a.pushed) (enters : Enters config a b e e' th) {js : List Nat}
    (need : Needs config.window.forwarding a.pushed a.edge js) {x : Entry}
    (at_edge : b.entries[a.edge]? = some x) :
    ∃ j ∈ js, ∃ p, b.entries[j]? = some p ∧ b.Reaches j p x := by
  have inside := order.edge_le
  have entry : ∀ {m}, m < a.edge → ∃ y, a.entries[m]? = some y := by
    intro m hm
    exact ⟨_, List.getElem?_eq_getElem (by omega)⟩
  -- whoever has left has delivered; of the others, the tables name all but the store that is passed over
  cases need with
  | @register j u r at_k reads tracked writer =>
    have older := writer.before
    refine ⟨j, List.mem_cons_self, ?_⟩
    by_cases left : j < a.retired.length
    · exact enters.reaches_of_left timed left at_edge
    rw [not_lt] at left
    obtain ⟨p, hp⟩ := entry older
    have mem := tabled.mem_sought_of_writer order enters.next at_k reads tracked left writer hp
    rcases enters.reaches_or_passes order left older hp mem at_edge with reaches | ⟨-, isStore, -⟩
    · exact reaches
    · -- a store is never the writer of a register
      obtain ⟨v, hv, op, -⟩ := order.op_of_entry hp
      obtain ⟨w, hw, writes⟩ := writer.holds
      rw [hv] at hw
      cases hw
      have none := storeless v (List.mem_of_getElem? hv) (by rw [op]; exact isStore)
      unfold OpInstance.Writes at writes
      rw [none] at writes
      cases writes
  | @memory s u direct at_k load store =>
    have older := store.before
    refine ⟨s, List.mem_cons_self, ?_⟩
    by_cases left : s < a.retired.length
    · exact enters.reaches_of_left timed left at_edge
    rw [not_lt] at left
    obtain ⟨p, hp⟩ := entry older
    have mem := tabled.mem_sought_of_store order enters.next at_k load left store hp
    rcases enters.reaches_or_passes order left older hp mem at_edge with reaches | ⟨on, -⟩
    · exact reaches
    · rw [direct] at on
      cases on
  | @forwarded s j u v r on at_k load store at_s reads tracked writer =>
    have older := store.before
    have oldest := writer.before
    by_cases left : s < a.retired.length
    · exact ⟨j, List.mem_cons_self, enters.reaches_of_left timed (by omega) at_edge⟩
    rw [not_lt] at left
    obtain ⟨y, hy⟩ := entry older
    have mem := tabled.mem_sought_of_store order enters.next at_k load left store hy
    rcases enters.reaches_or_passes order left older hy mem at_edge with
      reaches | ⟨-, -, ready, all⟩
    · exact ⟨s, List.mem_cons_of_mem _ List.mem_cons_self, reaches⟩
    · -- what reaches the store now reaches the load
      refine ⟨j, List.mem_cons_self, ?_⟩
      by_cases gone : j < a.retired.length
      · exact enters.reaches_of_left timed gone at_edge
      rw [not_lt] at gone
      obtain ⟨_, only, p, hp, reaches⟩ := h.reached s [j] y
        (.register at_s reads tracked writer) left older hy
      rw [List.mem_singleton] at only
      rw [only] at hp reaches
      exact enters.reaches_through order timed hy older ready all gone oldest hp reaches at_edge

theorem Heeding.enter {e' : Entry} {th : Thread} (h : Heeding config a)
    (order : InOrder config a) (timed : Timed a) (tabled : Tabled a)
    (storeless : StoresWriteNothing a.pushed) (enters : Enters config a b e e' th) :
    Heeding config b := by
  have edge := enters.edge_eq
  have left : a.retired.length = b.retired.length := by rw [enters.retired]
  refine ⟨fun k js x need inRing inside hx => ?_, fun k js x need inside hx => ?_⟩
  · rw [enters.pushed] at need
    rcases enters.entry_before hx with ⟨rfl, -⟩ | ⟨hne, y, hy, listed⟩
    · exact h.reached_enter order timed tabled storeless enters need hx
    · obtain ⟨j, mem, p, hp, reaches⟩ := h.reached k js y need (by omega) (by omega) hy
      have older := need.lt mem
      obtain ⟨p', hp', hpp'⟩ := rel_left (enters.continues (by omega)) hp
      exact ⟨j, mem, p', hp', reaches.continue hpp' listed.continues (le_of_eq left)⟩
  · rw [enters.pushed] at need
    rcases enters.entry_before hx with ⟨rfl, -⟩ | ⟨hne, y, hy, listed⟩
    · -- what has just entered has not issued
      obtain ⟨j, mem, p, hp, -⟩ := h.reached_enter order timed tabled storeless enters need hx
      refine ⟨j, mem, p, hp, ?_⟩
      rw [(enters.not_issued timed hx (Nat.le_refl _)).1]
      exact Time.le_never _
    · obtain ⟨j, mem, p, hp, kept⟩ := h.kept k js y need (by omega) hy
      have older := need.lt mem
      obtain ⟨p', hp', hpp'⟩ := rel_left (enters.continues (by omega)) hp
      refine ⟨j, mem, p', hp', ?_⟩
      rw [listed.continues.issued_eq]
      exact le_trans hpp'.done_le kept

/-! ## Section 5: An entry issues -/

/-- A producer after an entry, possibly itself, has issued. -/
theorem Issues.producer_after {done : Time} {i : Nat} (issues : Issues a b i e done)
    (at_j : a.entries[j]? = some p) :
    ∃ p', b.entries[j]? = some p' ∧ p'.done ≤ p.done ∧ p'.seq = p.seq ∧
      p'.dependants = p.dependants ∧ (j = i → p = e ∧ p'.done = done) := by
  by_cases same : j = i
  · subst same
    rw [issues.entry] at at_j
    cases at_j
    obtain ⟨p', hp', woken⟩ := issues.exists_issued
    refine ⟨p', hp', ?_, ?_, ?_, fun _ => ⟨rfl, ?_⟩⟩
    · rw [issues.waiting]
      exact Time.le_never _
    · exact woken.seq_eq
    · rw [woken.frame]
    · rw [woken.frame]
  · obtain ⟨p', hp', woken⟩ := issues.exists_other same at_j
    refine ⟨p', hp', ?_, woken.seq_eq, ?_, fun h => absurd h same⟩
    · rw [woken.frame]
    · rw [woken.frame]

/-- What reaches an entry still does after another one has issued: if that was the producer, the entry
has been told. -/
theorem Issues.reaches {done : Time} {i : Nat} {x y p' : Entry} (issues : Issues a b i e done)
    (order : InOrder config a) (order' : InOrder config b) (at_k : b.entries[k]? = some x)
    (woken : y.Woken e.seq done x) (at_j : a.entries[j]? = some p) (at_j' : b.entries[j]? = some p')
    (reaches : a.Reaches j p y) : b.Reaches j p' x := by
  obtain ⟨p'', hp'', done_le, seq_eq, dependants, self⟩ := issues.producer_after at_j
  rw [at_j'] at hp''
  cases hp''
  have left : b.retired.length = a.retired.length := by rw [issues.same.retired]
  rcases reaches with told | before | ⟨waits, tells⟩
  · exact .inl (le_trans done_le (le_trans told woken.readyMax_le))
  · refine .inr (.inl ?_)
    rw [woken.frame]
    exact le_trans done_le before
  · by_cases same : j = i
    · -- the producer has issued, and has told all its consumers
      obtain ⟨rfl, done_eq⟩ := self same
      have inRing := issues.inRing
      obtain ⟨m, z, hz, hseq, told⟩ := issues.exists_told (tells (by omega))
      have : m = k := order'.position_unique hz at_k (by rw [hseq, woken.seq_eq])
      rw [this, at_k] at hz
      cases hz
      refine .inl ?_
      rw [done_eq]
      exact told
    · refine .inr (.inr ⟨?_, fun inRing => ?_⟩)
      · rw [seq_eq]
        refine woken.keeps _ waits fun clash => same ?_
        exact order.position_unique at_j issues.entry clash
      · rw [woken.seq_eq, dependants]
        exact tells (by omega)

/-- By the time at which an entry issues, what reaches it is there. -/
theorem Reaches.done_le (h : a.Reaches j p e) (timely : e.Timely) {now : Time}
    (ready : e.ready ≤ now) (dispatched : e.dispatched ≤ now) : p.done ≤ now := by
  rcases h with told | before | ⟨waits, -⟩
  · exact le_trans told (le_trans timely.readyMax_le ready)
  · exact le_trans before dispatched
  · -- an entry that waits is not ready before the end of time
    have never : e.ready = .never := timely.ready_eq (List.ne_nil_of_mem waits)
    rw [never] at ready
    exact le_trans (Time.le_never _) ready

theorem Heeding.issue {done : Time} {i : Nat} (h : Heeding config a) (order : InOrder config a)
    (order' : InOrder config b) (timed : Timed a) (issues : Issues a b i e done) :
    Heeding config b := by
  have edge := issues.same.edge_eq
  have left : b.retired.length = a.retired.length := by rw [issues.same.retired]
  refine ⟨fun k js x need inRing inside hx => ?_, fun k js x need inside hx => ?_⟩
  · rw [issues.same.pushed] at need
    -- the entry as it was, but for the times at which it issued
    obtain ⟨y, woken, j, mem, p, hp, reaches⟩ : ∃ y, y.Woken e.seq done x ∧
        ∃ j ∈ js, ∃ p, a.entries[j]? = some p ∧ a.Reaches j p y := by
      rcases issues.entry_before hx with ⟨rfl, woken⟩ | ⟨-, y, hy, woken⟩
      · exact ⟨_, woken, h.reached k js e need issues.inRing (by omega) issues.entry⟩
      · exact ⟨y, woken, h.reached k js y need (by omega) (by omega) hy⟩
    obtain ⟨p', hp', -⟩ := issues.producer_after hp
    exact ⟨j, mem, p', hp', issues.reaches order order' hx woken hp hp' reaches⟩
  · rw [issues.same.pushed] at need
    rcases issues.entry_before hx with ⟨rfl, woken⟩ | ⟨-, y, hy, woken⟩
    · -- the entry that issues has what it needs
      have inWindow := issues.inWindow
      obtain ⟨j, mem, p, hp, reaches⟩ :=
        h.reached k js e need issues.inRing inWindow issues.entry
      obtain ⟨p', hp', done_le, -⟩ := issues.producer_after hp
      refine ⟨j, mem, p', hp', ?_⟩
      rw [woken.frame]
      exact le_trans done_le (reaches.done_le (timed.timely k e issues.entry inWindow) issues.ready
        (timed.dispatched_le k e issues.entry inWindow))
    · obtain ⟨j, mem, p, hp, kept⟩ := h.kept k js y need (by omega) hy
      obtain ⟨p', hp', done_le, -⟩ := issues.producer_after hp
      refine ⟨j, mem, p', hp', ?_⟩
      rw [woken.frame]
      exact le_trans done_le kept

/-! ## Section 6: All steps -/

/-- What has been pushed stays pushed. -/
theorem Passes.pushed_subset (h : Passes config a b) : ∀ u ∈ a.pushed, u ∈ b.pushed := by
  intro u hu
  cases h with
  | moves moves =>
    cases moves with
    | quiet same => rwa [same.pushed]
    | enter enters => rwa [enters.pushed]
    | issue issues => rwa [issues.same.pushed]
  | takes takes =>
    rw [takes.pushed]
    exact List.mem_append_left _ hu
  | releases _ _ result => rwa [result]
  | restarts _ _ restarts => rwa [restarts.pushed]
  | ticks _ result => rwa [result]

theorem Heeding.step (h : Heeding config a) (reached : Reachable config a)
    (storeless : StoresWriteNothing a.pushed) (step : Step config a b) : Heeding config b := by
  have order := reached.inOrder
  cases order.passes step with
  | moves moves =>
    cases moves with
    | quiet same entries => exact h.quiet same entries
    | enter enters => exact h.enter order reached.timed reached.tabled storeless enters
    | issue issues => exact h.issue order (order.step step) reached.timed issues
  | takes takes => exact h.take order takes
  | releases oldest done result =>
    rw [result]
    exact h.release oldest
  | restarts oldest done restarts => exact (h.release oldest).restart restarts
  | ticks later result =>
    rw [result]
    exact ⟨h.reached, h.kept⟩

theorem Reachable.heeding (h : Reachable config a) (storeless : StoresWriteNothing a.pushed) :
    Heeding config a := by
  induction h with
  | new made =>
    refine heeding_of_edge ?_
    obtain ⟨capacity, rfl⟩ := Thread.new_eq_ok made
    rfl
  | step reached step ih =>
    have storeless : StoresWriteNothing _ := fun u hu =>
      storeless u ((reached.inOrder.passes step).pushed_subset u hu)
    exact (ih storeless).step reached storeless step

end Account

end CoreTiming
