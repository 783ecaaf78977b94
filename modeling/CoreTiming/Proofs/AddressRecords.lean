import CoreTiming.Proofs.Rhythm
import CoreTiming.Proofs.Writers

/-!
# What is on record of the address of a store

While a store waits in the window, the time from which on its address is known is that of the latest result of the
writers of its address registers, as soon as all of them have issued (`Account.Traced`).  If loads have to wait for
the addresses of older stores, a load that issues comes after the results of the writers of all of them
(`Account.Cautious`).

Here is what a step makes of both on which no entry issues.  A store that enters the window takes down which of the
writers are in flight without a result.  It lists the registers that form its address among those that it reads, so
each of these will wake it.
-/

namespace CoreTiming

open Faulting

/-- What concerns the address is the same in both entries. -/
structure Entry.SameAddress (e e' : Entry) : Prop where
  /-- They are the same micro-op. -/
  op_eq : e'.u.op = e.u.op
  /-- The number is the same. -/
  seq_eq : e'.seq = e.seq
  /-- They have entered the window at the same time. -/
  dispatched_eq : e'.dispatched = e.dispatched
  /-- Their addresses are known from the same time on. -/
  ready_eq : e'.addressReady = e.addressReady
  /-- The same times are on record. -/
  latest_eq : e'.addressReadyMax = e.addressReadyMax
  /-- The same writers are on record. -/
  producers_eq : e'.addressProducers = e.addressProducers

theorem Entry.SamePoint.sameAddress {e e' : Entry} (h : e.SamePoint e') : e.SameAddress e' := by
  rw [h]
  exact ⟨rfl, rfl, rfl, rfl, rfl, rfl⟩

theorem Entry.Listed.sameAddress {e e' : Entry} {consumer : Nat} (h : e.Listed consumer e') :
    e.SameAddress e' := by
  rw [h.frame]
  exact ⟨rfl, rfl, rfl, rfl, rfl, rfl⟩

namespace Account

variable {config : Config} {phase : Phase} {a b : Account} {e e' p x x' : Entry} {j k : Nat}

/-! ## Section 1: What an address is formed from -/

/-- The micro-op at `j` is the youngest writer of a register that forms the address of `e`, which stands at `k`, and
was in flight when `e` entered the window. -/
def AddressWriter (a : Account) (k : Nat) (e : Entry) (j : Nat) : Prop :=
  (∃ r ∈ e.u.op.addressRegisters, r < numRegisters ∧ Youngest a.pushed (OpInstance.Writes r) k j) ∧
    ∀ r, a.retired[j]? = some r → e.dispatched ≤ r.time

theorem AddressWriter.lt (h : a.AddressWriter k e j) : j < k := by
  obtain ⟨⟨r, -, -, youngest⟩, -⟩ := h
  exact youngest.before

/-- A step takes in micro-ops, and lets some go now. -/
theorem Step.grows (step : Step config a b) :
    (∃ us, b.pushed = a.pushed ++ us) ∧ ∃ rs, b.retired = a.retired ++ rs ∧ ∀ r ∈ rs, r.time = a.clock.now := by
  have none : ∃ rs, a.retired = a.retired ++ rs ∧ ∀ r ∈ rs, r.time = a.clock.now :=
    ⟨[], (List.append_nil _).symm, fun r mem => (by cases mem)⟩
  have one : ∀ e : Entry, ∃ rs, (a.release config e).retired = a.retired ++ rs ∧ ∀ r ∈ rs, r.time = a.clock.now :=
    fun e => ⟨_, rfl, fun r mem => (by rw [List.mem_singleton.mp mem])⟩
  cases step with
  | work | tick => exact ⟨⟨[], (List.append_nil _).symm⟩, none⟩
  | push => exact ⟨⟨_, rfl⟩, none⟩
  | retire | flush => exact ⟨⟨[], (List.append_nil _).symm⟩, one _⟩

theorem InOrder.length_pushed (h : InOrder config a) : a.entries.length = a.pushed.length := by
  have length := congrArg List.length h.program
  rwa [List.length_map, List.length_map] at length

/-- In the ring, the entry with a number is the one at its position. -/
theorem InOrder.eq_of_seq (h : InOrder config a) (hp : a.entries[j]? = some p) (mem : x ∈ a.thread.ring.toList)
    (number : x.seq = p.seq) : x = p := by
  obtain ⟨i, hi⟩ := List.getElem?_of_mem mem
  rw [← entries_add] at hi
  rw [h.position_unique hi hp number, hp] at hi
  exact (Option.some.inj hi).symm

theorem InOrder.nodup_seq (h : InOrder config a) : (a.thread.ring.toList.map Entry.seq).Nodup := by
  have numbers : a.thread.ring.toList.map Entry.seq =
      List.range' a.thread.base a.thread.ring.toList.length := by
    refine List.ext_getElem (by simp) fun i inside _ => ?_
    rw [List.getElem_map, List.getElem_range', Nat.one_mul]
    exact h.numbered i _ (List.getElem?_eq_getElem _)
  rw [numbers]
  exact List.nodup_range'

/-- The address of an entry in the window is formed from the same micro-ops as long as the entry is there. -/
theorem Step.addressWriter_iff (step : Step config a b) (reached : Reachable config a)
    (hx : a.entries[k]? = some x) (within : k < a.edge) (op : x'.u.op = x.u.op)
    (dispatched_eq : x'.dispatched = x.dispatched) : b.AddressWriter k x' j ↔ a.AddressWriter k x j := by
  obtain ⟨⟨us, pushed⟩, rs, retired, now⟩ := step.grows
  have inside : k ≤ a.pushed.length := by
    have := reached.inOrder.edge_le
    have := reached.inOrder.length_pushed
    omega
  have dispatched := reached.timed.dispatched_le k x hx within
  unfold AddressWriter
  rw [op, dispatched_eq, pushed, retired]
  simp only [Youngest.append_iff inside]
  refine and_congr_right fun _ => ⟨fun later r left => ?_, fun later r left => ?_⟩
  · refine later r ?_
    rw [List.getElem?_append_left (List.getElem?_eq_some_iff.mp left).1]
    exact left
  · rw [List.getElem?_append] at left
    split at left
    · exact later r left
    · rw [now r (List.mem_of_getElem? left)]
      exact dispatched

/-! ## Section 2: The invariants -/

/-- What is on record of the address of `e`, which stands at position `k` and has not issued. -/
structure Traced (a : Account) (k : Nat) (e : Entry) : Prop where
  /-- The address waits for its writers only. -/
  named : ∀ q ∈ e.addressProducers.toList, ∃ (j : Nat) (p : Entry), a.AddressWriter k e j ∧
    a.entries[j]? = some p ∧ p.seq = q
  /-- It waits for all of them that have no result, and they will wake the store. -/
  told : ∀ (j : Nat) (p : Entry), a.AddressWriter k e j → a.entries[j]? = some p → p.done = .never →
    p.seq ∈ e.addressProducers.toList ∧ e.seq ∈ p.dependants.toList
  /-- The results of all others are on record. -/
  known : ∀ (j : Nat) (p : Entry), a.AddressWriter k e j → a.entries[j]? = some p → p.done ≠ .never →
    p.done ≤ e.addressReadyMax
  /-- Nothing else is. -/
  latest : e.addressReadyMax = 0 ∨ ∃ (j : Nat) (p : Entry), a.AddressWriter k e j ∧ a.entries[j]? = some p ∧
    p.issued ≠ .never ∧ e.addressReadyMax = p.done
  /-- As long as there is no result of one of them, the address is not known. -/
  waits : ∀ (j : Nat) (p : Entry), a.AddressWriter k e j → a.entries[j]? = some p → p.done = .never →
    e.addressReady = .never
  /-- Once there are all results, it is. -/
  ready : (∀ (j : Nat) (p : Entry), a.AddressWriter k e j → a.entries[j]? = some p → p.done ≠ .never) →
    e.addressReady = e.addressReadyMax

/-- If nothing has happened to the writers of an address, what is on record of it still holds. -/
theorem Traced.carry (h : a.Traced k e) (same : e.SameAddress e')
    (writers : ∀ {j : Nat}, b.AddressWriter k e' j ↔ a.AddressWriter k e j)
    (kept : ∀ j, a.AddressWriter k e j → Option.Rel Entry.Lingers a.entries[j]? b.entries[j]?) :
    b.Traced k e' := by
  -- the writers are the same ones on both sides, and each entry of one side has its like on the other
  have before : ∀ {j : Nat} {p' : Entry}, b.AddressWriter k e' j → b.entries[j]? = some p' →
      ∃ p, a.AddressWriter k e j ∧ a.entries[j]? = some p ∧ p.Lingers p' := by
    intro j p' writer hp'
    obtain ⟨p, hp, lingers⟩ := rel_right (kept j (writers.mp writer)) hp'
    exact ⟨p, writers.mp writer, hp, lingers⟩
  have after : ∀ {j : Nat} {p : Entry}, a.AddressWriter k e j → a.entries[j]? = some p →
      ∃ p', b.AddressWriter k e' j ∧ b.entries[j]? = some p' ∧ p.Lingers p' := by
    intro j p writer hp
    obtain ⟨p', hp', lingers⟩ := rel_left (kept j writer) hp
    exact ⟨p', writers.mpr writer, hp', lingers⟩
  refine ⟨fun q mem => ?_, fun j p' writer hp' pending => ?_, fun j p' writer hp' result => ?_, ?_,
    fun j p' writer hp' pending => ?_, fun all => ?_⟩
  · rw [same.producers_eq] at mem
    obtain ⟨j, p, writer, hp, number⟩ := h.named q mem
    obtain ⟨p', writer', hp', lingers⟩ := after writer hp
    exact ⟨j, p', writer', hp', lingers.seq_eq.trans number⟩
  · obtain ⟨p, writer, hp, lingers⟩ := before writer hp'
    obtain ⟨mem, tells⟩ := h.told j p writer hp (lingers.done_eq ▸ pending)
    rw [same.producers_eq, same.seq_eq, lingers.seq_eq]
    exact ⟨mem, lingers.keeps _ tells⟩
  · obtain ⟨p, writer, hp, lingers⟩ := before writer hp'
    rw [lingers.done_eq] at result ⊢
    rw [same.latest_eq]
    exact h.known j p writer hp result
  · rw [same.latest_eq]
    refine h.latest.imp_right fun ⟨j, p, writer, hp, issued, eq⟩ => ?_
    obtain ⟨p', writer', hp', lingers⟩ := after writer hp
    exact ⟨j, p', writer', hp', lingers.issued_eq ▸ issued, eq.trans lingers.done_eq.symm⟩
  · obtain ⟨p, writer, hp, lingers⟩ := before writer hp'
    rw [same.ready_eq]
    exact h.waits j p writer hp (lingers.done_eq ▸ pending)
  · rw [same.ready_eq, same.latest_eq]
    refine h.ready fun j p writer hp => ?_
    obtain ⟨p', writer', hp', lingers⟩ := after writer hp
    rw [← lingers.done_eq]
    exact all j p' writer' hp'

/-- What is on record of the addresses of all stores that wait. -/
def Addressed (a : Account) : Prop :=
  ∀ (k : Nat) (x : Entry), a.entries[k]? = some x → a.retired.length ≤ k → k < a.edge →
    x.u.op.isStore = true → x.issued = .never → a.Traced k x

/-- A load has not issued before an older store had, unless all results were there from which the address of the
store is formed. -/
def Cautious (a : Account) : Prop :=
  ∀ (j k : Nat) (x y : Entry), a.entries[j]? = some x → a.entries[k]? = some y → j < k →
    x.u.op.isStore = true → y.u.op.isLoad = true → y.issued ≠ .never →
    x.issued ≠ .never ∧ (x.done = .never ∨ x.issued ≤ y.issued) ∨
      ∀ (m : Nat) (p : Entry), a.AddressWriter j x m → a.entries[m]? = some p → p.done ≤ y.issued

/-- If the first `n` entries linger and none of the others has issued, a load that had to wait still has. -/
theorem Cautious.carry {n : Nat} (h : Cautious a) (step : Step config a b) (reached : Reachable config a)
    (inside : n ≤ a.edge)
    (kept : ∀ k, k < n → Option.Rel (fun e e' => e.Lingers e' ∧ e.SameAddress e') a.entries[k]? b.entries[k]?)
    (fresh : ∀ (k : Nat) (x : Entry), b.entries[k]? = some x → n ≤ k → x.issued = .never) : Cautious b := by
  intro j k x y hx hy older store load issued
  have within : k < n := by
    by_contra outside
    exact issued (fresh k y hy (by omega))
  obtain ⟨x₀, hx₀, lingers, same⟩ := rel_right (kept j (by omega)) hx
  obtain ⟨y₀, hy₀, lingers', -⟩ := rel_right (kept k within) hy
  rw [lingers.op_eq] at store
  rw [lingers'.op_eq] at load
  rw [lingers'.issued_eq] at issued ⊢
  refine (h j k x₀ y₀ hx₀ hy₀ older store load issued).imp (fun first => ?_) fun all m p writer hp => ?_
  · rw [lingers.issued_eq, lingers.done_eq]
    exact first
  · -- the writers of the address are the same, and their results
    have writer := (step.addressWriter_iff reached hx₀ (by omega) same.op_eq same.dispatched_eq).mp writer
    have oldest := writer.lt
    obtain ⟨p₀, hp₀, lingers'', -⟩ := rel_right (kept m (by omega)) hp
    rw [lingers''.done_eq]
    exact all m p₀ writer hp₀

/-- Nothing is on record of what is buffered. -/
def Blank (a : Account) : Prop :=
  ∀ (k : Nat) (x : Entry), a.entries[k]? = some x → a.edge ≤ k →
    x.readyMax = 0 ∧ x.addressReady = .never ∧ x.addressReadyMax = 0 ∧ x.addressProducers.toList = []

theorem Blank.step (h : Blank a) (reached : Reachable config a) (step : Step config a b) : Blank b := by
  -- a buffered entry is nobody's consumer, so none of these steps is about it until it enters
  have order := reached.inOrder
  cases step with
  | work work =>
    cases moves_of_work work with
    | quiet same entries latencies =>
      intro k x hx outside
      obtain ⟨y, hy, point⟩ := entries.right hx
      rw [same.edge_eq] at outside
      rw [point]
      exact h k y hy outside
    | enter enters =>
      intro k x hx outside
      have edge := enters.edge_eq
      obtain ⟨y, hy, listed⟩ := enters.entry_elsewhere hx (by omega)
      rw [listed.frame]
      exact h k y hy (by omega)
    | issue issues =>
      intro k x hx outside
      rw [issues.same.edge_eq] at outside
      obtain ⟨y, _, hy, -⟩ := issues.origin hx
      rw [reached.timed.asleep order issues outside hy] at hx
      cases hx
      exact h k _ hy outside
  | push same pushed =>
    intro k x hx outside
    rcases (takes_of_enqueue order same pushed).entry_before hx with ⟨-, rfl⟩ | hx
    · exact ⟨rfl, rfl, rfl, rfl⟩
    · rw [(takes_of_enqueue order same pushed).edge_eq] at outside
      exact h k x hx outside
  | retire oldest done stays =>
    intro k x hx outside
    rw [entries_release config oldest] at hx
    rw [edge_release oldest] at outside
    exact h k x hx outside
  | @flush e th oldest done flushes flushed =>
    have restarts : Restarts (a.release config e) ((a.release config e).withThread th) := restarts_of_flush flushed
    intro k x hx outside
    rcases restarts.entry_before hx with ⟨left, -⟩ | ⟨-, y, seq, -, rfl⟩
    · rw [restarts.edge_eq] at outside
      omega
    · exact ⟨rfl, rfl, rfl, rfl⟩
  | tick period later => exact h

theorem Reachable.blank (h : Reachable config a) : Blank a := by
  induction h with
  | new made =>
    intro k x hx
    rw [entries_new made] at hx
    cases hx
  | step reached step ih => exact ih.step reached step

/-! ## Section 3: Steps on which nothing enters or issues -/

section Persist

variable (step : Step config a b) (persists : Persists a b) (reached : Reachable config a)

include step persists reached

theorem Addressed.persist (h : Addressed a) : Addressed b := by
  have left := persists.left
  have edge := persists.edge
  intro k x hx inRing within store waiting
  obtain ⟨y, hy, point, -⟩ := rel_right (persists.kept k within) hx
  rw [point] at store waiting
  refine (h k y hy (by omega) (by omega) store waiting).carry point.sameAddress
    (step.addressWriter_iff reached hy (by omega) point.sameAddress.op_eq point.sameAddress.dispatched_eq)
    fun j writer => ?_
  have older := writer.lt
  exact rel_mono (fun _ _ both => both.1.lingers both.2) (persists.kept j (by omega))

theorem Cautious.persist (h : Cautious a) : Cautious b :=
  h.carry step reached persists.edge
    (fun k within => rel_mono (fun _ _ both => ⟨both.1.lingers both.2, both.1.sameAddress⟩) (persists.kept k within))
    fun k x hx outside => ((Reachable.step reached step).timed.fresh k x hx outside).issued

end Persist

/-! ## Section 4: An entry enters the window -/

/-- Stores read the registers that form their addresses. -/
def AddressesRead (prog : List OpInstance) : Prop :=
  ∀ u ∈ prog, u.op.isStore = true → ∀ r ∈ u.op.addressRegisters, r ∈ u.op.sources

/-- Linking finds the writers of an address that are in flight. -/
theorem Reachable.mem_addressSought_iff (reached : Reachable config a) {op : MicroOp} {q : Nat} :
    q ∈ a.thread.addressSought a.thread.base op ↔
      ∃ (j : Nat) (p : Entry), a.entries[j]? = some p ∧ a.retired.length ≤ j ∧ p.seq = q ∧
        ∃ r ∈ op.addressRegisters, r < numRegisters ∧ Youngest a.pushed (OpInstance.Writes r) a.edge j := by
  unfold Thread.addressSought
  simp only [List.mem_filterMap, reached.recorded.live?_iff reached.tabled]
  constructor
  · rintro ⟨r, mem, tracked, j, p, hp, inRing, number, youngest⟩
    exact ⟨j, p, hp, inRing, number, r, mem, tracked, youngest⟩
  · rintro ⟨j, p, hp, inRing, number, r, mem, tracked, youngest⟩
    exact ⟨r, mem, tracked, j, p, hp, inRing, number, youngest⟩

section Enter

variable {th : Thread} (reached : Reachable config a) (enters : Enters config a b e e' th)
  (linked : Thread.link config.window.forwarding e.fetched a.thread = .ok e' th)
  (later : ∀ r ∈ a.retired, r.time < a.clock.now)

include enters in
/-- What has just entered the window. -/
theorem Enters.entered_eq (hx : b.entries[a.edge]? = some x) : x.u.op = e.u.op ∧ x.seq = e.seq ∧
    x.dispatched = a.clock.now ∧ x.addressReady = e'.addressReady ∧ x.addressReadyMax = e'.addressReadyMax ∧
    x.addressProducers = e'.addressProducers := by
  rw [enters.entered] at hx
  cases hx
  rw [enters.linked.entry]
  exact ⟨rfl, rfl, rfl, rfl, rfl, rfl⟩

include enters later in
/-- The address of what enters the window is formed from what is in flight. -/
theorem Enters.addressWriter_iff (hx : b.entries[a.edge]? = some x) : b.AddressWriter a.edge x j ↔
    a.retired.length ≤ j ∧
      ∃ r ∈ e.u.op.addressRegisters, r < numRegisters ∧ Youngest a.pushed (OpInstance.Writes r) a.edge j := by
  obtain ⟨op, -, dispatched, -⟩ := enters.entered_eq hx
  unfold AddressWriter
  rw [enters.retired, enters.pushed, dispatched, op, and_comm]
  refine and_congr_left fun _ => ⟨fun inFlight => ?_, fun inRing r left => ?_⟩
  · by_contra left
    rw [not_le] at left
    have early := later _ (List.getElem_mem left)
    exact absurd (inFlight _ (List.getElem?_eq_getElem left)) (not_le.mpr early)
  · have := (List.getElem?_eq_some_iff.mp left).1
    omega

include reached enters later in
/-- What is looked up are writers of the address. -/
theorem Enters.writer_of_mem_sought {q : Nat} (hx : b.entries[a.edge]? = some x)
    (mem : q ∈ a.thread.addressSought a.thread.base e.u.op) : ∃ (j : Nat) (p p' : Entry),
      b.AddressWriter a.edge x j ∧ a.entries[j]? = some p ∧ b.entries[j]? = some p' ∧ p.Lingers p' ∧
        p.seq = q := by
  obtain ⟨j, p, hp, inRing, number, writes⟩ := reached.mem_addressSought_iff.mp mem
  have writer := (enters.addressWriter_iff later hx).mpr ⟨inRing, writes⟩
  have older := writer.lt
  obtain ⟨p', hp', listed⟩ := rel_left (enters.others j (by omega)) hp
  exact ⟨j, p, p', writer, hp, hp', listed.lingers, number⟩

include reached enters later in
/-- All writers of the address are looked up. -/
theorem Enters.mem_sought_of_writer (hx : b.entries[a.edge]? = some x) (writer : b.AddressWriter a.edge x j)
    (hp' : b.entries[j]? = some x') : ∃ p, a.entries[j]? = some p ∧ p.Lingers x' ∧
      p.seq ∈ a.thread.addressSought a.thread.base e.u.op := by
  have older := writer.lt
  obtain ⟨p, hp, listed⟩ := enters.entry_elsewhere hp' (by omega)
  obtain ⟨inRing, writes⟩ := (enters.addressWriter_iff later hx).mp writer
  exact ⟨p, hp, listed.lingers, reached.mem_addressSought_iff.mpr ⟨j, p, hp, inRing, rfl, writes⟩⟩

include reached enters linked later in
/-- A store reads what its address is formed from, so a writer that has no result will wake it. -/
theorem Enters.told_of_writer (read : AddressesRead a.pushed) (store : e.u.op.isStore = true)
    (hx : b.entries[a.edge]? = some x) (writer : b.AddressWriter a.edge x j) (hp' : b.entries[j]? = some x')
    (pending : x'.done = .never) : x.seq ∈ x'.dependants.toList := by
  have order := reached.inOrder
  obtain ⟨unknown, -⟩ := reached.blank _ e enters.next (Nat.le_refl _)
  obtain ⟨p, hp, lingers, -⟩ := enters.mem_sought_of_writer reached later hx writer hp'
  obtain ⟨inRing, r, forms, tracked, youngest⟩ := (enters.addressWriter_iff later hx).mp writer
  obtain ⟨u, at_u, same, -⟩ := order.op_of_entry enters.next
  have reads : r ∈ u.op.sources :=
    read u (List.mem_of_getElem? at_u) (by rw [same]; exact store) r (by rw [same]; exact forms)
  have seeks := reached.tabled.mem_sought_of_writer order enters.next at_u reads tracked inRing youngest hp
  have alive : a.thread.oldestSeq e.fetched ≤ p.seq := by
    have := order.seq_of_le inRing hp
    have := order.lowest_eq enters.next
    omega
  obtain ⟨i, p₁, p₁', at_i, at_i', number, tells⟩ := Thread.listed_link linked store
    (by show e.readyMax ≠ _; rw [unknown]; decide) seeks alive
  obtain rfl := order.eq_of_seq hp (List.mem_of_getElem? at_i) number
  rw [← entries_add] at at_i
  obtain rfl := order.position_unique at_i hp rfl
  have older := writer.lt
  rw [enters.ring i (by unfold edge at older; omega), at_i'] at hp'
  cases hp'
  rw [lingers.done_eq] at pending
  rw [(enters.entered_eq hx).2.1]
  exact tells pending

include reached enters linked later in
/-- What is on record of the address of a store that enters the window. -/
theorem Enters.traced (read : AddressesRead a.pushed) (store : e.u.op.isStore = true)
    (hx : b.entries[a.edge]? = some x) : b.Traced a.edge x := by
  have order := reached.inOrder
  obtain ⟨-, notReady, zero, nobody⟩ := reached.blank _ e enters.next (Nat.le_refl _)
  obtain ⟨-, -, -, ready, latest, producers⟩ := enters.entered_eq hx
  obtain ⟨surveys, addressReady⟩ := Thread.surveys_link linked store
  rw [order.lowest_eq enters.next] at surveys
  -- it waits for nobody yet
  have fewer : ∀ q ∈ e'.addressProducers.toList, q ∈ a.thread.addressSought a.thread.base e.u.op ∧
      Pending a.thread.ring.toList q := by
    intro q mem
    refine (surveys.fewer q mem).resolve_left fun old => ?_
    have old : q ∈ e.addressProducers.toList := old
    rw [nobody] at old
    cases old
  have found : ∀ {j : Nat} {p' : Entry}, b.AddressWriter a.edge x j → b.entries[j]? = some p' →
      p'.done ≠ .never ∧ p'.done ≤ e'.addressReadyMax ∨
        p'.done = .never ∧ p'.seq ∈ e'.addressProducers.toList := by
    intro j p' writer hp'
    obtain ⟨p, hp, lingers, mem⟩ := enters.mem_sought_of_writer reached later hx writer hp'
    obtain ⟨p₀, mem₀, number, fate⟩ := surveys.found p.seq mem
    obtain rfl := order.eq_of_seq hp mem₀ number
    rw [lingers.done_eq, lingers.seq_eq]
    exact fate
  have waited : ∀ {j : Nat} {p' : Entry}, b.AddressWriter a.edge x j → b.entries[j]? = some p' →
      p'.done = .never → p'.seq ∈ e'.addressProducers.toList := fun writer hp' pending =>
    ((found writer hp').resolve_left fun known => known.1 pending).2
  refine ⟨fun q mem => ?_, fun j p' writer hp' pending => ⟨?_, ?_⟩, fun j p' writer hp' result => ?_, ?_,
    fun j p' writer hp' pending => ?_, fun all => ?_⟩
  · rw [producers] at mem
    obtain ⟨j, p, p', writer, hp, hp', lingers, number⟩ :=
      enters.writer_of_mem_sought reached later hx (fewer q mem).1
    exact ⟨j, p', writer, hp', lingers.seq_eq.trans number⟩
  · rw [producers]
    exact waited writer hp' pending
  · exact enters.told_of_writer reached linked later read store hx writer hp' pending
  · rw [latest]
    exact ((found writer hp').resolve_right fun open_ => result open_.1).2
  · rw [latest]
    refine surveys.latest.imp (fun same => same.trans zero) fun ⟨p₀, mem₀, mem, result, eq⟩ => ?_
    obtain ⟨j, p, p', writer, hp, hp', lingers, number⟩ := enters.writer_of_mem_sought reached later hx mem
    obtain rfl := order.eq_of_seq hp mem₀ number.symm
    refine ⟨j, p', writer, hp', ?_, eq.trans lingers.done_eq.symm⟩
    rw [lingers.issued_eq]
    exact reached.timed.issued_of_done hp result
  · have mem := waited writer hp' pending
    rw [ready, addressReady, if_neg]
    · exact notReady
    · intro empty
      rw [BoundedList.isEmpty, List.isEmpty_iff] at empty
      rw [empty] at mem
      cases mem
  · have empty : e'.addressProducers.isEmpty = true := by
      rw [BoundedList.isEmpty, List.isEmpty_iff, List.eq_nil_iff_forall_not_mem]
      intro q mem
      obtain ⟨sought, p₀, mem₀, number, pending⟩ := fewer q mem
      obtain ⟨j, p, p', writer, hp, hp', lingers, number'⟩ := enters.writer_of_mem_sought reached later hx sought
      obtain rfl := order.eq_of_seq hp mem₀ (number.trans number'.symm)
      exact all j p' writer hp' (lingers.done_eq.trans pending)
    rw [ready, latest, addressReady, if_pos empty]

end Enter

section

variable {th : Thread} (step : Step config a b) (reached : Reachable config a)
  (enters : Enters config a b e e' th)

include step reached enters

theorem Addressed.enter (h : Addressed a)
    (linked : Thread.link config.window.forwarding e.fetched a.thread = .ok e' th)
    (later : ∀ r ∈ a.retired, r.time < a.clock.now) (read : AddressesRead a.pushed) : Addressed b := by
  have edge := enters.edge_eq
  intro k x hx inRing within store waiting
  rw [enters.retired] at inRing
  rcases enters.entry_before hx with ⟨rfl, rfl⟩ | ⟨hne, y, hy, listed⟩
  · refine enters.traced reached linked later read ?_ hx
    have same : e'.u.op = e.u.op := enters.linked.op_eq
    rwa [← same]
  · rw [listed.frame] at store waiting
    have same := listed.sameAddress
    refine (h k y hy inRing (by omega) store waiting).carry same
      (step.addressWriter_iff reached hy (by omega) same.op_eq same.dispatched_eq) fun j writer => ?_
    have older := writer.lt
    exact rel_mono (fun _ _ => Entry.Listed.lingers) (enters.others j (by omega))

theorem Cautious.enter (h : Cautious a) : Cautious b := by
  exact h.carry step reached (Nat.le_refl _) (fun k within => rel_mono
    (fun _ _ listed => ⟨listed.lingers, listed.sameAddress⟩) (enters.others k (by omega)))
    fun _ _ hx outside => (enters.not_issued reached.timed hx outside).1

end

end Account

end CoreTiming
