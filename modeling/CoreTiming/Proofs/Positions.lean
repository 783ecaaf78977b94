import CoreTiming.Proofs.ProgramOrder

/-!
# Positions in the program

A micro-op keeps its position in the program on its way through the thread, while its number changes
when the window starts over and its place in the ring changes when others leave.  This module speaks
of entries by position: `Account.entries` lists those that have left and those in the ring, and
`Account.edge` is the position at which the window ends.
-/

namespace CoreTiming

open Faulting

namespace Account

variable {config : Config} {a b : Account} {j k : Nat} {e p : Entry}

/-! ## Section 1: Entries by position -/

/-- The position of the oldest buffered micro-op. -/
def edge (a : Account) : Nat := a.retired.length + a.thread.inWindow

theorem entries_of_lt (h : k < a.retired.length) :
    a.entries[k]? = a.retired[k]?.map (·.entry) := by
  unfold entries
  rw [List.getElem?_append_left (by rwa [List.length_map]), List.getElem?_map]

theorem entries_of_le (h : a.retired.length ≤ k) :
    a.entries[k]? = a.thread.ring.toList[k - a.retired.length]? := by
  unfold entries
  rw [List.getElem?_append_right (by rwa [List.length_map]), List.length_map]

theorem entries_add (i : Nat) :
    a.entries[a.retired.length + i]? = a.thread.ring.toList[i]? := by
  rw [entries_of_le (Nat.le_add_right _ _), Nat.add_sub_cancel_left]

theorem mem_retired_of_lt (h : k < a.retired.length) (at_k : a.entries[k]? = some e) :
    ∃ r ∈ a.retired, r.entry = e := by
  rw [entries_of_lt h] at at_k
  obtain ⟨r, hr, same⟩ := Option.map_eq_some_iff.mp at_k
  exact ⟨r, List.mem_of_getElem? hr, same⟩

/-! ## Section 2: Numbers by position -/

/-- In the ring, the number of an entry is its distance to the oldest one, counted from `base`. -/
theorem InOrder.seq_of_le (h : InOrder config a) (hk : a.retired.length ≤ k)
    (at_k : a.entries[k]? = some e) : e.seq = a.thread.base + (k - a.retired.length) := by
  rw [entries_of_le hk] at at_k
  exact h.numbered _ e at_k

/-- What comes next into the window has the next number. -/
theorem InOrder.seq_edge (h : InOrder config a) (next : a.entries[a.edge]? = some e) :
    e.seq = a.thread.base + a.thread.inWindow := by
  have := h.seq_of_le (Nat.le_add_right _ _) next
  omega

theorem InOrder.seq_of_lt (h : InOrder config a) (hk : k < a.retired.length)
    (at_k : a.entries[k]? = some e) : e.seq < a.thread.base := by
  obtain ⟨r, hr, rfl⟩ := mem_retired_of_lt hk at_k
  exact h.behind r hr

/-- Numbers rise with the position. -/
theorem InOrder.seq_lt_seq (h : InOrder config a) (at_j : a.entries[j]? = some p)
    (at_k : a.entries[k]? = some e) (hjk : j < k) : p.seq < e.seq := by
  by_cases hk : k < a.retired.length
  · -- both have left
    rw [entries_of_lt (by omega)] at at_j
    rw [entries_of_lt hk] at at_k
    obtain ⟨r, hr, rfl⟩ := Option.map_eq_some_iff.mp at_j
    obtain ⟨s, hs, rfl⟩ := Option.map_eq_some_iff.mp at_k
    obtain ⟨hj', rfl⟩ := List.getElem?_eq_some_iff.mp hr
    obtain ⟨hk', rfl⟩ := List.getElem?_eq_some_iff.mp hs
    have rising := List.pairwise_iff_getElem.mp h.increasing j k
      (by rwa [List.length_map]) (by rwa [List.length_map]) hjk
    rwa [List.getElem_map, List.getElem_map] at rising
  · rw [not_lt] at hk
    have hseq := h.seq_of_le hk at_k
    by_cases hj : j < a.retired.length
    · -- the older one has left
      have := h.seq_of_lt hj at_j
      omega
    · -- both are in the ring
      rw [not_lt] at hj
      have := h.seq_of_le hj at_j
      omega

theorem InOrder.position_unique (h : InOrder config a) (at_j : a.entries[j]? = some p)
    (at_k : a.entries[k]? = some e) (same : p.seq = e.seq) : j = k := by
  rcases Nat.lt_trichotomy j k with hlt | rfl | hlt
  · have := h.seq_lt_seq at_j at_k hlt
    omega
  · rfl
  · have := h.seq_lt_seq at_k at_j hlt
    omega

/-- Every number in use is one. -/
theorem InOrder.seq?_eq (h : InOrder config a) (at_k : a.entries[k]? = some e) :
    seq? e.seq = some e.seq := by
  have bound : e.seq < noSeq := by
    have nextSeq_le := h.nextSeq_le
    have length_le := h.length_le
    by_cases hk : k < a.retired.length
    · have := h.seq_of_lt hk at_k
      unfold Thread.base at this
      unfold noSeq
      omega
    · rw [not_lt] at hk
      have hseq := h.seq_of_le hk at_k
      rw [entries_of_le hk] at at_k
      have inside := (List.getElem?_eq_some_iff.mp at_k).1
      rw [Ring.length_toList] at inside
      unfold Thread.base at hseq
      unfold noSeq
      omega
  unfold seq?
  rw [if_neg (by omega)]

/-- As long as there are entries in the ring, `base` is the number of the oldest one. -/
theorem InOrder.oldestSeq_eq (h : InOrder config a) {i : Nat}
    (present : a.thread.ring.toList[i]? = some p) (e : Entry) :
    a.thread.oldestSeq e = a.thread.base := by
  have some : 0 < a.thread.ring.toList.length := by
    have := (List.getElem?_eq_some_iff.mp present).1
    omega
  have front := List.getElem?_eq_getElem some
  unfold Thread.oldestSeq Thread.frontSeq? Ring.front?
  rw [← Ring.getElem?_toList, front]
  exact h.numbered 0 _ front

/-- Linking looks for producers from the oldest entry in the ring on. -/
theorem InOrder.lowest_eq (h : InOrder config a) (next : a.entries[a.edge]? = some e) :
    a.thread.oldestSeq e.fetched = a.thread.base := by
  have present : a.thread.ring.toList[a.thread.inWindow]? = some e := by
    rw [← entries_add]
    exact next
  exact h.oldestSeq_eq present _

/-! ## Section 3: Micro-ops by position -/

/-- What was pushed at a position is the micro-op of the entry there. -/
theorem InOrder.op_of_entry (h : InOrder config a) (at_k : a.entries[k]? = some e) :
    ∃ u, a.pushed[k]? = some u ∧ u.op = e.u.op ∧ u.address = e.u.address := by
  have same := congrArg (·[k]?) h.program
  simp only [List.getElem?_map, at_k, Option.map_some] at same
  obtain ⟨u, hu, eq⟩ := Option.map_eq_some_iff.mp same.symm
  have op := congrArg OpInstance.op eq
  have address := congrArg OpInstance.address eq
  exact ⟨u, hu, op, address⟩

end Account

/-! ## Section 4: Work by position -/

/-- Both are at the same point of their way through the window. -/
def Entry.SamePoint (e e' : Entry) : Prop :=
  e' = { e with u := { e.u with
    fetchHit := e'.u.fetchHit, dataHit := e'.u.dataHit, latency := e'.u.latency } }

theorem Entry.SamePoint.refl (e : Entry) : e.SamePoint e := rfl

/-- The micro-op of `e'` takes as long as that of `e`, or longer if `e` has not issued. -/
structure Entry.Lengthens (e e' : Entry) : Prop where
  /-- It takes no less time. -/
  latency_le : e.u.latency ≤ e'.u.latency
  /-- Once it has issued, it is known how long it takes. -/
  latency_eq : e.done ≠ .never → e'.u.latency = e.u.latency

theorem Entry.Lengthens.refl (e : Entry) : e.Lengthens e := ⟨Nat.le_refl _, fun _ => rfl⟩

namespace Account

variable {config : Config} {a b : Account}

/-- From `a` to `b` nothing but entries and counters has changed. -/
structure SameBooks (a b : Account) : Prop where
  /-- The clock stands still. -/
  clock : b.clock = a.clock
  /-- Nothing has been taken in. -/
  pushed : b.pushed = a.pushed
  /-- Nothing has been let out. -/
  retired : b.retired = a.retired
  /-- The window has kept its size. -/
  inWindow : b.thread.inWindow = a.thread.inWindow
  /-- Numbers have stayed. -/
  base : b.thread.base = a.thread.base
  /-- The register table is the same. -/
  registers : b.thread.registers = a.thread.registers
  /-- The store table is the same. -/
  stores : b.thread.stores = a.thread.stores

/-- From `a` to `b` no entry has got any further. -/
structure Quiet (a b : Account) : Prop where
  /-- Nothing but entries and counters has changed. -/
  same : a.SameBooks b
  /-- Every entry is at the same point. -/
  entries : Pointwise Entry.SamePoint a.entries b.entries
  /-- None takes less time. -/
  latencies : Pointwise Entry.Lengthens a.entries b.entries

/-- The entry at `k`, which is `e`, has issued; its result is available at `done`. -/
structure Issues (a b : Account) (k : Nat) (e : Entry) (done : Time) : Prop where
  /-- Nothing but entries has changed. -/
  same : a.SameBooks b
  /-- The entry was in the ring. -/
  inRing : a.retired.length ≤ k
  /-- It was in the window. -/
  inWindow : k < a.edge
  /-- It was at this position. -/
  entry : a.entries[k]? = some e
  /-- It had not issued. -/
  waiting : e.done = .never
  /-- It was ready. -/
  ready : e.ready ≤ a.clock.now
  /-- Its result takes as long as the micro-op does. -/
  result : done = e.doneFrom a.clock
  /-- Entries may have been woken. -/
  woken : Pointwise (Entry.Woken e.seq done)
    (a.entries.set k { e with issued := a.clock.now, done }) b.entries
  /-- What has left is not touched. -/
  left : ∀ j, j < a.retired.length → b.entries[j]? = a.entries[j]?
  /-- What does not wait for the entry is not touched. -/
  others : ∀ (j : Nat) (x : Entry), j ≠ k → a.entries[j]? = some x → x.seq ∉ e.dependants.toList →
    b.entries[j]? = some x
  /-- Unless it waits for itself, the entry is only changed in that it has issued. -/
  itself : e.seq ∉ e.dependants.toList →
    b.entries[k]? = some { e with issued := a.clock.now, done }
  /-- What waits for the entry has been told. -/
  heard : ∀ q ∈ e.dependants.toList, ∃ (j : Nat) (x x' : Entry),
    (a.entries.set k { e with issued := a.clock.now, done })[j]? = some x ∧
      b.entries[j]? = some x' ∧ x.seq = q ∧ x.Heard e.seq done x'

/-- The entry at the edge of the window, which is `e`, has entered the window as `e'`. -/
structure Enters (config : Config) (a b : Account) (e e' : Entry) (th : Thread) : Prop where
  /-- The entry was the oldest one outside the window. -/
  next : a.entries[a.edge]? = some e
  /-- It has been linked. -/
  linked : a.thread.Linked config.window.forwarding e.fetched th e'
  /-- The clock stands still. -/
  clock : b.clock = a.clock
  /-- Nothing has been taken in. -/
  pushed : b.pushed = a.pushed
  /-- Nothing has been let out. -/
  retired : b.retired = a.retired
  /-- The window has grown. -/
  inWindow : b.thread.inWindow = a.thread.inWindow + 1
  /-- Numbers have stayed. -/
  base : b.thread.base = a.thread.base
  /-- The tables are those that linking has left. -/
  tables : b.thread.registers = th.registers ∧ b.thread.stores = th.stores
  /-- At the edge stands what has entered. -/
  entered : b.entries[a.edge]? =
    some { e' with dispatched := a.clock.now, ready := max e'.ready a.clock.next }
  /-- Elsewhere stands what linking has left. -/
  others : ∀ j, j ≠ a.edge → Option.Rel (Entry.Listed e.seq) a.entries[j]? b.entries[j]?
  /-- What has left is not touched. -/
  left : ∀ j, j < a.retired.length → b.entries[j]? = a.entries[j]?
  /-- In the ring, linking has done it. -/
  ring : ∀ i, i ≠ a.thread.inWindow → b.entries[a.retired.length + i]? = th.ring.toList[i]?

/-- Work inside a thread, seen by position. -/
inductive Moves (config : Config) (a b : Account) : Prop
  /-- No entry has got any further. -/
  | quiet (same : a.SameBooks b) (entries : Pointwise Entry.SamePoint a.entries b.entries)
    (latencies : Pointwise Entry.Lengthens a.entries b.entries)
  /-- An entry has entered the window. -/
  | enter {e e' : Entry} {th : Thread} (enters : Enters config a b e e' th)
  /-- An entry has issued. -/
  | issue {k : Nat} {e : Entry} {done : Time} (issues : Issues a b k e done)

theorem entries_withThread_of_lt {k : Nat} (th : Thread) (h : k < a.retired.length) :
    (a.withThread th).entries[k]? = a.entries[k]? := by
  rw [entries_of_lt h]
  exact entries_of_lt (a := a.withThread th) h

theorem entries_withThread_of_le {k : Nat} (th : Thread) (h : a.retired.length ≤ k) :
    (a.withThread th).entries[k]? = th.ring.toList[k - a.retired.length]? :=
  entries_of_le (a := a.withThread th) h

/-- Entries that have left are not touched by work in the thread. -/
theorem pointwise_entries {R : Entry → Entry → Prop} {th : Thread} (hr : ∀ e, R e e)
    (ring : Pointwise R a.thread.ring.toList th.ring.toList) :
    Pointwise R a.entries (a.withThread th).entries := by
  intro k
  by_cases hk : k < a.retired.length
  · rw [entries_withThread_of_lt th hk]
    exact rel_refl hr _
  · rw [not_lt] at hk
    rw [entries_of_le hk, entries_withThread_of_le th hk]
    exact ring _

theorem entries_setEntry {th : Thread} {i : Nat} (e : Entry) :
    (a.withThread (th.setEntry i e)).entries =
      (a.withThread th).entries.set (a.retired.length + i) e := by
  have behind : (a.retired.map (·.entry)).length ≤ a.retired.length + i := by
    rw [List.length_map]
    omega
  unfold entries
  rw [Thread.toList_setEntry]
  show a.retired.map (·.entry) ++ th.ring.toList.set i e =
    (a.retired.map (·.entry) ++ th.ring.toList).set (a.retired.length + i) e
  rw [List.set_append_right _ _ behind, List.length_map, Nat.add_sub_cancel_left]

theorem base_eq {th : Thread} (ring : th.ring.length = a.thread.ring.length)
    (nextSeq : th.nextSeq = a.thread.nextSeq) : th.base = a.thread.base := by
  unfold Thread.base
  rw [ring, nextSeq]

/-- One entry has changed, but has not got any further. -/
theorem quiet_setEntry {i : Nat} {e e' : Entry} (entry : a.thread.ring.get? i = some e)
    (same : e.SamePoint e') (latency : e.Lengthens e') :
    Quiet a (a.withThread (a.thread.setEntry i e')) := by
  rw [← Ring.getElem?_toList] at entry
  refine ⟨⟨rfl, rfl, rfl, rfl, ?_, rfl, rfl⟩, pointwise_entries Entry.SamePoint.refl ?_,
    pointwise_entries Entry.Lengthens.refl ?_⟩
  · exact base_eq (Thread.length_setEntry _ _ _) rfl
  · rw [Thread.toList_setEntry]
    exact .set Entry.SamePoint.refl entry same
  · rw [Thread.toList_setEntry]
    exact .set Entry.Lengthens.refl entry latency

/-- The entries have not changed at all. -/
theorem quiet_of_sameFlow {th : Thread} (same : a.thread.SameFlow th) : Quiet a (a.withThread th) := by
  refine ⟨⟨rfl, rfl, rfl, same.inWindow, ?_, same.registers, same.stores⟩,
    pointwise_entries Entry.SamePoint.refl ?_, pointwise_entries Entry.Lengthens.refl ?_⟩
  · exact base_eq (by rw [same.ring]) same.nextSeq
  · rw [same.ring]
    exact .refl Entry.SamePoint.refl _
  · rw [same.ring]
    exact .refl Entry.Lengthens.refl _

/-- The instruction of an entry has been fetched. -/
theorem quiet_fetch {i : Nat} {e : Entry} (entry : a.thread.ring.get? i = some e) :
    Quiet a (a.withThread (a.thread.setEntry i e.fetched)) :=
  quiet_setEntry entry rfl ⟨Nat.le_refl _, fun _ => rfl⟩

/-- Memory has said how long the access of an entry takes. -/
theorem quiet_resolve {i : Nat} {e : Entry} {hit : Location} {cycles : Nat} {u : OpInstance}
    (entry : a.thread.ring.get? i = some e) (waiting : e.isDone = false)
    (resolved : e.u.resolveData hit cycles = .ok u) :
    Quiet a (a.withThread (a.thread.setEntry i { e with u })) := by
  refine quiet_setEntry entry ?_ ⟨OpInstance.le_resolveData resolved, fun done => ?_⟩
  · rw [OpInstance.resolveData_eq_ok resolved]
    rfl
  · exact absurd (Entry.isDone_eq_false_iff.mp waiting) done

/-- The oldest buffered entry has entered the window. -/
theorem enters_of_dispatch {th : Thread} {e e' : Entry}
    (next : a.thread.ring.get? a.thread.inWindow = some e)
    (linked : Thread.link config.window.forwarding e.fetched a.thread = .ok e' th) :
    Enters config a (a.withThread (th.enter
      { e' with dispatched := a.clock.now, ready := max e'.ready a.clock.next })) e e' th := by
  have link := Thread.linked_link linked
  have inWindow : th.inWindow = a.thread.inWindow := by rw [link.thread]
  have at_edge : a.entries[a.edge]? = some e := by
    unfold edge
    rw [entries_add, Ring.getElem?_toList]
    exact next
  have listed : Pointwise (Entry.Listed e.seq) a.entries (a.withThread th).entries :=
    pointwise_entries Entry.Listed.refl link.ring
  -- linking tells producers of the entry; then the entry itself is replaced
  have entries : ∀ x : Entry, (a.withThread (th.enter x)).entries =
      (a.withThread th).entries.set a.edge x := by
    intro x
    show (a.withThread (th.setEntry th.inWindow x)).entries = _
    rw [entries_setEntry, inWindow]
    rfl
  refine
    { next := at_edge, linked := link, clock := rfl, pushed := rfl, retired := rfl, inWindow := ?_,
      base := ?_, tables := ⟨rfl, rfl⟩, entered := ?_, others := ?_, left := ?_, ring := ?_ }
  · show th.inWindow + 1 = a.thread.inWindow + 1
    rw [inWindow]
  · refine base_eq ?_ ?_
    · show (th.setEntry th.inWindow _).ring.length = _
      rw [Thread.length_setEntry]
      exact Thread.length_of_pointwise link.ring
    · show th.nextSeq = a.thread.nextSeq
      rw [link.thread]
  · rw [entries]
    refine List.getElem?_set_self ?_
    rw [listed.length_eq]
    exact (List.getElem?_eq_some_iff.mp at_edge).1
  · intro j hj
    rw [entries, List.getElem?_set_ne (Ne.symm hj)]
    exact listed j
  · intro j hj
    exact entries_withThread_of_lt _ hj
  · intro i hi
    rw [entries, List.getElem?_set_ne (by unfold edge; omega)]
    exact entries_add (a := a.withThread th) i

theorem issues_of_start {th : Thread} {i : Nat} {e : Entry}
    {latency : Time} (inside : i < a.thread.inWindow) (entry : a.thread.ring.get? i = some e)
    (waiting : e.isDone = false) (ready : e.ready ≤ a.clock.now)
    (started : Thread.start i e a.clock.now (e.doneFrom a.clock) latency a.thread = .ok () th) :
    Issues a (a.withThread th) (a.retired.length + i) e (e.doneFrom a.clock) := by
  obtain ⟨frame, -, woken, others, heard⟩ := Thread.start_eq_ok started
  have not_done : e.done = .never := Entry.isDone_eq_false_iff.mp waiting
  have at_k : a.entries[a.retired.length + i]? = some e := by
    rw [entries_add, Ring.getElem?_toList]
    exact entry
  -- the entry is marked first, and wakes its consumers afterwards
  let issued : Entry := { e with issued := a.clock.now, done := e.doneFrom a.clock }
  have before : (a.withThread (a.thread.setEntry i issued)).entries =
      a.entries.set (a.retired.length + i) issued := entries_setEntry issued
  have onRing : Pointwise (Entry.Woken e.seq (e.doneFrom a.clock))
      (a.thread.setEntry i issued).ring.toList th.ring.toList := by
    rw [Thread.toList_setEntry]
    exact woken
  have length : th.ring.length = a.thread.ring.length := by
    rw [Thread.length_of_pointwise onRing, Thread.length_setEntry]
  refine { same := ⟨rfl, rfl, rfl, ?_, ?_, ?_, ?_⟩, inRing := Nat.le_add_right _ _, inWindow := ?_,
           entry := at_k, waiting := not_done, ready := ready, result := rfl, woken := ?_, left := ?_,
           others := ?_, itself := ?_, heard := ?_ }
  · show th.inWindow = a.thread.inWindow
    rw [frame]
  · refine base_eq length ?_
    rw [frame]
  · show th.registers = a.thread.registers
    rw [frame]
  · show th.stores = a.thread.stores
    rw [frame]
  · unfold edge
    omega
  · rw [← before]
    exact pointwise_entries (a := a.withThread (a.thread.setEntry i issued))
      (Entry.Woken.refl) onRing
  · intro j hj
    exact entries_withThread_of_lt _ hj
  · intro j x hj hx asleep
    by_cases left : j < a.retired.length
    · exact (entries_withThread_of_lt th left).trans hx
    · rw [not_lt] at left
      rw [entries_of_le left] at hx
      refine (entries_withThread_of_le th left).trans (others _ x ?_ asleep)
      unfold Thread.issuedAt
      rw [List.getElem?_set_ne (by omega)]
      exact hx
  · intro asleep
    have inRing : i < a.thread.ring.toList.length := by
      rw [← Ring.getElem?_toList] at entry
      exact (List.getElem?_eq_some_iff.mp entry).1
    rw [← others i issued (List.getElem?_set_self inRing) asleep]
    exact entries_add (a := a.withThread th) i
  · intro q hq
    obtain ⟨j, x, x', hx, hx', hseq, hears⟩ := heard q hq
    refine ⟨a.retired.length + j, x, x', ?_, ?_, hseq, hears⟩
    · rw [← before, ← hx, Thread.issuedAt, ← Thread.toList_setEntry]
      exact entries_add (a := a.withThread (a.thread.setEntry i issued)) j
    · rw [← hx']
      exact entries_add (a := a.withThread th) j

/-- Everything that happens inside a thread is of one of three kinds. -/
theorem moves_of_work {th : Thread}
    (work : Thread.Work config a.clock a.thread th) : Moves config a (a.withThread th) := by
  have quiet : ∀ {b : Account}, Quiet a b → Moves config a b := fun h => .quiet h.same h.entries h.latencies
  cases work with
  | keep same => exact quiet (quiet_of_sameFlow same)
  | fetch next => exact quiet (quiet_fetch next)
  | dispatch next linked => exact .enter (enters_of_dispatch next linked)
  | resolve inside entry waiting resolved => exact quiet (quiet_resolve entry waiting resolved)
  | issue inside entry waiting ready started => exact .issue (issues_of_start inside entry waiting ready started)

end Account

/-! ## Section 5: Steps by position -/

/-- The entry has not entered the window. -/
structure Entry.Fresh (e : Entry) : Prop where
  /-- It is not known when it may issue. -/
  ready : e.ready = .never
  /-- It has not issued. -/
  issued : e.issued = .never
  /-- Its result is not available. -/
  done : e.done = .never

theorem Entry.fresh_new (u : OpInstance) (seq : Nat) : (Entry.new u seq).Fresh := ⟨rfl, rfl, rfl⟩

theorem Entry.fresh_restart (e : Entry) (seq : Nat) : (e.restart seq).Fresh := ⟨rfl, rfl, rfl⟩

namespace Account

variable {config : Config} {a b : Account}

/-- The micro-op `u` has been taken in as the entry `e`. -/
structure Takes (a b : Account) (u : OpInstance) (e : Entry) : Prop where
  /-- The entry comes last. -/
  entries : b.entries = a.entries ++ [e]
  /-- It has not entered the window. -/
  fresh : e.Fresh
  /-- It wakes nobody. -/
  dependants : e.dependants.toList = []
  /-- It waits for what it has been told to wait for. -/
  producers : e.u.producers = u.producers
  /-- The clock stands still. -/
  clock : b.clock = a.clock
  /-- The micro-op has been taken in. -/
  pushed : b.pushed = a.pushed ++ [u]
  /-- Nothing has been let out. -/
  retired : b.retired = a.retired
  /-- The window has kept its size. -/
  inWindow : b.thread.inWindow = a.thread.inWindow
  /-- Numbers have stayed. -/
  base : b.thread.base = a.thread.base
  /-- The register table is the same. -/
  registers : b.thread.registers = a.thread.registers
  /-- The store table is the same. -/
  stores : b.thread.stores = a.thread.stores

/-- The window has started over: everything in the ring is as if it had just been pushed. -/
structure Restarts (a b : Account) : Prop where
  /-- What has left is not touched. -/
  left : ∀ k, k < a.retired.length → b.entries[k]? = a.entries[k]?
  /-- What is in the ring starts over under another number. -/
  ring : ∀ k, a.retired.length ≤ k →
    ∃ seq, b.entries[k]? = a.entries[k]?.map fun e => e.restart seq
  /-- The clock stands still. -/
  clock : b.clock = a.clock
  /-- Nothing has been taken in. -/
  pushed : b.pushed = a.pushed
  /-- Nothing has been let out. -/
  retired : b.retired = a.retired
  /-- The window is empty. -/
  inWindow : b.thread.inWindow = 0
  /-- No register has a writer. -/
  registers : b.thread.registers = .empty
  /-- No store is in flight, and no fence. -/
  stores : b.thread.stores = a.thread.stores.clear

/-- A step, seen by position. -/
inductive Passes (config : Config) (a b : Account) : Prop
  /-- Work inside the thread. -/
  | moves (moves : Moves config a b)
  /-- A micro-op is taken in. -/
  | takes {u : OpInstance} {e : Entry} (takes : Takes a b u e)
  /-- The oldest entry leaves. -/
  | releases {e : Entry} (oldest : a.thread.oldest? = some e) (done : e.done ≤ a.clock.now)
      (result : b = a.release config e)
  /-- The oldest entry leaves, and the window starts over. -/
  | restarts {e : Entry} (oldest : a.thread.oldest? = some e) (done : e.done ≤ a.clock.now)
      (restarts : Restarts (a.release config e) b)
  /-- Time passes. -/
  | ticks {clock : Clock} (later : a.clock.now ≤ clock.now) (result : b = { a with clock })

theorem takes_of_enqueue (order : InOrder config a) {th : Thread} {lane : Nat} {u v : OpInstance}
    (same : u.SameAtFront v) (pushed : Window.enqueue lane v a.thread = .ok () th) :
    Takes a { a with thread := th, pushed := a.pushed ++ [u] } u (.new v a.thread.nextSeq) := by
  obtain ⟨frame, ring, -, -⟩ := Window.enqueue_eq_ok pushed
  refine
    { entries := ?_, fresh := Entry.fresh_new _ _, dependants := rfl, producers := ?_, clock := rfl,
      pushed := rfl, retired := rfl, inWindow := ?_, base := ?_, registers := ?_, stores := ?_ }
  · unfold entries
    dsimp only
    rw [ring, List.append_assoc]
  · show v.producers = u.producers
    rw [same]
  · show th.inWindow = a.thread.inWindow
    rw [frame]
  · have nextSeq : th.nextSeq = a.thread.nextSeq + 1 := by rw [frame]
    have length : th.ring.length = a.thread.ring.length + 1 := by
      rw [← Ring.length_toList, ring, List.length_append, Ring.length_toList]
      rfl
    have length_le := order.length_le
    show th.nextSeq - th.ring.length = a.thread.nextSeq - a.thread.ring.length
    omega
  · show th.registers = a.thread.registers
    rw [frame]
  · show th.stores = a.thread.stores
    rw [frame]

theorem restarts_of_flush {th : Thread} {penalty : Nat}
    (flushed : a.thread.flush a.clock penalty = .ok th) : Restarts a (a.withThread th) := by
  obtain ⟨ring, -, -, frame⟩ := Thread.flush_eq_ok flushed
  refine
    { left := fun k hk => entries_withThread_of_lt th hk, ring := ?_, clock := rfl, pushed := rfl,
      retired := rfl, inWindow := ?_, registers := ?_, stores := ?_ }
  · intro k hk
    refine ⟨a.thread.nextSeq + (k - a.retired.length), ?_⟩
    rw [entries_withThread_of_le th hk, entries_of_le hk, ring, List.getElem?_mapIdx]
  · show th.inWindow = 0
    rw [frame]
  · show th.registers = .empty
    rw [frame]
  · show th.stores = a.thread.stores.clear
    rw [frame]

theorem InOrder.passes (order : InOrder config a) (step : Step config a b) : Passes config a b := by
  cases step with
  | work work => exact .moves (moves_of_work work)
  | push same pushed => exact .takes (takes_of_enqueue order same pushed)
  | retire oldest done => exact .releases oldest done rfl
  | flush oldest done _ flushed =>
    exact .restarts oldest done (restarts_of_flush (a := a.release config _) flushed)
  | tick _ later => exact .ticks later rfl

/-- The oldest entry stands behind those that have left, inside the window. -/
theorem entries_oldest {e : Entry} (oldest : a.thread.oldest? = some e) :
    a.entries[a.retired.length]? = some e ∧ a.retired.length < a.edge := by
  obtain ⟨inside, ring⟩ := Thread.oldest?_eq_some oldest
  refine ⟨?_, ?_⟩
  · rw [entries_of_le (Nat.le_refl _), ring, Nat.sub_self]
    rfl
  · unfold edge
    omega

theorem length_release (config : Config) (a : Account) (e : Entry) :
    (a.release config e).retired.length = a.retired.length + 1 :=
  List.length_append

theorem edge_release {e : Entry} (oldest : a.thread.oldest? = some e) :
    (a.release config e).edge = a.edge := by
  obtain ⟨inside, -⟩ := Thread.oldest?_eq_some oldest
  have left := length_release config a e
  have inWindow : (a.release config e).thread.inWindow = a.thread.inWindow - 1 := rfl
  unfold edge
  omega

/-! ## Section 6: Where entries come from -/

theorem SameBooks.edge_eq (h : a.SameBooks b) : b.edge = a.edge := by
  unfold edge
  rw [h.retired, h.inWindow]

theorem Enters.edge_eq {e e' : Entry} {th : Thread} (h : Enters config a b e e' th) :
    b.edge = a.edge + 1 := by
  unfold edge
  rw [h.retired, h.inWindow]
  omega

theorem Takes.edge_eq {u : OpInstance} {e : Entry} (h : Takes a b u e) : b.edge = a.edge := by
  unfold edge
  rw [h.retired, h.inWindow]

theorem Restarts.edge_eq (h : Restarts a b) : b.edge = a.retired.length := by
  unfold edge
  rw [h.retired, h.inWindow, Nat.add_zero]

theorem InOrder.edge_le (h : InOrder config a) : a.edge ≤ a.entries.length := by
  have := h.inWindow_le
  unfold edge entries
  rw [List.length_append, List.length_map, Ring.length_toList]
  omega

variable {k : Nat} {e x : Entry}

/-- The result of an entry takes time. -/
theorem Issues.later {done : Time} {i : Nat} (h : Issues a b i e done) : a.clock.now ≤ done := by
  rw [h.result]
  exact e.le_doneFrom a.clock

/-- What waits for the entry knows when its result is available. -/
theorem Issues.exists_told {done : Time} {i q : Nat} (h : Issues a b i e done)
    (mem : q ∈ e.dependants.toList) :
    ∃ (j : Nat) (x : Entry), b.entries[j]? = some x ∧ x.seq = q ∧ done ≤ x.readyMax := by
  obtain ⟨j, x, x', hx, hx', same, hears⟩ := h.heard q mem
  obtain ⟨y, hy, woken⟩ := h.woken.left hx
  rw [hx'] at hy
  cases hy
  exact ⟨j, x', hx', woken.seq_eq.trans same, hears.told⟩

/-- What stands at `k` once `e` has issued. -/
theorem Issues.entry_before {done : Time} {i : Nat} (h : Issues a b i e done)
    (at_k : b.entries[k]? = some x) :
    (k = i ∧ Entry.Woken e.seq done { e with issued := a.clock.now, done } x) ∨
      (k ≠ i ∧ ∃ y, a.entries[k]? = some y ∧ y.Woken e.seq done x) := by
  obtain ⟨y, hy, woken⟩ := h.woken.right at_k
  by_cases same : k = i
  · subst same
    rw [List.getElem?_set_self (List.getElem?_eq_some_iff.mp h.entry).1] at hy
    cases hy
    exact .inl ⟨rfl, woken⟩
  · rw [List.getElem?_set_ne (Ne.symm same)] at hy
    exact .inr ⟨same, y, hy, woken⟩

/-- The entry that issues is where it was, and may have been woken by itself. -/
theorem Issues.exists_issued {done : Time} {i : Nat} (h : Issues a b i e done) :
    ∃ x, b.entries[i]? = some x ∧ Entry.Woken e.seq done { e with issued := a.clock.now, done } x := by
  obtain ⟨x, hx, woken⟩ := h.woken.left
    (List.getElem?_set_self (List.getElem?_eq_some_iff.mp h.entry).1)
  exact ⟨x, hx, woken⟩

/-- Another entry is where it was, and may have been woken. -/
theorem Issues.exists_other {done : Time} {i : Nat} (h : Issues a b i e done) (hne : k ≠ i)
    (hx : a.entries[k]? = some x) : ∃ x', b.entries[k]? = some x' ∧ x.Woken e.seq done x' := by
  obtain ⟨x', hx', woken⟩ := h.woken.left ((List.getElem?_set_ne hne.symm).trans hx)
  exact ⟨x', hx', woken⟩

/-- What stands elsewhere once `e` has entered the window. -/
theorem Enters.entry_elsewhere {e' : Entry} {th : Thread} (h : Enters config a b e e' th)
    (at_k : b.entries[k]? = some x) (hne : k ≠ a.edge) :
    ∃ y, a.entries[k]? = some y ∧ y.Listed e.seq x :=
  rel_right (h.others k hne) at_k

/-- What stands at `k` once `e` has entered the window. -/
theorem Enters.entry_before {e' : Entry} {th : Thread} (h : Enters config a b e e' th)
    (at_k : b.entries[k]? = some x) :
    (k = a.edge ∧ x = { e' with dispatched := a.clock.now, ready := max e'.ready a.clock.next }) ∨
      (k ≠ a.edge ∧ ∃ y, a.entries[k]? = some y ∧ y.Listed e.seq x) := by
  by_cases at_edge : k = a.edge
  · rw [at_edge, h.entered] at at_k
    cases at_k
    exact .inl ⟨at_edge, rfl⟩
  · exact .inr ⟨at_edge, h.entry_elsewhere at_k at_edge⟩

/-- What is taken in stands behind all others. -/
theorem Takes.entry_before {u : OpInstance} (h : Takes a b u e) (at_k : b.entries[k]? = some x) :
    (k = a.entries.length ∧ x = e) ∨ a.entries[k]? = some x := by
  rw [h.entries] at at_k
  exact getElem?_concat_cases at_k

/-- What starts over has not left. -/
theorem Restarts.entry_before (h : Restarts a b) (at_k : b.entries[k]? = some x) :
    (k < a.retired.length ∧ a.entries[k]? = some x) ∨
      (a.retired.length ≤ k ∧ ∃ y seq, a.entries[k]? = some y ∧ x = y.restart seq) := by
  by_cases left : k < a.retired.length
  · rw [h.left k left] at at_k
    exact .inl ⟨left, at_k⟩
  · rw [not_lt] at left
    obtain ⟨seq, same⟩ := h.ring k left
    rw [same] at at_k
    obtain ⟨y, hy, rfl⟩ := Option.map_eq_some_iff.mp at_k
    exact .inr ⟨left, y, seq, hy, rfl⟩

/-- Work inside a thread leaves every micro-op at its position. -/
theorem Moves.sameOp (h : Moves config a b) : Pointwise Entry.SameOp a.entries b.entries := by
  cases h with
  | quiet same entries =>
    refine entries.mono fun e e' point => ⟨?_, ?_⟩
    · rw [point]
      rfl
    · rw [point]
      rfl
  | @enter e e' th enters =>
    intro k
    by_cases at_edge : k = a.edge
    · rw [at_edge, enters.next, enters.entered]
      exact .some ⟨enters.linked.seq_eq, enters.linked.sameOp.inProgram_eq⟩
    · exact rel_mono (fun _ _ => Entry.Listed.sameOp) (enters.others k at_edge)
  | @issue k e done issues =>
    have issued : Pointwise Entry.SameOp a.entries
        (a.entries.set k { e with issued := a.clock.now, done }) :=
      .set Entry.SameOp.refl issues.entry ⟨rfl, rfl⟩
    exact issued.trans (fun _ _ _ => .trans) (issues.woken.mono fun _ _ => Entry.Woken.sameOp)

end Account

end CoreTiming
