import CoreTiming.Proofs.AddressRecords
import CoreTiming.Proofs.Bandwidth
import CoreTiming.Proofs.Issuing
import CoreTiming.Proofs.ReadAfterWrite

/-!
# One access for every load and store

Memory is asked about a load or store when it issues, unless the front end has settled where it is served.  The
answer stays with the micro-op when the window starts over, so one that issues again does not ask again.

A memory can be made to keep its answers (`Replying`), and then each of them can be attributed to a micro-op: no
two to the same one, and to each micro-op the answer by which it takes longer than it was pushed with
(`Account.AskedOnce`).  Whatever needs memory has been given its answer by the time it leaves
(`Chronicle.asks_memory_once`), unless it leaves at the end of time, when an entry may leave that has not issued
(`Chronicle.leaves_without_asking`).
-/

namespace CoreTiming

open Faulting

/-! ## Section 1: Memories that keep their answers -/

/-- An access, and the answer to it. -/
structure Reply where
  /-- The access. -/
  access : MemoryAccess
  /-- The answer. -/
  served : Served
  deriving DecidableEq

/-- A memory with a record of its answers to data accesses. -/
structure Replying (M : Type) where
  /-- The memory. -/
  memory : M
  /-- All answers so far, the first one first. -/
  replies : List Reply := []

/-- Passes an access on, and notes down the answer. -/
def Replying.access {M : Type} [MemorySystem M] (a : MemoryAccess) : Faulting (Replying M) Served := fun m =>
  match MemorySystem.access a m.memory with
  | .ok served memory => .ok served { memory, replies := m.replies ++ [⟨a, served⟩] }
  | .error f memory => .error f { m with memory }

instance {M : Type} [MemorySystem M] : MemorySystem (Replying M) where
  default := { memory := default }
  access := Replying.access
  fetch address size := zoom (·.memory) (fun memory m => { m with memory }) (MemorySystem.fetch address size)

namespace MemorySystem

variable {M : Type} [MemorySystem M] {m m' : M}

/-- A request takes a memory from one state to another. -/
inductive Asks : M → M → Prop
  /-- A data access. -/
  | access {m m' : M} {a : MemoryAccess} {served : Served} (answered : access a m = .ok served m') : Asks m m'
  /-- A fetch. -/
  | fetch {m m' : M} {address : Address} {size : Nat} {served : Served}
      (answered : fetch address size m = .ok served m') : Asks m m'

/-- Whatever it is asked before, the memory always tells where an access is served. -/
def Resolves (m : M) : Prop :=
  ∀ (m₁ m₂ : M) (a : MemoryAccess) (served : Served), Relation.ReflTransGen Asks m m₁ →
    access a m₁ = .ok served m₂ → served.hit ≠ .unresolved

theorem Resolves.later (h : Resolves m) (path : Relation.ReflTransGen Asks m m') : Resolves m' :=
  fun m₁ m₂ a served onwards answered => h m₁ m₂ a served (path.trans onwards) answered

/-- A memory of constant latency is the same after it has been asked. -/
theorem eq_of_asks_fixed {m m' : FixedMemory} (path : Relation.ReflTransGen Asks m m') : m' = m := by
  induction path with
  | refl => rfl
  | tail _ asks ih =>
    subst ih
    cases asks with
    | access answered | fetch answered => exact (pure_eq_ok.mp answered).2.symm

/-- It always tells where an access is served if its only answer does. -/
theorem resolves_fixed {m : FixedMemory} (tells : m.data.hit ≠ .unresolved) : Resolves m := by
  intro m₁ m₂ a served path answered
  obtain rfl := eq_of_asks_fixed path
  rw [← (pure_eq_ok.mp answered).1]
  exact tells

end MemorySystem

namespace Replying

variable {M : Type} [MemorySystem M] {m m' m'' : Replying M} {a : MemoryAccess} {served : Served}

theorem access_eq_ok : MemorySystem.access a m = .ok served m' ↔
    ∃ memory, MemorySystem.access a m.memory = .ok served memory ∧
      m' = { memory, replies := m.replies ++ [⟨a, served⟩] } := by
  show Replying.access a m = _ ↔ _
  unfold Replying.access
  cases MemorySystem.access a m.memory with
  | ok served₁ memory =>
    constructor
    · intro same
      cases same
      exact ⟨memory, rfl, rfl⟩
    · rintro ⟨memory₁, same, rfl⟩
      cases same
      rfl
  | error f memory => simp

/-- The memory has given no more answers to data accesses, and is in a state to which requests have led it. -/
structure Unasked (m m' : Replying M) : Prop where
  /-- No answer has been added. -/
  replies : m'.replies = m.replies
  /-- Requests lead from one state to the other. -/
  asks : Relation.ReflTransGen MemorySystem.Asks m.memory m'.memory

theorem Unasked.refl (m : Replying M) : m.Unasked m := ⟨rfl, .refl⟩

theorem Unasked.trans (h : m.Unasked m') (h' : m'.Unasked m'') : m.Unasked m'' :=
  ⟨h'.replies.trans h.replies, h.asks.trans h'.asks⟩

theorem unasked_fetch {address : Address} {size : Nat} (h : MemorySystem.fetch address size m = .ok served m') :
    m.Unasked m' := by
  obtain ⟨memory, answered, rfl⟩ := zoom_eq_ok.mp h
  exact ⟨rfl, .single (.fetch answered)⟩

/-- The memory has not been asked yet, and will always tell where an access is served. -/
structure Fresh (m : Replying M) : Prop where
  /-- It has not answered. -/
  replies : m.replies = []
  /-- It always tells. -/
  resolves : MemorySystem.Resolves m.memory

end Replying

/-! ## Section 2: Who has asked -/

/-- An answer, and the position in the program of the micro-op that it was given to. -/
structure Query where
  /-- The position. -/
  position : Nat
  /-- The access and the answer. -/
  reply : Reply
  deriving DecidableEq

/-- Where the access of the micro-op is served, and how long it takes, is as before; if that was still to be asked, no
result has come up since. -/
structure Entry.SameAccess (e e' : Entry) : Prop where
  /-- It is the same micro-op. -/
  op : e'.u.op = e.u.op
  /-- Its access is served at the same place. -/
  dataHit : e'.u.dataHit = e.u.dataHit
  /-- It takes as long. -/
  latency : e'.u.latency = e.u.latency
  /-- A result is new only if memory need not be asked. -/
  settles : e'.done ≠ .never → e.done ≠ .never ∨ e.u.needsMemory = false

namespace Entry

variable {e e' e'' : Entry}

theorem SameAccess.refl (e : Entry) : e.SameAccess e := ⟨rfl, rfl, rfl, .inl⟩

theorem SameAccess.needsMemory_eq (h : e.SameAccess e') : e'.u.needsMemory = e.u.needsMemory := by
  unfold OpInstance.needsMemory
  rw [h.op, h.dataHit]

theorem SameAccess.trans (h : e.SameAccess e') (h' : e'.SameAccess e'') : e.SameAccess e'' := by
  refine ⟨h'.op.trans h.op, h'.dataHit.trans h.dataHit, h'.latency.trans h.latency, fun done => ?_⟩
  rcases h'.settles done with before | known
  · exact h.settles before
  · exact .inr (h.needsMemory_eq ▸ known)

theorem Woken.sameAccess {seq : Nat} {done : Time} (h : e.Woken seq done e') : e.SameAccess e' := by
  refine ⟨?_, ?_, ?_, fun done => .inl ?_⟩
  · rw [h.frame]
  · rw [h.frame]
  · rw [h.frame]
  · rwa [h.frame] at done

theorem Listed.sameAccess {consumer : Nat} (h : e.Listed consumer e') : e.SameAccess e' := by
  refine ⟨?_, ?_, ?_, fun done => .inl ?_⟩
  · rw [h.frame]
  · rw [h.frame]
  · rw [h.frame]
  · rwa [h.frame] at done

/-- What starts over knows what it knew of its access. -/
theorem sameAccess_restart (e : Entry) (seq : Nat) : e.SameAccess (e.restart seq) :=
  ⟨rfl, rfl, rfl, fun done => absurd rfl done⟩

end Entry

theorem OpInstance.latency_resolveData {u u' : OpInstance} {hit : Location} {cycles : Nat}
    (h : u.resolveData hit cycles = .ok u') : u' = { u with dataHit := hit, latency := u.latency + cycles } := by
  obtain ⟨latency, added, h⟩ := Except.bind_eq_ok.mp h
  cases h
  rw [(Word.add_eq_ok_iff.mp added).2]

namespace Account

variable {config : Config} {a b : Account} {k : Nat} {reply : Reply} {replies : List Reply} {queries : List Query}

/-- The micro-op at `k` needed memory, and `reply` is what memory has said of its access: there it is served, and the
micro-op takes as many cycles longer than it was pushed with as the answer comes to. -/
def AskedFor (a : Account) (k : Nat) (reply : Reply) : Prop :=
  ∃ (u : OpInstance) (e : Entry) (cycles : Nat), a.pushed[k]? = some u ∧ a.entries[k]? = some e ∧
    u.needsMemory = true ∧ reply.access = u.access ∧
    reply.served.latency.divideRounded a.clock.period.length = .ok cycles ∧
    e.u.dataHit = reply.served.hit ∧ e.u.latency = u.latency + cycles

/-- The answers of memory have been given to micro-ops of the thread, to each one at most, and all others are as they
were pushed. -/
structure AskedOnce (a : Account) (replies : List Reply) (queries : List Query) : Prop where
  /-- All answers are accounted for. -/
  replies : queries.map (·.reply) = replies
  /-- No two of them were given to the same micro-op. -/
  once : (queries.map (·.position)).Nodup
  /-- Each was given to a micro-op that needed it. -/
  asked : ∀ q ∈ queries, a.AskedFor q.position q.reply
  /-- Whatever has not been given one takes as long as it was pushed with. -/
  others : ∀ (k : Nat) (u : OpInstance) (e : Entry), a.pushed[k]? = some u → a.entries[k]? = some e →
    k ∉ queries.map (·.position) → e.u.dataHit = u.dataHit ∧ e.u.latency = u.latency

/-- From `a` to `b` memory is not asked about any micro-op. -/
structure Unasked (a b : Account) : Prop where
  /-- Cycles are as long as before. -/
  period : b.clock.period = a.clock.period
  /-- What was pushed stays so. -/
  pushed : ∀ (k : Nat) (u : OpInstance), a.pushed[k]? = some u → b.pushed[k]? = some u
  /-- No access is served in another way. -/
  entries : ∀ (k : Nat) (e : Entry), a.entries[k]? = some e → ∃ e', b.entries[k]? = some e' ∧ e.SameAccess e'
  /-- What is new is as it was pushed. -/
  new : ∀ (k : Nat) (e : Entry), b.entries[k]? = some e → a.entries[k]? = none →
    e.done = .never ∧ ∀ u, b.pushed[k]? = some u → e.u.dataHit = u.dataHit ∧ e.u.latency = u.latency

theorem Unasked.of_pointwise (period : b.clock.period = a.clock.period) (pushed : b.pushed = a.pushed)
    (entries : Pointwise Entry.SameAccess a.entries b.entries) : a.Unasked b := by
  refine ⟨period, fun k u hu => ?_, fun k e he => entries.left he, fun k e he none => ?_⟩
  · rw [pushed]
    exact hu
  · obtain ⟨e₀, he₀, -⟩ := entries.right he
    rw [none] at he₀
    cases he₀

theorem Unasked.of_ring {th : Thread}
    (ring : Pointwise Entry.SameAccess a.thread.ring.toList th.ring.toList) : a.Unasked (a.withThread th) :=
  .of_pointwise rfl rfl (pointwise_entries Entry.SameAccess.refl ring)

theorem AskedFor.unasked (h : a.AskedFor k reply) (unasked : a.Unasked b) : b.AskedFor k reply := by
  obtain ⟨u, e, cycles, hu, he, needs, access, rounded, hit, latency⟩ := h
  obtain ⟨e', he', same⟩ := unasked.entries k e he
  refine ⟨u, e', cycles, unasked.pushed k u hu, he', needs, access, ?_, same.dataHit.trans hit,
    same.latency.trans latency⟩
  rw [unasked.period]
  exact rounded

theorem AskedOnce.unasked (h : a.AskedOnce replies queries) (order : InOrder config a) (unasked : a.Unasked b) :
    b.AskedOnce replies queries := by
  refine ⟨h.replies, h.once, fun q mem => (h.asked q mem).unasked unasked, fun k u e hu he other => ?_⟩
  cases before : a.entries[k]? with
  | none => exact (unasked.new k e he before).2 u hu
  | some e₀ =>
    obtain ⟨u₀, hu₀, -⟩ := order.op_of_entry before
    obtain ⟨e', he', same⟩ := unasked.entries k e₀ before
    cases he.symm.trans he'
    cases hu.symm.trans (unasked.pushed k u₀ hu₀)
    obtain ⟨hit, latency⟩ := h.others k u e₀ hu₀ before other
    exact ⟨same.dataHit.trans hit, same.latency.trans latency⟩

/-! ## Section 3: Steps on which nothing is asked -/

theorem unasked_of_intake {th : Thread} (intake : Thread.Intake config a.clock a.thread th) :
    a.Unasked (a.withThread th) := by
  cases intake with
  | keep same =>
    refine .of_ring ?_
    rw [same.ring]
    exact .refl Entry.SameAccess.refl _
  | @fetch e next =>
    rw [← Ring.getElem?_toList] at next
    refine .of_ring ?_
    rw [Thread.toList_setEntry]
    exact .set Entry.SameAccess.refl next ⟨rfl, rfl, rfl, .inl⟩
  | @dispatch th' e e' next linked =>
    have enters := enters_of_dispatch (a := a) next linked
    refine .of_pointwise rfl rfl fun j => ?_
    by_cases here : j = a.edge
    · rw [here, enters.next, enters.entered]
      refine .some ⟨?_, ?_, ?_, fun done => .inl ?_⟩
      · rw [enters.linked.entry]
        rfl
      · rw [enters.linked.entry]
        rfl
      · rw [enters.linked.entry]
        rfl
      · rwa [enters.linked.entry] at done
    · exact rel_mono (fun _ _ => Entry.Listed.sameAccess) (enters.others j here)

theorem Restarts.sameAccesses (h : Restarts a b) : Pointwise Entry.SameAccess a.entries b.entries := by
  intro k
  by_cases left : k < a.retired.length
  · rw [h.left k left]
    exact rel_refl Entry.SameAccess.refl _
  · obtain ⟨seq, same⟩ := h.ring k (not_lt.mp left)
    rw [same]
    exact rel_map (fun e => e.sameAccess_restart seq) _

theorem Takes.unasked {u : OpInstance} {e : Entry} (h : Takes a b u e) (order : InOrder config a)
    (hit : e.u.dataHit = u.dataHit) (latency : e.u.latency = u.latency) : a.Unasked b := by
  refine ⟨by rw [h.clock], fun k v hv => ?_, fun k x hx => ⟨x, ?_, .refl x⟩, fun k x hx none => ?_⟩
  · rw [h.pushed, List.getElem?_append_left (List.getElem?_eq_some_iff.mp hv).1]
    exact hv
  · rw [h.entries, List.getElem?_append_left (List.getElem?_eq_some_iff.mp hx).1]
    exact hx
  · rcases h.entry_before hx with ⟨rfl, rfl⟩ | hx
    · refine ⟨h.fresh.done, fun v hv => ?_⟩
      rw [h.pushed, order.length_pushed, List.getElem?_concat_length] at hv
      cases hv
      exact ⟨hit, latency⟩
    · rw [none] at hx
      cases hx

theorem Drift.unasked (h : Drift config a b) (order : InOrder config a) : a.Unasked b := by
  cases h with
  | @keep th same =>
    have intake : Thread.Intake config a.clock a.thread th := .keep same
    exact unasked_of_intake intake
  | push same pushed =>
    refine (takes_of_enqueue order same pushed).unasked order ?_ ?_
    · rw [same]
      rfl
    · rw [same]
      rfl
  | retire oldest =>
    refine .of_pointwise rfl rfl ?_
    rw [entries_release config oldest]
    exact .refl Entry.SameAccess.refl _
  | flush oldest _ _ flushed =>
    refine .of_pointwise rfl rfl ?_
    rw [← entries_release config oldest]
    exact (restarts_of_flush flushed).sameAccesses
  | tick period => exact .of_pointwise period rfl (.refl Entry.SameAccess.refl _)

/-! ## Section 4: Steps on which memory is asked -/

/-- The memory `m` has answered the thread, and nobody else. -/
structure Consulted {M : Type} [MemorySystem M] (a : Account) (m : Replying M) (queries : List Query) : Prop extends
    a.AskedOnce m.replies queries where
  /-- All answers tell where the access is served. -/
  known : ∀ q ∈ queries, q.reply.served.hit ≠ .unresolved
  /-- So will all answers to come. -/
  resolves : MemorySystem.Resolves m.memory
  /-- No result comes up before memory has been asked. -/
  settled : ∀ (k : Nat) (e : Entry), a.entries[k]? = some e → e.done ≠ .never → e.u.needsMemory = false

variable {M : Type} [MemorySystem M] {m m' : Replying M}

/-- What else is asked of the memory does not matter. -/
theorem Consulted.memory (h : a.Consulted m queries) (unasked : m.Unasked m') : a.Consulted m' queries :=
  ⟨unasked.replies ▸ h.toAskedOnce, h.known, h.resolves.later unasked.asks, h.settled⟩

theorem Consulted.unasked (h : a.Consulted m queries) (order : InOrder config a) (unasked : a.Unasked b) :
    b.Consulted m queries := by
  refine ⟨h.toAskedOnce.unasked order unasked, h.known, h.resolves, fun k e he done => ?_⟩
  cases before : a.entries[k]? with
  | none => exact absurd (unasked.new k e he before).1 done
  | some e₀ =>
    obtain ⟨e', he', same⟩ := unasked.entries k e₀ before
    cases he.symm.trans he'
    rw [same.needsMemory_eq]
    exact (same.settles done).elim (h.settled k e₀ before) id

/-- Whatever has been given an answer knows where its access is served. -/
theorem Consulted.not_asked {e : Entry} (h : a.Consulted m queries) (at_k : a.entries[k]? = some e)
    (needs : e.u.needsMemory = true) : k ∉ queries.map (·.position) := by
  intro mem
  obtain ⟨q, hq, rfl⟩ := List.mem_map.mp mem
  obtain ⟨_, e', _, _, he', _, _, _, hit, _⟩ := h.asked q hq
  cases at_k.symm.trans he'
  simp only [OpInstance.needsMemory, Bool.and_eq_true, beq_iff_eq] at needs
  exact h.known q hq (hit.symm.trans needs.2)

/-- A micro-op that has not been given an answer is given one. -/
theorem AskedOnce.ask {e e' : Entry} {cycles : Nat} (h : a.AskedOnce replies queries) (order : InOrder config a)
    (at_k : a.entries[k]? = some e) (needs : e.u.needsMemory = true) (first : k ∉ queries.map (·.position))
    (access : reply.access = e.u.access)
    (rounded : reply.served.latency.divideRounded a.clock.period.length = .ok cycles)
    (answered : e'.u = { e.u with dataHit := reply.served.hit, latency := e.u.latency + cycles })
    (period : b.clock.period = a.clock.period) (pushed : b.pushed = a.pushed)
    (entries : b.entries = a.entries.set k e') : b.AskedOnce (replies ++ [reply]) (queries ++ [⟨k, reply⟩]) := by
  obtain ⟨v, hv, op, address⟩ := order.op_of_entry at_k
  obtain ⟨hit, latency⟩ := h.others k v e hv at_k first
  have elsewhere : ∀ j, j ≠ k → b.entries[j]? = a.entries[j]? := by
    intro j other
    rw [entries, List.getElem?_set_ne (Ne.symm other)]
  refine ⟨?_, ?_, fun q mem => ?_, fun j u x hu hx none => ?_⟩
  · rw [List.map_append, h.replies]
    rfl
  · rw [List.map_append]
    refine h.once.append (List.nodup_singleton k) ?_
    simpa using first
  · rcases List.mem_append.mp mem with old | new
    · obtain ⟨u, x, cycles', hu, hx, needs, access, rounded, rest⟩ := h.asked q old
      refine ⟨u, x, cycles', pushed ▸ hu, ?_, needs, access, period ▸ rounded, rest⟩
      rw [elsewhere _ fun here => first (here ▸ List.mem_map_of_mem old)]
      exact hx
    · rw [List.mem_singleton.mp new]
      refine ⟨v, e', cycles, pushed ▸ hv, ?_, ?_, ?_, period ▸ rounded, ?_, ?_⟩
      · rw [entries]
        exact List.getElem?_set_self (List.getElem?_eq_some_iff.mp at_k).1
      · rw [← needs, OpInstance.needsMemory, OpInstance.needsMemory, op, hit]
      · rw [access, OpInstance.access, OpInstance.access, op, address]
      · rw [answered]
      · rw [answered, latency]
  · rw [List.map_append, List.mem_append, not_or] at none
    rw [elsewhere j (by simpa using none.2)] at hx
    exact h.others j u x (pushed ▸ hu) hx none.1

/-- Memory is asked about an entry in the ring that needs it. -/
theorem Consulted.ask {n cycles : Nat} {e : Entry} {served : Served} {u : OpInstance} (h : a.Consulted m queries)
    (order : InOrder config a) (entry : a.thread.ring.get? n = some e) (needs : e.u.needsMemory = true)
    (answered : MemorySystem.access e.u.access m = .ok served m')
    (rounded : served.latency.divideRounded a.clock.period.length = .ok cycles)
    (taken : e.u.resolveData served.hit cycles = .ok u) :
    u.needsMemory = false ∧ (a.withThread (a.thread.setEntry n { e with u })).Consulted m'
      (queries ++ [⟨a.retired.length + n, ⟨e.u.access, served⟩⟩]) := by
  have at_k : a.entries[a.retired.length + n]? = some e := by
    rw [entries_add, Ring.getElem?_toList]
    exact entry
  have entries : (a.withThread (a.thread.setEntry n { e with u })).entries =
      a.entries.set (a.retired.length + n) { e with u } := entries_setEntry _
  obtain ⟨memory, asked, rfl⟩ := Replying.access_eq_ok.mp answered
  have same := OpInstance.latency_resolveData taken
  have tells := h.resolves _ _ _ _ .refl asked
  have known : u.needsMemory = false := by
    rw [same]
    simp [OpInstance.needsMemory, tells]
  refine ⟨known, h.toAskedOnce.ask order at_k needs (h.not_asked at_k needs) rfl rounded same rfl rfl entries, ?_,
    h.resolves.later (.single (.access asked)), fun k x hx done => ?_⟩
  · intro q mem
    rcases List.mem_append.mp mem with old | new
    · exact h.known q old
    · rw [List.mem_singleton.mp new]
      exact tells
  · by_cases here : k = a.retired.length + n
    · rw [here, entries, List.getElem?_set_self (List.getElem?_eq_some_iff.mp at_k).1] at hx
      cases hx
      exact known
    · rw [entries, List.getElem?_set_ne (Ne.symm here)] at hx
      exact h.settled k x hx done

end Account

namespace Lane

variable {M : Type} [MemorySystem M] {config : Config} {clock : Clock} {lane lane' : Lane (Replying M)}
  {pushed : List OpInstance} {retired : List Retirement} {queries : List Query}

/-- Before an entry issues, memory has been asked about it if it needs that. -/
theorem Consults.consulted {n : Nat} {e e' : Entry} (h : Consults clock.period n e lane e' lane')
    (consulted : Account.Consulted { clock, thread := lane.thread, pushed, retired } lane.memory queries)
    (order : Account.InOrder config { clock, thread := lane.thread, pushed, retired })
    (entry : lane.thread.ring.get? n = some e) :
    e'.u.needsMemory = false ∧ ∃ queries',
      Account.Consulted { clock, thread := lane'.thread, pushed, retired } lane'.memory queries' := by
  cases h with
  | known resolved => exact ⟨resolved, queries, consulted⟩
  | ask needs answered rounded taken =>
    obtain ⟨known, consulted'⟩ := consulted.ask order entry needs answered rounded taken
    exact ⟨known, _, consulted'⟩

theorem Issuing.consulted (h : Issuing config clock lane lane')
    (consulted : Account.Consulted { clock, thread := lane.thread, pushed, retired } lane.memory queries)
    (reached : Account.Reachable config { clock, thread := lane.thread, pushed, retired }) :
    ∃ queries', Account.Consulted { clock, thread := lane'.thread, pushed, retired } lane'.memory queries' := by
  cases h with
  | @issue lane₁ th n e e₁ inside entry waiting ready consults started =>
    obtain ⟨known, queries', consulted'⟩ := consults.consulted consulted reached.inOrder entry
    have reached' := reached.steps (.of_works (consults.asked.works inside entry waiting))
    obtain ⟨-, -, woken, -, -⟩ := Thread.start_eq_ok started
    have at_n : lane₁.thread.ring.toList[n]? = some e₁ := by
      rw [Ring.getElem?_toList, consults.asked.entry entry]
    have issued : Pointwise Entry.SameAccess lane₁.thread.ring.toList
        (lane₁.thread.issuedAt n e₁ clock.now (e₁.doneFrom clock)) :=
      .set Entry.SameAccess.refl at_n ⟨rfl, rfl, rfl, fun _ => .inr known⟩
    have same := issued.trans (fun _ _ _ => .trans) (woken.mono fun _ _ => Entry.Woken.sameAccess)
    rw [← (Thread.sameFlow_accountLongLoad config.core.longLatencyCutoff clock.now n th).ring] at same
    exact ⟨queries', consulted'.unasked reached'.inOrder
      (.of_ring (a := { clock, thread := lane₁.thread, pushed, retired }) same)⟩
  | look event =>
    exact ⟨queries, consulted.unasked reached.inOrder (.of_ring (.refl Entry.SameAccess.refl _))⟩

/-- Whatever issues, memory answers whoever needs it first. -/
theorem consulted_of_issuing (steps : Relation.ReflTransGen (Issuing config clock) lane lane')
    (consulted : Account.Consulted { clock, thread := lane.thread, pushed, retired } lane.memory queries)
    (reached : Account.Reachable config { clock, thread := lane.thread, pushed, retired }) :
    ∃ queries', Account.Consulted { clock, thread := lane'.thread, pushed, retired } lane'.memory queries' := by
  have both : Account.Reachable config { clock, thread := lane'.thread, pushed, retired } ∧
      ∃ queries', Account.Consulted { clock, thread := lane'.thread, pushed, retired } lane'.memory queries' := by
    induction steps with
    | refl => exact ⟨reached, queries, consulted⟩
    | tail _ step ih =>
      obtain ⟨reached', queries', consulted'⟩ := ih
      exact ⟨reached'.steps (.of_works step.works), step.consulted consulted' reached'⟩
  exact both.2

/-- A push asks memory for the instruction only. -/
theorem unasked_pushOne {period : Period} {i : Nat} {u : OpInstance}
    (h : Window.pushOne period i u lane = .ok () lane') : lane.memory.Unasked lane'.memory := by
  rcases Window.pushOne_eq_ok h with ⟨-, rfl⟩ | ⟨-, u', lane₁, th, fetched, -, rfl⟩
  · exact .refl _
  · show lane.memory.Unasked lane₁.memory
    cases Window.fetches_of_fetch fetched with
    | settled => exact .refl _
    | hit _ answered | miss _ answered => exact Replying.unasked_fetch answered

theorem unasked_pushes {period : Period} {i : Nat} {us : List OpInstance}
    (h : us.forM (Window.pushOne period i) lane = .ok () lane') : lane.memory.Unasked lane'.memory := by
  induction us generalizing lane with
  | nil =>
    obtain ⟨-, rfl⟩ := pure_eq_ok.mp h
    exact .refl _
  | cons u us ih =>
    obtain ⟨⟨⟩, lane₁, first, h⟩ := bind_eq_ok.mp h
    exact (unasked_pushOne first).trans (ih h)

end Lane

/-! ## Section 5: Windows -/

namespace Window

variable {M : Type} [MemorySystem M] {w v x : Window (Replying M)} {i : Nat} {lane lane' : Lane (Replying M)}

/-- From `w` to `v` memory is not asked about any micro-op. -/
def Unasked (w v : Window (Replying M)) : Prop :=
  ∀ i : Nat, Option.Rel (fun l l' => l.memory.Unasked l'.memory) w.lanes[i]? v.lanes[i]?

theorem Unasked.refl (w : Window (Replying M)) : w.Unasked w := fun _ => rel_refl (fun l => .refl l.memory) _

theorem Unasked.trans (h : w.Unasked v) (h' : v.Unasked x) : w.Unasked x := by
  refine fun i => rel_trans (fun _ _ _ first => ?_) (h i) (h' i)
  exact first.trans

/-- A single lane has changed. -/
theorem Unasked.of_lane (found : w.lanes[i]? = some lane) (lanes : v.lanes = w.lanes.setIfInBounds i lane')
    (memory : lane.memory.Unasked lane'.memory) : w.Unasked v := by
  intro j
  rw [lanes]
  exact rel_setIfInBounds (fun l => .refl l.memory) found memory j

theorem unasked_onThread {α : Type} {f : Faulting Thread α} {a : α} (ran : onThread i f w = .ok a v) : w.Unasked v := by
  obtain ⟨l, th, found, -, rfl⟩ := onThread_eq_ok.mp ran
  exact .of_lane found rfl (.refl _)

theorem Admit.unasked (h : Admit w v) : w.Unasked v := by
  cases h with
  | begin ran | block _ ran | blame ran => exact unasked_onThread ran
  | enter _ ran => exact fun i => unasked_onThread ran i
  | turn => exact fun i => Unasked.refl w i

theorem unasked_dispatch {running : Running} {event : Time} (ran : dispatch running w = .ok event v) :
    w.Unasked v := by
  have moves := admits_dispatch ran
  clear ran
  induction moves with
  | refl => exact .refl w
  | tail _ admitted ih => exact ih.trans admitted.unasked

theorem unasked_forM_commitLane {lanes : List Nat} (ran : lanes.forM commitLane w = .ok () v) : w.Unasked v := by
  refine keeps_of_forM ran (fun {i x y} turn before => before.trans ?_) (.refl w)
  obtain ⟨l, th, freed, found, -, same⟩ := commitLane_eq_ok turn
  have lanes : y.lanes = x.lanes.setIfInBounds i { l with thread := th } := by rw [same]
  exact .of_lane found lanes (.refl l.memory)

/-- A call that sets up no thread and runs no cycles does not ask memory about micro-ops. -/
theorem Call.unasked {stride : Stride (Replying M)} {call : Call (Replying M)} (h : call.perform stride w = .ok () v)
    (old : ∀ i memory predictor, call ≠ .initializeThread i memory predictor)
    (idle : ∀ running, call ≠ .execute running) : w.Unasked v := by
  cases call with
  | initializeThread i memory predictor => exact absurd rfl (old i memory predictor)
  | push i us =>
    obtain ⟨l, l', found, ran, rfl⟩ := push_eq_ok h
    exact .of_lane found rfl (Lane.unasked_pushes ran)
  | execute running => exact absurd rfl (idle running)
  | synchronize i time =>
    obtain ⟨w₁, now, moved, -, -, rfl⟩ := synchronize_eq_ok h
    exact fun i => unasked_onThread moved i
  | returnLatency i inWakeup =>
    exact unasked_onThread (Call.told_of_returnLatency h)
  | markEndOfStream i =>
    have marked : modifyThread i (fun th => { th with endOfStream := true }) w = .ok () v := h
    exact unasked_onThread marked
  | repartition running =>
    obtain rfl := modify_eq_ok.mp h
    exact fun i => Unasked.refl w i

end Window

/-! ## Section 6: All points of all runs -/

namespace Account

/-- Steps lead from `a` to `b` on which memory is not asked about any micro-op. -/
def Idles (config : Config) (a b : Account) : Prop := Steps config a b ∧ (InOrder config a → a.Unasked b)

variable {config : Config} {a b : Account}

theorem idles_of_intake {th : Thread} (intake : Thread.Intake config a.clock a.thread th) :
    Idles config a (a.withThread th) :=
  ⟨.single (.work intake.work), fun _ => unasked_of_intake intake⟩

theorem Drift.idles (h : Drift config a b) : Idles config a b := ⟨.single h.step, h.unasked⟩

end Account

namespace Chronicle

variable {M : Type} [MemorySystem M] {config : Config} {running : Running} {phase : Phase}
  {c c' : Chronicle (Replying M)} {v : Window (Replying M)} {event : Time}

/-- The memory of every thread has answered that thread, and nobody else. -/
def Consulted (c : Chronicle (Replying M)) : Prop :=
  ∀ (i : Nat) (lane : Lane (Replying M)), c.window.lanes[i]? = some lane →
    ∃ queries, (c.account i lane).Consulted lane.memory queries

theorem Consulted.leads {us : Nat → List OpInstance} {rs : Nat → List Retirement} (h : c.Consulted)
    (inPhase : c.InPhase config phase) (leads : Window.Leads Account.Idles us rs c.window v)
    (memory : c.window.Unasked v) :
    Consulted { window := v, pushed := fun i => c.pushed i ++ us i, retired := fun i => c.retired i ++ rs i } := by
  intro i lane' found'
  obtain ⟨lane, found, steps⟩ := rel_right (leads.lanes i) found'
  obtain ⟨lane₁, found₁, unasked⟩ := rel_right (memory i) found'
  cases found.symm.trans found₁
  obtain ⟨queries, consulted⟩ := h i lane found
  rw [inPhase.config_eq] at steps
  have kept := steps.keeps (P := fun a => Account.Reachable config a ∧ a.Consulted lane.memory queries)
    (fun idles both => ⟨both.1.steps idles.1, both.2.unasked both.1.inOrder (idles.2 both.1.inOrder)⟩)
    (c.pushed i) (c.retired i) ⟨(inPhase.lanes i lane found).reachable, consulted⟩
  exact ⟨queries, kept.2.memory unasked⟩

theorem Consulted.dispatch (h : c.Consulted) (inPhase : c.InPhase config phase)
    (ran : Window.dispatch running c.window = .ok event v) : Consulted { c with window := v } := by
  have led := h.leads inPhase ((Window.worked_dispatch ran).leads Account.idles_of_intake) (Window.unasked_dispatch ran)
  simpa using led

theorem Consulted.issue (h : c.Consulted) (inPhase : c.InPhase config phase)
    (ran : Window.issue c.window = .ok event v) : Consulted { c with window := v } := by
  have launches := Window.launches_issue ran
  intro i lane' found'
  obtain ⟨lane, found, steps⟩ := rel_right (launches.lanes i) found'
  obtain ⟨queries, consulted⟩ := h i lane found
  rw [inPhase.config_eq] at steps
  have issued := Lane.consulted_of_issuing steps consulted (inPhase.lanes i lane found).reachable
  rw [← launches.clock] at issued
  exact issued

theorem Consulted.commit (h : c.Consulted) (inPhase : c.InPhase config phase)
    (ran : Window.commit c.window = .ok event v) :
    Consulted { c with window := v, retired := fun i => c.retired i ++ c.window.leaving i } := by
  have led := h.leads inPhase ((Window.leads_commit ran).mono fun left => left.drift.idles)
    (Window.unasked_forM_commitLane (Window.commit_eq_ok ran))
  simpa using led

theorem Consulted.advance (h : c.Consulted) (inPhase : c.InPhase config phase) (span : Time) :
    Consulted { c with window := c.window.advance span } := by
  intro i lane found
  obtain ⟨lane₀, found₀, rfl⟩ : ∃ lane₀, c.window.lanes[i]? = some lane₀ ∧ _ := by
    simpa [Window.advance] using found
  obtain ⟨queries, consulted⟩ := h i lane₀ found₀
  exact ⟨queries, consulted.unasked (inPhase.lanes i lane₀ found₀).reachable.inOrder
    (.of_pointwise rfl rfl (.refl Entry.SameAccess.refl _))⟩

theorem Comes.consulted (h : Comes running c phase c') (rested : c.InPhase config .rest) (start : c.Consulted) :
    c'.Consulted := by
  induction h with
  | start => exact start
  | dispatch before _ ran ih => exact ih.dispatch (before.inPhase rested) ran
  | issue before ran ih => exact ih.issue (before.inPhase rested) ran
  | commit before ran ih => exact ih.commit (before.inPhase rested) ran
  | @cycle c₀ v before can ran ih =>
    obtain ⟨_, _, _, w₁, w₂, w₃, dispatched, issued, committed, rfl⟩ := Window.stages_of_cycle ran
    have first := before.dispatch can dispatched
    have second := first.issue issued
    have third := second.commit committed
    have stages := ((ih.dispatch (before.inPhase rested) dispatched).issue (first.inPhase rested) issued).commit
      (second.inPhase rested) committed
    have ended := stages.advance (third.inPhase rested)
    simpa [Window.leavingInCycle_eq dispatched issued] using ended _

/-- A thread that is set up with a memory that is fresh has not been answered. -/
theorem consulted_new {clock : Clock} {th : Thread} {predictor : Option Predictor} {windowSize : Nat}
    {loadHistogram : Bool} {m : Replying M} (made : Thread.new windowSize loadHistogram predictor = .ok th)
    (fresh : m.Fresh) : Account.Consulted { clock, thread := th } m [] := by
  refine ⟨⟨?_, .nil, fun q mem => ?_, fun k u e hu => ?_⟩, fun q mem => ?_, fresh.resolves, fun k e he => ?_⟩
  · rw [fresh.replies]
    rfl
  · cases mem
  · cases hu
  · cases mem
  · rw [Account.entries_new made] at he
    cases he

theorem Consulted.after {call : Window.Call (Replying M)} (h : c.Consulted) (inPhase : c.InPhase config .rest)
    (truthful : Truthful config c)
    (fresh : ∀ j memory predictor, call = .initializeThread j memory predictor → memory.Fresh)
    (made : c.after Window.toEvent call = .ok c') : c'.Consulted := by
  cases call.kind with
  | initializeThread j memory predictor =>
    obtain ⟨v, performed, rfl⟩ := after_eq_ok.mp made
    obtain ⟨-, th, new, rfl⟩ := Window.initializeThread_eq_ok performed
    simp only [Window.Call.takesIn, Window.Call.letsOut, List.append_nil]
    intro i lane found
    rcases truthful.setUp found with ⟨rfl, pushed, retired⟩ | old
    · refine ⟨[], ?_⟩
      show Account.Consulted { pushed := c.pushed i, retired := c.retired i, .. } memory []
      rw [pushed, retired]
      exact consulted_new new (fresh j memory predictor rfl)
    · exact h i lane old
  | execute running => exact (comes_of_execute made).consulted inPhase h
  | other old idle =>
    obtain ⟨v, performed, rfl⟩ := after_eq_ok.mp made
    exact h.leads inPhase ((Window.Call.drifts performed old idle).mono Account.Drift.idles)
      (Window.Call.unasked performed old idle)

theorem consulted_of {calls : List (Window.Call (Replying M))}
    (fresh : ∀ j memory predictor, .initializeThread j memory predictor ∈ calls → memory.Fresh)
    (made : of Window.toEvent config calls = .ok c) : c.Consulted := by
  refine induction_of (P := fun calls c => (∀ j memory predictor, .initializeThread j memory predictor ∈ calls →
    memory.Fresh) → c.Consulted) (fun w new _ => ?_) (fun start ih step fresh => ?_) made fresh
  · obtain ⟨period, rfl⟩ := Window.new_eq_ok new
    intro i lane found
    simp at found
  · refine (ih fun j memory predictor mem => fresh j memory predictor (List.mem_append_left _ mem)).after
      (inPhase_of start) (truthful_of start) (fun j memory predictor same => ?_) step
    exact fresh j memory predictor (by simp [same])

/-- At every point of every run, whatever has been asked of the window before and however often it has started over,
the memory of a thread has been asked about no micro-op twice and about none that does not need it; the micro-op takes
longer by what the answer comes to, and any other as long as it was pushed with.  And unless it leaves at the end of
time, whatever needs memory has been given its answer by the time it leaves. -/
theorem asks_memory_once {calls : List (Window.Call (Replying M))} {i : Nat} {lane : Lane (Replying M)}
    (fresh : ∀ j memory predictor, .initializeThread j memory predictor ∈ calls → memory.Fresh)
    (made : of Window.toEvent config calls = .ok c) (comes : Comes running c phase c')
    (found : c'.window.lanes[i]? = some lane) :
    ∃ queries, (c'.account i lane).AskedOnce lane.memory.replies queries ∧
      ∀ (k : Nat) (r : Retirement) (u : OpInstance), (c'.retired i)[k]? = some r → (c'.pushed i)[k]? = some u →
        u.needsMemory = true → r.time ≠ .never → k ∈ queries.map (·.position) := by
  have inPhase := inPhase_of made
  obtain ⟨queries, consulted⟩ := comes.consulted inPhase (consulted_of fresh made) i lane found
  have reached := ((comes.inPhase inPhase).lanes i lane found).reachable
  refine ⟨queries, consulted.toAskedOnce, fun k r u at_k hu needs intime => ?_⟩
  have entry : (c'.account i lane).entries[k]? = some r.entry := Account.entries_of_retired at_k
  by_contra none
  -- it is as it was pushed, but has a result
  obtain ⟨hit, -⟩ := consulted.others k u r.entry hu entry none
  obtain ⟨v, hv, op, -⟩ := reached.inOrder.op_of_entry entry
  cases hu.symm.trans hv
  have done : r.entry.done ≠ .never := Time.ne_never_of_le (reached.done_le r (List.mem_of_getElem? at_k)) intime
  have known := consulted.settled k r.entry entry done
  unfold OpInstance.needsMemory at needs known
  rw [← op, hit, needs] at known
  cases known

/-- A load behind a branch that was predicted wrongly, and a store behind another one; the last load has been settled
by the front end. -/
def flushedCalls : List (Window.Call (Replying FixedMemory)) :=
  [.initializeThread 0 { memory := { data := ⟨⟨1879700⟩, .l2⟩ } } none,
    .push 0 [{ op := { kind := .branch }, mispredicted := true },
      { op := { kind := .load }, address := 64 },
      { op := { kind := .branch }, mispredicted := true },
      { op := { kind := .store }, address := 128 },
      { op := { kind := .load }, latency := 50, dataHit := .l1 }],
    .markEndOfStream 0, .execute #[true]]

/-- The load issues twice, and the store three times, but memory is asked about each of them once. -/
theorem asks_memory_once_through_flushes :
    ∃ (c : Chronicle (Replying FixedMemory)) (lane : Lane (Replying FixedMemory)) (queries : List Query),
      (∀ j memory predictor, .initializeThread j memory predictor ∈ flushedCalls → memory.Fresh) ∧
      of Window.toEvent default flushedCalls = .ok c ∧ c.window.lanes[0]? = some lane ∧
      lane.memory.replies.map (·.access.address) = [64, 128] ∧
      (c.retired 0).map (·.entry.u.latency) = [1, 6, 1, 6, 50] ∧
      (c.account 0 lane).AskedOnce lane.memory.replies queries ∧
      1 ∈ queries.map (·.position) ∧ 3 ∈ queries.map (·.position) := by
  have computed : ((ofWithin Window.toEvent 80 default flushedCalls).bind fun c => c.window.lanes[0]?.map fun lane =>
      (lane.memory.replies.map (·.access.address), (c.retired 0).map (·.entry.u.latency),
        (c.retired 0).map (·.time))) =
      some ([64, 128], [1, 6, 1, 6, 50], [⟨751880⟩, ⟨6390980⟩, ⟨6390980⟩, ⟨10150380⟩, ⟨28571440⟩]) := by
    decide +kernel
  obtain ⟨c, computed, seen⟩ := Option.bind_eq_some_iff.mp computed
  obtain ⟨lane, found, seen⟩ := Option.map_eq_some_iff.mp seen
  simp only [Prod.mk.injEq] at seen
  obtain ⟨addresses, latencies, times⟩ := seen
  have fresh : ∀ j memory predictor, .initializeThread j memory predictor ∈ flushedCalls → memory.Fresh := by
    intro j memory predictor mem
    simp only [flushedCalls, List.mem_cons, List.not_mem_nil, or_false, reduceCtorEq,
      Window.Call.initializeThread.injEq] at mem
    rw [mem.2.1]
    exact ⟨rfl, MemorySystem.resolves_fixed (by decide)⟩
  have made := of_eq_ok computed
  obtain ⟨queries, once, asked⟩ :=
    asks_memory_once fresh made (.start : Comes #[true] c .rest c) found
  have given : ∀ (k : Nat) (u : OpInstance) (time : Time), (c.pushed 0)[k]? = some u → u.needsMemory = true →
      ((c.retired 0).map (·.time))[k]? = some time → time ≠ .never → k ∈ queries.map (·.position) := by
    intro k u time hu needs at_k intime
    rw [List.getElem?_map] at at_k
    obtain ⟨r, left, rfl⟩ := Option.map_eq_some_iff.mp at_k
    exact asked k r u left hu needs intime
  rw [times, pushed_of made] at given
  exact ⟨c, lane, queries, fresh, made, found, addresses, latencies, once,
    given 1 _ _ rfl rfl rfl (by decide), given 3 _ _ rfl rfl rfl (by decide)⟩

/-- One micro-op enters in a cycle, which takes more than half of all the time that there is. -/
def singleSlow : Config := { (default : Config) with core := { frequencyGhz := 1e-13, dispatchWidth := 1 } }

/-- A micro-op, and a load that memory has to be asked about. -/
def lateLoadCalls : List (Window.Call (Replying FixedMemory)) :=
  [.initializeThread 0 { memory := { data := ⟨⟨1879700⟩, .l2⟩ } } none,
    .push 0 [{ op := {} }, { op := { kind := .load }, address := 64 }], .markEndOfStream 0]

/-- The load enters the window after a cycle, and leaves it after another one, at the end of time, without having
issued. -/
theorem leaves_without_asking :
    ∃ (c : Chronicle (Replying FixedMemory)) (lane : Lane (Replying FixedMemory)) (r : Retirement) (u : OpInstance),
      (∀ j memory predictor, .initializeThread j memory predictor ∈ lateLoadCalls ++ [.execute #[true]] →
        memory.Fresh) ∧
      of Window.toEvent singleSlow (lateLoadCalls ++ [.execute #[true]]) = .ok c ∧ c.window.lanes[0]? = some lane ∧
      (c.retired 0)[1]? = some r ∧ (c.pushed 0)[1]? = some u ∧ u.needsMemory = true ∧ lane.memory.replies = [] := by
  have computed : ((ofWithin Window.toEvent 20 singleSlow lateLoadCalls).bind fun c =>
      (Window.runToEnd Window.toEvent #[true] 20 c.window).map fun w => w.lanes[0]?.map fun lane =>
        (lane.thread.ring.toList.length, lane.memory.replies)) = some (some (0, [])) := by
    decide +kernel
  obtain ⟨c, made, seen⟩ := exists_of_runToEnd computed (by decide)
  obtain ⟨lane, found, seen⟩ := Option.map_eq_some_iff.mp seen
  obtain ⟨ring, replies⟩ := Prod.mk.inj seen
  have fresh : ∀ j memory predictor, .initializeThread j memory predictor ∈ lateLoadCalls ++ [.execute #[true]] →
      memory.Fresh := by
    intro j memory predictor mem
    simp only [lateLoadCalls, List.cons_append, List.nil_append, List.mem_cons, List.not_mem_nil, or_false,
      reduceCtorEq, Window.Call.initializeThread.injEq] at mem
    rw [mem.2.1]
    exact ⟨rfl, MemorySystem.resolves_fixed (by decide)⟩
  -- nothing is left in the ring, so both have left
  have length := ((truthful_of made).reachable 0 lane found).inOrder.length_pushed
  have two : (c.retired 0).length = 2 := by
    have pushed : (c.pushed 0).length = 2 := by
      rw [pushed_of made]
      rfl
    simpa [Account.entries, account, ring, pushed] using length
  exact ⟨c, lane, (c.retired 0)[1], _, fresh, made, found, List.getElem?_eq_getElem _, by rw [pushed_of made]; rfl, rfl,
    replies⟩

end Chronicle

end CoreTiming
