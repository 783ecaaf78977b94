import CoreTiming.Memory.Hierarchy
import CoreTiming.Proofs.Conservation
import CoreTiming.Proofs.Grid
import CoreTiming.Proofs.Issuing
import CoreTiming.Proofs.SingleAccess
import Mathlib.Algebra.BigOperators.Group.List.Lemmas

/-!
# What a report lists of the time charged

A report lists the time of a thread by its causes, and leaves out what is charged to fetches and accesses that were
not served at a proper place (`Location.isReported`).  So the times it lists come to the total if, and only if, no time
is charged to those (`CpiStack.sum_entries`).

Whether it is depends on what a thread is told.  As long as every memory says where it serves and no micro-op comes with
such a place from the front end, the places that a thread ever charges for are places that reports list: this is
`Thread.Listed`, which every stage of a cycle and every call keeps.
-/

namespace CoreTiming

open Faulting

/-! ## Section 1: Listed and unlisted causes -/

namespace Cause

/-- Whether a report lists the time charged to the cause. -/
def isListed : Cause → Bool
  | .instructionCache l | .dataCache l => l.isReported
  | _ => true

/-- Every cause, in the order in which reports list them. -/
def all : List Cause :=
  [.base, .smt, .idle, .branchPredictor, .serialization, .stationsFull] ++
    Location.all.flatMap fun l => [.instructionCache l, .dataCache l]

/-- No two causes that are listed have the same key. -/
theorem nodup_key : (CpiStack.reportedCauses.map key).Nodup := by
  decide +kernel

end Cause

namespace CpiStack

theorem reportedCauses_eq : reportedCauses = Cause.all.filter Cause.isListed := by
  decide

/-- The time charged to causes that a report does not list. -/
def unlisted (s : CpiStack) : Time := ((Cause.all.filter fun c => !c.isListed).map s.get).sum

/-- The times of all locations, in order. -/
theorem map_at_all (v : LocationTimes) : Location.all.map v.at = v.toList := by
  have index : ∀ i (inside : i < Location.all.length), Location.all[i].index = i := by decide
  apply List.ext_getElem
  · rw [List.length_map, Vector.length_toList]
    rfl
  · intro i inside _
    rw [List.length_map] at inside
    rw [List.getElem_map]
    simp only [LocationTimes.at, index i inside]
    rfl

theorem sum_flatMap_pair {α : Type} (f : α → Time) (a b : Location → α) (ls : List Location) :
    ((ls.flatMap fun l => [a l, b l]).map f).sum = (ls.map fun l => f (a l)).sum + (ls.map fun l => f (b l)).sum := by
  induction ls with
  | nil => exact (add_zero 0).symm
  | cons l rest ih =>
    simp only [List.flatMap_cons, List.map_append, List.map_cons, List.map_nil, List.sum_append, List.sum_cons,
      List.sum_nil, ih]
    ac_rfl

/-- The total is the time of all causes together. -/
theorem total_eq_sum (s : CpiStack) : s.total = (Cause.all.map s.get).sum := by
  unfold Cause.all
  rw [List.map_append, List.sum_append, sum_flatMap_pair, total_eq, ← map_at_all, ← map_at_all]
  simp only [List.map_cons, List.map_nil, List.sum_cons, List.sum_nil, get]
  ac_rfl

/-- Causes without time add nothing. -/
theorem sum_filterMap_get (s : CpiStack) (cs : List Cause) :
    ((cs.filterMap fun c => if 0 < s.get c then some (c.key, s.get c) else none).map Prod.snd).sum =
      (cs.map s.get).sum := by
  induction cs with
  | nil => rfl
  | cons c rest ih =>
    by_cases charged : 0 < s.get c
    · simp [charged, ih]
    · have none : s.get c = 0 := by
        apply Time.ext_toNat
        rw [Time.lt_iff_toNat_lt, Time.toNat_zero] at charged
        rw [Time.toNat_zero]
        omega
      simp [none, ih]

/-- The times that a report lists fall short of the total by exactly what is charged to causes it does not list. -/
theorem sum_entries (s : CpiStack) : (s.entries.map Prod.snd).sum + s.unlisted = s.total := by
  unfold entries unlisted
  rw [sum_filterMap_get, reportedCauses_eq, total_eq_sum,
    ← List.sum_map_filter_add_sum_map_filter_not (fun c => c.isListed = true) s.get Cause.all]
  simp

theorem nodup_entries (s : CpiStack) : (s.entries.map Prod.fst).Nodup := by
  have sub : ∀ cs : List Cause,
      ((cs.filterMap fun c => if 0 < s.get c then some (c.key, s.get c) else none).map Prod.fst).Sublist
        (cs.map Cause.key) := by
    intro cs
    induction cs with
    | nil => exact List.Sublist.slnil
    | cons c rest ih =>
      by_cases charged : 0 < s.get c
      · simpa [charged] using ih
      · simpa [charged] using ih.cons c.key
  exact Cause.nodup_key.sublist (sub _)

theorem unlisted_new : ({} : CpiStack).unlisted = 0 := by
  decide +kernel

/-- What is charged to a cause that is listed is not unlisted. -/
theorem unlisted_charge (s : CpiStack) {c : Cause} (listed : c.isListed = true) (t : Time) :
    (s.charge c t).unlisted = s.unlisted := by
  unfold unlisted
  apply congrArg List.sum
  apply List.map_congr_left
  intro d other
  have : d ≠ c := by
    rintro rfl
    simp [listed] at other
  rw [get_charge, if_neg this]

end CpiStack

/-! ## Section 2: Memories -/

namespace MemorySystem

variable {M : Type} [MemorySystem M] {m m' : M}

/-- Whatever it is asked before, the memory always serves at a place that reports list. -/
structure Places (m : M) : Prop where
  /-- Data accesses. -/
  access : ∀ (m₁ m₂ : M) (a : MemoryAccess) (served : Served), Relation.ReflTransGen Asks m m₁ →
    MemorySystem.access a m₁ = .ok served m₂ → served.hit.isReported = true
  /-- Fetches. -/
  fetch : ∀ (m₁ m₂ : M) (address : Address) (size : Nat) (served : Served), Relation.ReflTransGen Asks m m₁ →
    MemorySystem.fetch address size m₁ = .ok served m₂ → served.hit.isReported = true

theorem Places.later (h : Places m) (asked : Asks m m') : Places m' where
  access m₁ m₂ a served path answered := h.access m₁ m₂ a served (path.head asked) answered
  fetch m₁ m₂ address size served path answered := h.fetch m₁ m₂ address size served (path.head asked) answered

/-- A memory of constant latency does so if its two answers do. -/
theorem places_fixed {m : FixedMemory} (data : m.data.hit.isReported = true)
    (instruction : m.instruction.hit.isReported = true) : Places m := by
  constructor
  · intro m₁ m₂ a served path answered
    obtain rfl := eq_of_asks_fixed path
    rw [← (pure_eq_ok.mp answered).1]
    exact data
  · intro m₁ m₂ address size served path answered
    obtain rfl := eq_of_asks_fixed path
    rw [← (pure_eq_ok.mp answered).1]
    exact instruction

end MemorySystem

/-- Whichever level holds the line, it is a place that reports list, and so is main memory. -/
theorem Hierarchy.isReported_of_walk {address : Address} {isWrite : Bool} {path : List Level} {cycles : Nat}
    {h h' : Hierarchy} {served : Served} (ran : walk address isWrite path cycles h = .ok served h') :
    served.hit.isReported = true := by
  induction path generalizing cycles h with
  | nil =>
    simp only [walk, get_bind, bind_eq_ok, ofExcept_eq_ok, pure_eq_ok] at ran
    obtain ⟨total, _, ⟨-, rfl⟩, rfl, -⟩ := ran
    rfl
  | cons level path ih =>
    simp only [walk, get_bind] at ran
    cases found : h.cache? level with
    | none =>
      simp only [found] at ran
      exact ih ran
    | some cache =>
      simp only [found, bind_eq_ok, ofExcept_eq_ok, set_bind, modify_bind] at ran
      obtain ⟨_, _, ⟨-, rfl⟩, ran⟩ := ran
      split at ran
      · rw [← (pure_eq_ok.mp ran).1]
        cases level <;> rfl
      · exact ih ran

/-- Caches in front of main memory do so, whatever they hold. -/
theorem Hierarchy.places (h : Hierarchy) : MemorySystem.Places h where
  access _ _ _ _ _ answered := isReported_of_walk answered
  fetch _ _ _ _ _ _ answered := isReported_of_walk answered

/-! ## Section 3: Micro-ops and threads -/

/-- The front end has put the micro-op at no place that reports leave out; an access may be left to memory. -/
structure OpInstance.Placed (u : OpInstance) : Prop where
  /-- Where the instruction is fetched. -/
  fetch : u.fetchHit.isReported = true
  /-- Where the data is accessed. -/
  data : (u.op.isLoad || u.op.isStore) = true → u.dataHit ≠ .predicateFalse

/-- Once memory has been asked, the place of an access is one that reports list. -/
theorem OpInstance.Placed.isReported {u : OpInstance} (h : u.Placed) (accesses : (u.op.isLoad || u.op.isStore) = true)
    (known : u.needsMemory = false) : u.dataHit.isReported = true := by
  have data := h.data accesses
  rw [OpInstance.needsMemory, accesses] at known
  cases hit : u.dataHit <;> simp_all [Location.isReported]

/-- An access that memory has put at a proper place is settled. -/
theorem OpInstance.Placed.resolveData {u u' : OpInstance} {hit : Location} {cycles : Nat} (h : u.Placed)
    (place : hit.isReported = true) (taken : u.resolveData hit cycles = .ok u') :
    u'.Placed ∧ u'.needsMemory = false := by
  obtain ⟨latency, -, same⟩ := Except.bind_eq_ok.mp taken
  cases same
  have known : (hit == .unresolved) = false := by cases hit <;> first | rfl | cases place
  refine ⟨⟨h.fetch, ?_⟩, ?_⟩
  · rintro - (rfl : hit = .predicateFalse)
    cases place
  · unfold OpInstance.needsMemory
    rw [known, Bool.and_false]

/-- The entry is at no place that reports leave out, and if it has issued its access is settled. -/
structure Entry.Placed (e : Entry) : Prop where
  /-- The micro-op. -/
  op : e.u.Placed
  /-- Memory has been asked by the time it issues. -/
  settled : e.issued ≠ .never → e.u.needsMemory = false

namespace Entry

variable {e e' : Entry}

/-- `e'` performs the same access as `e`, and has issued only if `e` has. -/
structure SamePlace (e e' : Entry) : Prop where
  /-- The micro-op does the same. -/
  op : e'.u.op = e.u.op
  /-- It is fetched at the same place, or has been fetched. -/
  fetch : e'.u.fetchHit = e.u.fetchHit ∨ e'.u.fetchHit = .l1i
  /-- It accesses memory at the same place. -/
  data : e'.u.dataHit = e.u.dataHit
  /-- It has issued at the same time, or starts over. -/
  issued : e'.issued = e.issued ∨ e'.issued = .never

theorem Placed.of_same (h : e.Placed) (same : e.SamePlace e') : e'.Placed := by
  have access : e'.u.needsMemory = e.u.needsMemory := by
    unfold OpInstance.needsMemory
    rw [same.op, same.data]
  constructor
  · constructor
    · rcases same.fetch with fetch | fetch
      · rw [fetch]
        exact h.op.fetch
      · rw [fetch]
        rfl
    · rw [same.op, same.data]
      exact h.op.data
  · intro issued
    rw [access]
    apply h.settled
    rcases same.issued with as_before | never
    · rw [← as_before]
      exact issued
    · exact absurd never issued

theorem Listed.samePlace {consumer : Nat} (h : e.Listed consumer e') : e.SamePlace e' := by
  rw [h.frame]
  exact ⟨rfl, .inl rfl, rfl, .inl rfl⟩

theorem Woken.samePlace {seq : Nat} {done : Time} (h : e.Woken seq done e') : e.SamePlace e' := by
  rw [h.frame]
  exact ⟨rfl, .inl rfl, rfl, .inl rfl⟩

theorem placed_new {u : OpInstance} (h : u.Placed) (seq : Nat) : (new u seq).Placed :=
  ⟨⟨h.fetch, h.data⟩, fun issued => absurd rfl issued⟩

end Entry

/-- All entries of a list are well placed if they are at the places of others that are. -/
theorem placed_of_pointwise {es es' : List Entry} (same : Pointwise Entry.SamePlace es es')
    (h : ∀ e ∈ es, e.Placed) : ∀ e ∈ es', e.Placed := by
  intro e' mem
  obtain ⟨k, at_k⟩ := List.mem_iff_getElem?.mp mem
  obtain ⟨e, before, related⟩ := same.right at_k
  exact (h e (List.mem_of_getElem? before)).of_same related

namespace Thread

variable {config : Config} {clock : Clock} {th th' : Thread} {c : Cause}

/-- The thread is held up by nothing that reports do not list, and has not been charged for anything else. -/
structure Listed (th : Thread) : Prop where
  /-- The entries. -/
  entries : ∀ e ∈ th.ring.toList, e.Placed
  /-- Why dispatch stopped. -/
  stall : ∀ c, th.stall = some c → c.isListed = true
  /-- What the present cycle is charged to. -/
  cause : th.cause.isListed = true
  /-- The long loads in flight. -/
  loads : ∀ load ∈ th.longLoads, load.hit.isReported = true
  /-- What has been charged. -/
  charged : th.stats.cpi.unlisted = 0

theorem listed_new {windowSize : Nat} {loadHistogram : Bool} {predictor : Option Predictor}
    (made : Thread.new windowSize loadHistogram predictor = .ok th) : th.Listed := by
  obtain ⟨capacity, rfl⟩ := Thread.new_eq_ok made
  constructor
  · simp
  · intro c stall
    cases stall
    rfl
  · rfl
  · simp
  · exact CpiStack.unlisted_new

/-- Whatever the oldest entry waits for is listed. -/
theorem Listed.headCause? (h : th.Listed) {now : Time} (head : th.headCause? now = some c) : c.isListed = true := by
  unfold Thread.headCause? at head
  rw [Ring.findAmong_eq] at head
  split at head
  · cases head
  · rename_i e found
    have placed := h.entries e (List.mem_of_mem_take (List.mem_of_find?_eq_some found))
    dsimp only at head
    split at head
    · cases head
    · rename_i issued
      split at head
      · cases head
        rfl
      · split at head
        · rename_i accesses
          cases head
          apply placed.op.isReported accesses
          apply placed.settled
          -- it has issued before now
          rintro never
          rw [never] at issued
          exact issued (Time.le_never _)
        · cases head

/-- A thread that is charged for something that reports list stays as it should be. -/
theorem Listed.blame (h : th.Listed) (listed : c.isListed = true) : Listed { th with cause := c } :=
  ⟨h.entries, h.stall, listed, h.loads, h.charged⟩

theorem Listed.charge (h : th.Listed) (histogram : Bool) (now span : Time) :
    (th.charge histogram now span).Listed :=
  ⟨h.entries, h.stall, h.cause, h.loads, (CpiStack.unlisted_charge _ h.cause _).trans h.charged⟩

theorem Listed.beginDispatch (h : th.Listed) (now : Time) : (th.beginDispatch now).Listed :=
  ⟨h.entries, fun _ stall => (nomatch stall), h.cause, fun load mem => h.loads load (List.mem_of_mem_filter mem),
    h.charged⟩

/-- An entry that takes the place of another one leaves the thread as it should be, if it is well placed. -/
theorem Listed.setEntry (h : th.Listed) (i : Nat) {e : Entry} (placed : e.Placed) : (th.setEntry i e).Listed := by
  refine ⟨?_, h.stall, h.cause, h.loads, h.charged⟩
  intro x mem
  rw [toList_setEntry] at mem
  rcases List.mem_or_eq_of_mem_set mem with old | rfl
  · exact h.entries x old
  · exact placed

/-! ## Section 4: Stages of a cycle -/

/-- A fetch that is held up is charged to the place where it is served. -/
theorem Listed.fetchNext (h : th.Listed) {e : Entry} (next : th.ring.get? th.inWindow = some e) :
    (fetchNext clock e th).2.Listed := by
  rw [← Ring.getElem?_toList] at next
  have placed := h.entries e (List.mem_of_getElem? next)
  rcases fetchNext_cases clock e th with ⟨-, eq⟩ | ⟨-, -, eq⟩ | ⟨-, -, eq⟩
  · rw [eq]
    exact h
  · have fetched : e.fetched.Placed := placed.of_same ⟨rfl, .inr rfl, rfl, .inl rfl⟩
    have set := h.setEntry th.inWindow fetched
    rw [eq]
    exact ⟨set.entries, set.stall, set.cause, set.loads, set.charged⟩
  · rw [eq]
    refine ⟨h.entries, ?_, h.cause, h.loads, h.charged⟩
    intro c stall
    cases stall
    exact placed.op.fetch

theorem Listed.link (h : th.Listed) {forwarding : Bool} {e e' : Entry} (ran : link forwarding e th = .ok e' th') :
    th'.Listed := by
  have linked := linked_link ran
  rw [linked.thread]
  refine ⟨?_, h.stall, h.cause, h.loads, ?_⟩
  · exact placed_of_pointwise (linked.ring.mono fun _ _ => Entry.Listed.samePlace) h.entries
  · show th'.stats.cpi.unlisted = 0
    rw [cpi_link ran]
    exact h.charged

theorem Listed.attempt (h : th.Listed) {forwarding free : Bool} {d : Dispatched}
    (tried : dispatchOne forwarding clock free th = .ok d th') : th'.Listed := by
  cases attempt_of_ok tried with
  | empty => exact h
  | fetch next => exact h.fetchNext next
  | full next =>
    have fetched : (Thread.fetchNext clock _ th).2.Listed := h.fetchNext next
    refine ⟨fetched.entries, ?_, fetched.cause, fetched.loads, fetched.charged⟩
    intro c stall
    cases stall
    rfl
  | loads next _ blocking =>
    have fetched : (Thread.fetchNext clock _ th).2.Listed := h.fetchNext next
    refine ⟨fetched.entries, ?_, fetched.cause, fetched.loads, fetched.charged⟩
    intro c stall
    cases stall
    unfold blockingLoad? at blocking
    split at blocking
    · cases blocking
    · exact fetched.loads _ (LongLoad.earliest?_mem blocking)
  | @enter e e' th₁ next fetched _ linked =>
    have placed := h.entries e (by
      rw [← Ring.getElem?_toList] at next
      exact List.mem_of_getElem? next)
    have fetched : (Thread.fetchNext clock e th).2.Listed := h.fetchNext next
    have entered := (fetched.link linked).setEntry th₁.inWindow
      (e := { e' with dispatched := clock.now, ready := max e'.ready clock.next }) (by
        apply placed.of_same
        rw [(linked_link linked).entry]
        exact ⟨rfl, .inr rfl, rfl, .inl rfl⟩)
    exact ⟨entered.entries, entered.stall, entered.cause, entered.loads, entered.charged⟩

/-- Memory has been asked about an entry that starts, so a long load among those is at a proper place. -/
theorem Listed.start (h : th.Listed) {i : Nat} {e : Entry} {now done latency : Time} (cutoff : Nat)
    (entry : th.ring.get? i = some e) (known : e.u.needsMemory = false)
    (started : start i e now done latency th = .ok () th') : (th'.accountLongLoad cutoff now i).Listed := by
  rw [← Ring.getElem?_toList] at entry
  have placed := h.entries e (List.mem_of_getElem? entry)
  have issued : Entry.Placed { e with issued := now, done } := ⟨placed.op, fun _ => known⟩
  obtain ⟨frame, -, woken, -, -⟩ := start_eq_ok started
  have same := woken.mono fun _ _ => Entry.Woken.samePlace
  have begun : th'.Listed := by
    rw [frame]
    refine ⟨placed_of_pointwise same ?_, h.stall, h.cause, h.loads, ?_⟩
    · intro x mem
      rcases List.mem_or_eq_of_mem_set mem with old | rfl
      · exact h.entries x old
      · exact issued
    · show th'.stats.cpi.unlisted = 0
      rw [cpi_start started]
      exact h.charged
  unfold accountLongLoad
  split
  · exact begun
  · rename_i x at_i
    split
    · rename_i long
      refine ⟨begun.entries, begun.stall, begun.cause, ?_, begun.charged⟩
      intro load mem
      rcases List.mem_append.mp mem with old | new
      · exact begun.loads load old
      · obtain rfl := List.mem_singleton.mp new
        -- the load is the entry that has just issued
        obtain ⟨y, at_y, related⟩ := same.right (by rwa [Ring.getElem?_toList])
        have y_eq : y = { e with issued := now, done } := by
          rw [issuedAt, List.getElem?_set_self (List.getElem?_eq_some_iff.mp entry).1] at at_y
          exact (Option.some.inj at_y).symm
        subst y_eq
        have isLoad : e.u.op.isLoad = true := by
          rw [Bool.and_eq_true, OpInstance.isLongLoad, Bool.and_eq_true] at long
          rw [← related.op]
          exact long.1.1
        show x.u.dataHit.isReported = true
        rw [related.data]
        exact placed.op.isReported (by rw [isLoad]; rfl) known
    · exact begun

theorem Listed.commit (h : th.Listed) {penalty width freed : Nat} {keepLog : Bool}
    (ran : commit clock penalty keepLog width th = .ok freed th') : th'.Listed := by
  induction width generalizing th with
  | zero =>
    obtain ⟨-, rfl⟩ := pure_eq_ok.mp ran
    exact h
  | succ width ih =>
    have retired : ∀ e : Entry, (th.retire keepLog clock.now e).Listed := by
      refine fun e => ⟨fun x mem => ?_, h.stall, h.cause, h.loads, h.charged⟩
      have tail : x ∈ th.ring.tail.toList := mem
      rw [Ring.toList_tail] at tail
      exact h.entries x (List.mem_of_mem_tail tail)
    cases departure_of_commit ran with
    | empty | early => exact h
    | @flush e _ _ _ _ flushed =>
      obtain ⟨nextSeq, -, kept⟩ := Except.bind_eq_ok.mp flushed
      cases kept
      have retired := retired e
      refine ⟨?_, fun c stall => ?_, retired.cause, retired.loads, retired.charged⟩
      · -- everything younger starts over
        apply placed_of_pointwise (Pointwise.mapIdx _ _) retired.entries
        intro i x
        exact ⟨rfl, .inl rfl, rfl, .inr rfl⟩
      · cases stall
        rfl
    | leave _ _ _ rest => exact ih (retired _) rest

end Thread

/-! ## Section 5: Lanes and windows -/

/-- The thread is as it should be, and its memory will say at proper places where it serves. -/
structure Lane.Listed {M : Type} [MemorySystem M] (lane : Lane M) : Prop where
  /-- The thread. -/
  thread : lane.thread.Listed
  /-- The memory. -/
  memory : MemorySystem.Places lane.memory

namespace Lane

variable {M : Type} [MemorySystem M] {config : Config} {clock : Clock} {lane lane' : Lane M} {e e' : Entry} {n : Nat}

/-- Memory is consulted about an entry, and puts it at a proper place. -/
theorem Listed.consults (h : lane.Listed) (entry : lane.thread.ring.get? n = some e)
    (consults : Consults clock.period n e lane e' lane') :
    lane'.Listed ∧ lane'.thread.ring.get? n = some e' ∧ e'.u.needsMemory = false := by
  have there := consults.asked.entry entry
  cases consults with
  | known resolved => exact ⟨h, there, resolved⟩
  | @ask served memory cycles u needs answered rounded taken =>
    have place := h.memory.access _ _ _ _ .refl answered
    rw [← Ring.getElem?_toList] at entry
    obtain ⟨placed, settled⟩ := (h.thread.entries e (List.mem_of_getElem? entry)).op.resolveData place taken
    exact ⟨⟨h.thread.setEntry n ⟨placed, fun _ => settled⟩, h.memory.later (.access answered)⟩, there, settled⟩

theorem Listed.issuing (h : lane.Listed) (step : Issuing config clock lane lane') : lane'.Listed := by
  cases step with
  | issue inside entry waiting ready consults started =>
    obtain ⟨asked, there, known⟩ := h.consults entry consults
    exact ⟨asked.thread.start _ there known started, asked.memory⟩
  | look event =>
    exact ⟨⟨h.thread.entries, h.thread.stall, h.thread.cause, h.thread.loads, h.thread.charged⟩, h.memory⟩

/-- A fetch puts a micro-op at a proper place. -/
theorem Listed.fetch (h : lane.Listed) {period : Period} {u u' : OpInstance} (placed : u.Placed)
    (ran : Window.fetch period u lane = .ok u' lane') : lane'.Listed ∧ u'.Placed := by
  cases Window.fetches_of_fetch ran with
  | settled => exact ⟨h, placed⟩
  | hit _ answered => exact ⟨⟨h.thread, h.memory.later (.fetch answered)⟩, placed⟩
  | miss _ answered =>
    exact ⟨⟨h.thread, h.memory.later (.fetch answered)⟩, h.memory.fetch _ _ _ _ _ .refl answered, placed.data⟩

theorem Listed.pushOne (h : lane.Listed) {period : Period} {i : Nat} {u : OpInstance}
    (placed : u.squashed = false → u.Placed) (ran : Window.pushOne period i u lane = .ok () lane') : lane'.Listed := by
  rcases Window.pushOne_eq_ok ran with ⟨-, rfl⟩ | ⟨kept, u', lane₁, th, fetched, queued, rfl⟩
  · exact h
  · obtain ⟨later, placed'⟩ := h.fetch (placed kept) fetched
    have checked : (Window.checkPrediction lane₁.thread.predictor u').Placed := by
      unfold Window.checkPrediction
      split
      · exact ⟨placed'.fetch, placed'.data⟩
      · exact placed'
    obtain ⟨frame, ring, counted, -⟩ := Window.enqueue_eq_ok queued
    refine ⟨?_, later.memory⟩
    show th.Listed
    rw [frame]
    refine ⟨?_, later.thread.stall, later.thread.cause, later.thread.loads, ?_⟩
    · intro e mem
      rw [ring] at mem
      rcases List.mem_append.mp mem with old | new
      · exact later.thread.entries e old
      · obtain rfl := List.mem_singleton.mp new
        exact Entry.placed_new checked _
    · show th.stats.cpi.unlisted = 0
      rw [counted]
      exact later.thread.charged

theorem Listed.push (h : lane.Listed) {period : Period} {i : Nat} {us : List OpInstance}
    (placed : ∀ u ∈ us, u.squashed = false → u.Placed) (ran : us.forM (Window.pushOne period i) lane = .ok () lane') :
    lane'.Listed := by
  induction us generalizing lane with
  | nil =>
    obtain ⟨-, rfl⟩ := pure_eq_ok.mp ran
    exact h
  | cons u us ih =>
    obtain ⟨⟨⟩, lane₁, first, ran⟩ := bind_eq_ok.mp ran
    exact ih (h.pushOne (placed u List.mem_cons_self) first)
      (fun u' mem => placed u' (List.mem_cons_of_mem _ mem)) ran

end Lane

namespace Window

variable {M : Type} [MemorySystem M] {w v : Window M} {i : Nat}

/-- Every lane is as it should be. -/
def Listed (w : Window M) : Prop := ∀ (i : Nat) (lane : Lane M), w.lanes[i]? = some lane → lane.Listed

/-- A single lane has changed. -/
theorem Listed.of_lane (h : w.Listed) {lane : Lane M} (lanes : v.lanes = w.lanes.setIfInBounds i lane)
    (listed : lane.Listed) : v.Listed := by
  intro j other found
  rw [lanes, Array.getElem?_setIfInBounds] at found
  split at found
  · split at found
    · cases found
      exact listed
    · cases found
  · exact h j other found

theorem Listed.onThread (h : w.Listed) {α : Type} {f : Faulting Thread α} {a : α} (ran : onThread i f w = .ok a v)
    (keeps : ∀ th th', th.Listed → f th = .ok a th' → th'.Listed) : v.Listed := by
  obtain ⟨lane, th, found, inner, rfl⟩ := onThread_eq_ok.mp ran
  have listed := h i lane found
  exact h.of_lane rfl ⟨keeps _ _ listed.thread inner, listed.memory⟩

theorem Listed.modifyThread (h : w.Listed) {f : Thread → Thread} (ran : modifyThread i f w = .ok () v)
    (keeps : ∀ th, th.Listed → (f th).Listed) : v.Listed := by
  apply h.onThread ran
  intro th th' listed changed
  rw [← modify_eq_ok.mp changed]
  exact keeps th listed

theorem Listed.dispatchUpTo (h : w.Listed) {width : Nat} {any : Bool} {event : Time} {result : Bool × Time}
    (ran : dispatchUpTo i width any event w = .ok result v) : v.Listed := by
  induction width generalizing any event w with
  | zero =>
    obtain ⟨-, rfl⟩ := pure_eq_ok.mp ran
    exact h
  | succ width ih =>
    obtain ⟨lane, -, goes⟩ := dispatching_of_dispatchUpTo ran
    cases goes with
    | nothing _ _ same => exact same ▸ h
    | blocked _ _ tried => exact h.onThread tried fun _ _ listed attempt => listed.attempt attempt
    | entered _ _ tried rest =>
      have next := h.onThread tried fun _ _ listed attempt => listed.attempt attempt
      refine ih ?_ rest
      exact fun j lane found => next j lane found

theorem Listed.dispatchLane (h : w.Listed) {event : Time} {result : Bool × Time}
    (ran : dispatchLane i event w = .ok result v) : v.Listed := by
  obtain ⟨w₁, event', lane, begun, moved, -⟩ := dispatchLane_eq_ok ran
  exact (h.modifyThread begun fun _ listed => listed.beginDispatch _).dispatchUpTo moved

omit [MemorySystem M] in
theorem isListed_slotCause {th : Thread} (h : th.Listed) (any : Bool) {head : Option Cause}
    (listed : ∀ c, head = some c → c.isListed = true) : (slotCause th any head).isListed = true := by
  unfold slotCause
  split
  · rename_i stall held
    exact h.stall stall held
  · split
    · cases head with
      | none => rfl
      | some c => exact listed c rfl
    · rfl

/-- Whoever has the turn is charged for something that reports list. -/
theorem Listed.dispatchTurnOf (h : w.Listed) {running : Running} {round round' : DispatchRound}
    (ran : dispatchTurnOf running round i w = .ok round' v) : v.Listed := by
  obtain ⟨lane, found, turn⟩ := dispatchTurn_of_dispatchTurnOf ran
  have listed := (h i lane found).thread
  have head : ∀ c, lane.thread.headCause? w.clock.now = some c → c.isListed = true := fun c at_head =>
    listed.headCause? at_head
  cases turn with
  | stalled _ blamed =>
    refine h.modifyThread blamed fun th listed' => listed'.blame ?_
    cases at_head : lane.thread.headCause? w.clock.now with
    | some c => exact head c at_head
    | none =>
      cases at_stall : th.stall with
      | some c => exact listed'.stall c at_stall
      | none => rfl
  | idle _ _ blamed | taken _ _ _ _ _ blamed => exact h.modifyThread blamed fun _ listed' => listed'.blame rfl
  | full _ _ _ _ blamed =>
    refine h.modifyThread blamed fun _ listed' => listed'.blame ?_
    cases at_head : lane.thread.headCause? w.clock.now with
    | some c => exact head c at_head
    | none => rfl
  | slot _ _ _ _ _ moved blamed =>
    exact (h.dispatchLane moved).modifyThread blamed fun _ listed' =>
      listed'.blame (isListed_slotCause listed' _ head)

theorem Listed.dispatch (h : w.Listed) {running : Running} {event : Time} (ran : dispatch running w = .ok event v) :
    v.Listed := by
  obtain ⟨round, w₁, turns, -, rfl⟩ := dispatch_eq_ok ran
  have listed : w₁.Listed := keeps_of_foldlM turns (fun turn listed => listed.dispatchTurnOf turn) h
  exact fun i lane found => listed i lane found

theorem Listed.issue (h : w.Listed) {event : Time} (ran : issue w = .ok event v) : v.Listed := by
  intro i lane' found'
  obtain ⟨lane, found, steps⟩ := rel_right ((launches_issue ran).lanes i) found'
  have listed := h i lane found
  clear found'
  induction steps with
  | refl => exact listed
  | tail _ step ih => exact ih.issuing step

theorem Listed.commit (h : w.Listed) {event : Time} (ran : commit w = .ok event v) : v.Listed := by
  refine keeps_of_forM (commit_eq_ok ran) (fun {i x _} turn h => ?_) h
  obtain ⟨lane, th, freed, found, committed, rfl⟩ := commitLane_eq_ok turn
  have listed := h i lane found
  exact h.of_lane rfl ⟨listed.thread.commit committed, listed.memory⟩

theorem Listed.advance (h : w.Listed) (span : Time) : (w.advance span).Listed := by
  intro i lane' found'
  obtain ⟨lane, found, rfl⟩ : ∃ lane, w.lanes[i]? = some lane ∧ _ := by
    simpa [Window.advance] using found'
  have listed := h i lane found
  exact ⟨listed.thread.charge _ _ _, listed.memory⟩

theorem Listed.cycle (h : w.Listed) {stride : Stride M} {running : Running}
    (ran : cycle stride running w = .ok () v) : v.Listed := by
  obtain ⟨_, _, _, w₁, w₂, w₃, dispatched, issued, committed, rfl⟩ := stages_of_cycle ran
  exact (((h.dispatch dispatched).issue issued).commit committed).advance _

theorem Listed.run (h : w.Listed) {stride : Stride M} {running : Running} {grace : Nat}
    (ran : run stride running grace w = .ok () v) : v.Listed :=
  keeps_of_run ran (fun cycled listed => listed.cycle cycled) h

/-! ## Section 6: Calls and runs -/

/-- The call brings in nothing that is served at a place that reports leave out. -/
def Call.Placed : Call M → Prop
  | .initializeThread _ memory _ => MemorySystem.Places memory
  | .push _ us => ∀ u ∈ us, u.squashed = false → u.Placed
  | _ => True

theorem Listed.call (h : w.Listed) {stride : Stride M} {call : Call M} (placed : call.Placed)
    (ran : call.perform stride w = .ok () v) : v.Listed := by
  cases call with
  | initializeThread i memory predictor =>
    obtain ⟨-, th, made, rfl⟩ := initializeThread_eq_ok ran
    intro j lane found
    dsimp only at found
    rw [Array.getElem?_push] at found
    split at found
    · cases found
      exact ⟨Thread.listed_new made, placed⟩
    · exact h j lane found
  | push i us =>
    obtain ⟨lane, lane', found, pushed, rfl⟩ := push_eq_ok ran
    exact h.of_lane rfl ((h i lane found).push placed pushed)
  | execute running => exact h.run ran
  | synchronize i time =>
    obtain ⟨w₁, now, moved, -, -, rfl⟩ := synchronize_eq_ok ran
    have told := h.modifyThread moved fun th listed =>
      ⟨listed.entries, listed.stall, listed.cause, listed.loads, listed.charged⟩
    exact fun i lane found => told i lane found
  | returnLatency i inWakeup =>
    exact h.modifyThread (Call.told_of_returnLatency ran) fun th listed =>
      ⟨listed.entries, listed.stall, listed.cause, listed.loads, listed.charged⟩
  | markEndOfStream i =>
    have marked : Window.modifyThread i (fun th => { th with endOfStream := true }) w = .ok () v := ran
    exact h.modifyThread marked fun th listed =>
      ⟨listed.entries, listed.stall, listed.cause, listed.loads, listed.charged⟩
  | repartition running =>
    obtain rfl := modify_eq_ok.mp ran
    exact fun i lane found => h i lane found

end Window

namespace Chronicle

variable {M : Type} [MemorySystem M] {stride : Window.Stride M} {config : Config} {c : Chronicle M}

theorem listed_of {calls : List (Window.Call M)} (made : of stride config calls = .ok c)
    (placed : ∀ call ∈ calls, call.Placed) : c.window.Listed := by
  refine induction_of (P := fun calls c => (∀ call ∈ calls, call.Placed) → c.window.Listed) ?_ ?_ made placed
  · intro w new _
    obtain ⟨period, rfl⟩ := Window.new_eq_ok new
    intro i lane found
    simp at found
  · intro calls c call c' _ ih step placed
    obtain ⟨v, performed, rfl⟩ := after_eq_ok.mp step
    have before := ih fun call mem => placed call (List.mem_append_left _ mem)
    exact before.call (placed call (by simp)) performed

/-- Whatever is asked of a window, what a report lists of the time of a thread has no key twice, and falls short of the
total by exactly what has been charged to places that reports leave out.  If memories and the front end name no such
place, nothing has been charged to them, and the report is complete. -/
theorem entries_come_to_total {calls : List (Window.Call M)} {i : Nat} {lane : Lane M}
    (made : of stride config calls = .ok c) (found : c.window.lanes[i]? = some lane) :
    (lane.thread.stats.cpi.entries.map Prod.fst).Nodup ∧
    (lane.thread.stats.cpi.entries.map Prod.snd).sum + lane.thread.stats.cpi.unlisted =
      lane.thread.stats.cpi.total ∧
    ((∀ call ∈ calls, call.Placed) → lane.thread.stats.cpi.unlisted = 0 ∧
      (lane.thread.stats.cpi.entries.map Prod.snd).sum = lane.thread.stats.cpi.total) := by
  refine ⟨CpiStack.nodup_entries _, CpiStack.sum_entries _, ?_⟩
  intro placed
  have nothing := (listed_of made placed i lane found).thread.charged
  apply And.intro nothing
  rw [← CpiStack.sum_entries, nothing, add_zero]

/-- A branch that is predicted wrongly, then accesses that memory is asked about, and one that the front end has
settled. -/
def placedCalls : List (Window.Call FixedMemory) :=
  [.initializeThread 0 { data := ⟨⟨18797000⟩, .l3⟩, instruction := ⟨⟨3759400⟩, .l2⟩ } none,
    .push 0 [{ op := { kind := .branch }, mispredicted := true },
      { op := { kind := .load }, address := 64 },
      { op := { kind := .store, fence := true }, address := 128 },
      { op := { kind := .load }, latency := 50, dataHit := .dramLocal }],
    .markEndOfStream 0, .execute #[true]]

theorem entries_come_to_total_through_flush :
    ∃ (c : Chronicle FixedMemory) (lane : Lane FixedMemory), of Window.toEvent default placedCalls = .ok c ∧
      c.window.lanes[0]? = some lane ∧
      lane.thread.stats.cpi.entries.map Prod.fst =
        ["cpiBase", "cpiBranchPredictor", "cpiInstructionCacheL2", "cpiDataCacheL3", "cpiDataCachedram-local"] ∧
      (∀ call ∈ placedCalls, call.Placed) ∧ (lane.thread.stats.cpi.entries.map Prod.snd).sum = ⟨38345880⟩ := by
  have computed : ((ofWithin Window.toEvent 200 default placedCalls).map fun c => c.window.lanes[0]?.map fun lane =>
      (lane.thread.stats.cpi.entries.map Prod.fst, lane.thread.stats.cpi.total)) =
      some (some (["cpiBase", "cpiBranchPredictor", "cpiInstructionCacheL2", "cpiDataCacheL3",
        "cpiDataCachedram-local"], ⟨38345880⟩)) := by
    decide +kernel
  obtain ⟨c, made, seen⟩ := exists_of_computed computed
  obtain ⟨lane, found, seen⟩ := Option.map_eq_some_iff.mp seen
  obtain ⟨keys, total⟩ := Prod.mk.inj seen
  have placed : ∀ call ∈ placedCalls, call.Placed := by
    simp only [placedCalls, List.forall_mem_cons, Window.Call.Placed, List.not_mem_nil, false_implies, implies_true,
      and_true]
    refine ⟨MemorySystem.places_fixed rfl rfl, ?_⟩
    exact ⟨fun _ => ⟨rfl, by decide⟩, fun _ => ⟨rfl, by decide⟩, fun _ => ⟨rfl, by decide⟩, fun _ => ⟨rfl, by decide⟩⟩
  obtain ⟨-, -, complete⟩ := entries_come_to_total made found
  exact ⟨c, lane, made, found, keys, placed, (complete placed).2.trans total⟩

/-- A load that has not reached memory because its predicate was false, but takes its time. -/
def predicatedCalls : List (Window.Call FixedMemory) :=
  [.initializeThread 0 default none,
    .push 0 [{ op := { kind := .load }, latency := 50, dataHit := .predicateFalse }],
    .markEndOfStream 0, .execute #[true]]

/-- The time of the load is charged, and not listed. -/
theorem entries_short_of_total :
    ∃ (c : Chronicle FixedMemory) (lane : Lane FixedMemory), of Window.toEvent default predicatedCalls = .ok c ∧
      c.window.lanes[0]? = some lane ∧ lane.thread.stats.cpi.entries = [("cpiBase", ⟨751880⟩)] ∧
      lane.thread.stats.cpi.total = ⟨19548880⟩ ∧
      (lane.thread.stats.cpi.entries.map Prod.snd).sum ≠ lane.thread.stats.cpi.total := by
  have computed : ((ofWithin Window.toEvent 200 default predicatedCalls).map fun c => c.window.lanes[0]?.map fun lane =>
      (lane.thread.stats.cpi.entries, lane.thread.stats.cpi.total)) =
      some (some ([("cpiBase", ⟨751880⟩)], ⟨19548880⟩)) := by
    decide +kernel
  obtain ⟨c, made, seen⟩ := exists_of_computed computed
  obtain ⟨lane, found, seen⟩ := Option.map_eq_some_iff.mp seen
  obtain ⟨entries, total⟩ := Prod.mk.inj seen
  refine ⟨c, lane, made, found, entries, total, ?_⟩
  rw [entries, total]
  decide

end Chronicle

end CoreTiming
