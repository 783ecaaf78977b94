import CoreTiming.Proofs.Chronicle
import CoreTiming.Proofs.Linking

/-!
# Program order

Whatever is pushed, in whatever way cycles and flushes interleave with it, a thread neither loses nor
repeats nor swaps micro-ops: what was pushed is what has left followed by what is in the ring.
`Account.InOrder` is the invariant; each elementary step preserves it.
-/

namespace CoreTiming

open Faulting

/-! ## Section 1: What stays of a micro-op -/

/-- The micro-op as its program has it, without what the engine finds out about it: its number, its
producers, how long it takes, where its accesses are served, and whether it was predicted wrongly. -/
def OpInstance.inProgram (u : OpInstance) : OpInstance :=
  { u with
    seq := noSeq
    producers := .empty
    latency := 0
    dataHit := .unresolved
    fetchHit := .l1i
    fetchLatency := 0
    mispredicted := false }

/-- The micro-op of an entry as its program has it. -/
def Entry.inProgram (e : Entry) : OpInstance := e.u.inProgram

/-- Both are the same micro-op under the same number. -/
structure Entry.SameOp (e e' : Entry) : Prop where
  /-- The number is the same. -/
  seq_eq : e'.seq = e.seq
  /-- The micro-op is the same. -/
  inProgram_eq : e'.inProgram = e.inProgram

namespace Entry

variable {e e' e'' : Entry}

theorem SameOp.refl (e : Entry) : e.SameOp e := ⟨rfl, rfl⟩

theorem SameOp.trans (h : e.SameOp e') (h' : e'.SameOp e'') : e.SameOp e'' :=
  ⟨h'.seq_eq.trans h.seq_eq, h'.inProgram_eq.trans h.inProgram_eq⟩

theorem SameOp.op_eq (h : e.SameOp e') : e'.u.op = e.u.op := by
  have op := congrArg OpInstance.op h.inProgram_eq
  exact op

theorem SameOp.address_eq (h : e.SameOp e') : e'.u.address = e.u.address := by
  have address := congrArg OpInstance.address h.inProgram_eq
  exact address

theorem Woken.sameOp {seq : Nat} {done : Time} (h : e.Woken seq done e') : e.SameOp e' := by
  refine ⟨h.seq_eq, ?_⟩
  rw [h.frame]
  rfl

theorem Listed.sameOp {consumer : Nat} (h : e.Listed consumer e') : e.SameOp e' := by
  refine ⟨h.seq_eq, ?_⟩
  rw [h.frame]
  rfl

theorem sameOp_fetched (e : Entry) : e.SameOp e.fetched := ⟨rfl, rfl⟩

@[simp] theorem inProgram_restart (e : Entry) (seq : Nat) :
    (e.restart seq).inProgram = e.inProgram := rfl

end Entry

theorem OpInstance.SameAtFront.inProgram_eq {u v : OpInstance} (h : u.SameAtFront v) :
    v.inProgram = u.inProgram := by
  rw [h]
  rfl

theorem OpInstance.resolveData_eq_ok {u u' : OpInstance} {hit : Location} {cycles : Nat}
    (h : u.resolveData hit cycles = .ok u') :
    u' = { u with dataHit := hit, latency := u'.latency } := by
  obtain ⟨latency, -, h⟩ := Except.bind_eq_ok.mp h
  cases h
  rfl

/-- An access takes time. -/
theorem OpInstance.le_resolveData {u u' : OpInstance} {hit : Location} {cycles : Nat}
    (h : u.resolveData hit cycles = .ok u') : u.latency ≤ u'.latency := by
  obtain ⟨latency, added, h⟩ := Except.bind_eq_ok.mp h
  cases h
  rw [(Word.add_eq_ok_iff.mp added).2]
  exact Nat.le_add_right _ _

theorem Thread.Asked.op_eq {th th' : Thread} {i : Nat} {e e' : Entry} (h : th.Asked i e th' e') :
    e'.u.op = e.u.op := by
  rcases h with ⟨-, rfl⟩ | ⟨hit, cycles, u, resolved, rfl, -⟩
  · rfl
  · show u.op = e.u.op
    rw [OpInstance.resolveData_eq_ok resolved]

/-! ## Section 2: Work inside a thread keeps its micro-ops -/

namespace Thread

variable {config : Config} {clock : Clock} {th th' : Thread}

/-- Both threads hold the same micro-ops, in the same order and under the same numbers. -/
structure SameOps (th th' : Thread) : Prop where
  /-- Entries may have changed, but not their micro-ops. -/
  ring : Pointwise Entry.SameOp th.ring.toList th'.ring.toList
  /-- The next number. -/
  nextSeq : th'.nextSeq = th.nextSeq
  /-- The instructions committed. -/
  retired : th'.retired = th.retired
  /-- What is on record of them. -/
  commitLog : th'.stats.commitLog = th.stats.commitLog
  /-- The window ends inside the ring. -/
  inWindow : th.inWindow ≤ th.ring.length → th'.inWindow ≤ th'.ring.length

theorem SameOps.trans {th'' : Thread} (h : th.SameOps th') (h' : th'.SameOps th'') : th.SameOps th'' :=
  ⟨h.ring.trans (fun _ _ _ => .trans) h'.ring, h'.nextSeq.trans h.nextSeq, h'.retired.trans h.retired,
    h'.commitLog.trans h.commitLog, fun inside => h'.inWindow (h.inWindow inside)⟩

theorem length_of_pointwise {R : Entry → Entry → Prop}
    (h : Pointwise R th.ring.toList th'.ring.toList) : th'.ring.length = th.ring.length := by
  rw [← Ring.length_toList, ← Ring.length_toList]
  exact h.length_eq

theorem pointwise_setEntry {i : Nat} {e e' : Entry} (entry : th.ring.get? i = some e)
    (same : e.SameOp e') : Pointwise Entry.SameOp th.ring.toList (th.setEntry i e').ring.toList := by
  rw [toList_setEntry]
  rw [← Ring.getElem?_toList] at entry
  exact .set Entry.SameOp.refl entry same

theorem length_setEntry (th : Thread) (i : Nat) (e : Entry) :
    (th.setEntry i e).ring.length = th.ring.length := by
  rw [← Ring.length_toList, toList_setEntry, List.length_set, Ring.length_toList]

theorem sameOps_setEntry {i : Nat} {e e' : Entry} (entry : th.ring.get? i = some e) (same : e.SameOp e') :
    th.SameOps (th.setEntry i e') := by
  refine ⟨pointwise_setEntry entry same, rfl, rfl, rfl, fun inside => ?_⟩
  rw [length_setEntry]
  exact inside

/-- The oldest buffered entry comes into the window as one with the same micro-op. -/
theorem sameOps_enter {e e' : Entry} (next : th.ring.get? th.inWindow = some e) (same : e.SameOp e') :
    th.SameOps (th.enter e') := by
  refine ⟨pointwise_setEntry next same, rfl, rfl, rfl, fun _ => ?_⟩
  show th.inWindow + 1 ≤ (th.setEntry _ _).ring.length
  rw [← Ring.getElem?_toList] at next
  have inside := (List.getElem?_eq_some_iff.mp next).1
  rw [Ring.length_toList] at inside
  rw [length_setEntry]
  exact inside

theorem Linked.sameOp {forwarding : Bool} {e e' : Entry} (h : Linked forwarding th e th' e') : e.SameOp e' := by
  refine ⟨h.seq_eq, ?_⟩
  rw [h.entry]
  rfl

theorem Linked.sameOps {forwarding : Bool} {e e' : Entry} (h : Linked forwarding th e th' e') :
    th.SameOps th' := by
  have ring := h.ring.mono fun _ _ => Entry.Listed.sameOp
  refine ⟨ring, ?_, ?_, h.commitLog, fun inside => ?_⟩
  · rw [h.thread]
  · rw [h.thread]
  · rw [length_of_pointwise ring, h.thread]
    exact inside

theorem sameOps_start {i : Nat} {e : Entry} {now done latency : Time} (entry : th.ring.get? i = some e)
    (started : start i e now done latency th = .ok () th') : th.SameOps th' := by
  obtain ⟨frame, commitLog, woken, -, -⟩ := start_eq_ok started
  rw [← Ring.getElem?_toList] at entry
  have issued : Pointwise Entry.SameOp th.ring.toList (th.issuedAt i e now done) :=
    .set Entry.SameOp.refl entry ⟨rfl, rfl⟩
  have ring := issued.trans (fun _ _ _ => .trans) (woken.mono fun _ _ => Entry.Woken.sameOp)
  refine ⟨ring, ?_, ?_, commitLog, fun inside => ?_⟩
  · rw [frame]
  · rw [frame]
  · rw [length_of_pointwise ring, frame]
    exact inside

theorem Work.sameOps (h : Work config clock th th') : th.SameOps th' := by
  cases h with
  | keep same =>
    refine ⟨?_, same.nextSeq, same.retired, same.commitLog, ?_⟩
    · rw [same.ring]
      exact .refl Entry.SameOp.refl _
    · rw [same.ring, same.inWindow]
      exact id
  | @fetch e next => exact sameOps_setEntry next e.sameOp_fetched
  | @dispatch th₁ e e₁ next linked =>
    -- linking leaves an entry at the edge of the window, and `e₁` takes its place
    have link := linked_link linked
    have span : th₁.inWindow = th.inWindow := by rw [link.thread]
    rw [← Ring.getElem?_toList] at next
    obtain ⟨e₂, next₁, same₂⟩ := link.sameOps.ring.left next
    rw [← span, Ring.getElem?_toList] at next₁
    refine link.sameOps.trans (sameOps_enter next₁ ⟨?_, ?_⟩)
    · exact link.sameOp.seq_eq.trans same₂.seq_eq.symm
    · exact link.sameOp.inProgram_eq.trans same₂.inProgram_eq.symm
  | resolve inside entry waiting resolved =>
    refine sameOps_setEntry entry ⟨?_, ?_⟩
    · rw [OpInstance.resolveData_eq_ok resolved]
      rfl
    · rw [OpInstance.resolveData_eq_ok resolved]
      rfl
  | issue inside entry waiting ready started => exact sameOps_start entry started

end Thread

/-! ## Section 3: Taking micro-ops in and letting them out -/

theorem Window.enqueue_eq_ok {lane : Nat} {u : OpInstance} {th th' : Thread}
    (h : Window.enqueue lane u th = .ok () th') :
    th' = { th with ring := th'.ring, nextSeq := th.nextSeq + 1, stats := th'.stats } ∧
    th'.ring.toList = th.ring.toList ++ [Entry.new u th.nextSeq] ∧
    th'.stats = th.stats.recordPush u.op ∧ th.nextSeq + 1 ≤ Word.max := by
  unfold Window.enqueue at h
  rw [modify_bind, get_bind] at h
  split at h
  · cases h
  · rename_i room
    simp only [bind_eq_ok, ofExcept_eq_ok, modify_eq_ok] at h
    obtain ⟨nextSeq, _, ⟨counted, rfl⟩, h⟩ := h
    obtain ⟨bound, rfl⟩ := Word.add_eq_ok_iff.mp counted
    dsimp only at h room
    split at h
    · rename_i ring pushed
      subst h
      exact ⟨rfl, Ring.toList_push pushed, rfl, bound⟩
    · rename_i f full
      unfold Ring.push at full
      rw [if_neg room] at full
      cases full

namespace Thread

variable {clock : Clock} {th th' : Thread}

theorem oldest?_eq_some {e : Entry} (h : th.oldest? = some e) :
    0 < th.inWindow ∧ th.ring.toList = e :: th.ring.toList.tail := by
  unfold oldest? at h
  split at h
  · cases h
  · rename_i some
    refine ⟨by omega, ?_⟩
    have front : th.ring.toList.head? = .some e := by
      rw [List.head?_eq_getElem?, Ring.getElem?_toList]
      exact h
    rw [List.head?_eq_some_iff] at front
    obtain ⟨rest, front⟩ := front
    rw [front]
    rfl

theorem length_tail {e : Entry} (oldest : th.oldest? = some e) : th.ring.tail.length + 1 = th.ring.length := by
  obtain ⟨-, ring⟩ := oldest?_eq_some oldest
  rw [← Ring.length_toList, ← Ring.length_toList, Ring.toList_tail, ring]
  simp

theorem flush_eq_ok {penalty : Nat} (h : th.flush clock penalty = .ok th') :
    th'.ring.toList = th.ring.toList.mapIdx (fun i e => e.restart (th.nextSeq + i)) ∧
    th'.nextSeq = th.nextSeq + th.ring.length ∧ th.nextSeq + th.ring.length ≤ Word.max ∧
    th' = { th with
      ring := th'.ring
      nextSeq := th'.nextSeq
      inWindow := 0
      registers := .empty
      stores := th.stores.clear
      fetching := th'.fetching
      stalledUntil := th'.stalledUntil
      stall := th'.stall
      nextEvent := th'.nextEvent } := by
  unfold flush at h
  obtain ⟨nextSeq, counted, h⟩ := Except.bind_eq_ok.mp h
  obtain ⟨bound, rfl⟩ := Word.add_eq_ok_iff.mp counted
  cases h
  exact ⟨rfl, rfl, bound, rfl⟩

end Thread

/-! ## Section 4: The invariant -/

/-- The number of the oldest entry in the ring, or the next one if the ring is empty. -/
def Thread.base (th : Thread) : Nat := th.nextSeq - th.ring.length

namespace Account

/-- The entries that have left, followed by those in the ring. -/
def entries (a : Account) : List Entry := a.retired.map (·.entry) ++ a.thread.ring.toList

/-- The micro-ops are in program order. -/
structure InOrder (config : Config) (a : Account) : Prop where
  /-- What was pushed has left or is in the ring, in the order of the program. -/
  program : a.entries.map Entry.inProgram = a.pushed.map OpInstance.inProgram
  /-- Numbers rise in the order in which the entries have left. -/
  increasing : (a.retired.map (·.entry.seq)).Pairwise (· < ·)
  /-- What has left carries lower numbers than what is in the ring. -/
  behind : ∀ r ∈ a.retired, r.entry.seq < a.thread.base
  /-- As many numbers have been given out as there are entries in the ring. -/
  length_le : a.thread.ring.length ≤ a.thread.nextSeq
  /-- The ring is numbered consecutively. -/
  numbered : ∀ i e, a.thread.ring.toList[i]? = some e → e.seq = a.thread.base + i
  /-- The window ends inside the ring. -/
  inWindow_le : a.thread.inWindow ≤ a.thread.ring.length
  /-- Every number is one. -/
  nextSeq_le : a.thread.nextSeq ≤ Word.max
  /-- An instruction counts once its last micro-op has left. -/
  counted : a.thread.retired = a.retired.countP (·.entry.u.op.last)
  /-- If a log is kept, it is a record of what has left. -/
  logged : config.window.commitLog = true →
    a.thread.stats.commitLog.toList = a.retired.map Retirement.record

variable {config : Config} {a b : Account}

theorem inOrder_new {clock : Clock} {th : Thread} {predictor : Option Predictor} {windowSize : Nat}
    {loadHistogram : Bool} (made : Thread.new windowSize loadHistogram predictor = .ok th) :
    InOrder config { clock, thread := th } := by
  obtain ⟨capacity, rfl⟩ := Thread.new_eq_ok made
  refine ⟨rfl, .nil, ?_, Nat.le_refl _, ?_, Nat.le_refl _, Nat.zero_le _, rfl, fun _ => rfl⟩
  · intro r hr
    cases hr
  · intro i e he
    simp at he

theorem InOrder.of_sameOps {th : Thread} (h : InOrder config a) (same : a.thread.SameOps th) :
    InOrder config (a.withThread th) := by
  have length : th.ring.length = a.thread.ring.length := Thread.length_of_pointwise same.ring
  have base : th.base = a.thread.base := by
    unfold Thread.base
    rw [length, same.nextSeq]
  refine
    { program := ?_, increasing := h.increasing, behind := ?_, length_le := ?_, numbered := ?_,
      inWindow_le := same.inWindow h.inWindow_le, nextSeq_le := ?_, counted := ?_, logged := ?_ }
  · have ring : th.ring.toList.map Entry.inProgram = a.thread.ring.toList.map Entry.inProgram :=
      same.ring.map_eq fun _ _ => Entry.SameOp.inProgram_eq
    have program := h.program
    unfold entries at program ⊢
    rw [List.map_append] at program ⊢
    rw [ring]
    exact program
  · intro r hr
    show r.entry.seq < th.base
    rw [base]
    exact h.behind r hr
  · show th.ring.length ≤ th.nextSeq
    rw [length, same.nextSeq]
    exact h.length_le
  · intro i e he
    obtain ⟨x, hx, sameOp⟩ := same.ring.right he
    show e.seq = th.base + i
    rw [base, sameOp.seq_eq]
    exact h.numbered i x hx
  · show th.nextSeq ≤ Word.max
    rw [same.nextSeq]
    exact h.nextSeq_le
  · show th.retired = _
    rw [same.retired]
    exact h.counted
  · intro keeps
    show th.stats.commitLog.toList = _
    rw [same.commitLog]
    exact h.logged keeps

theorem InOrder.push {th : Thread} {lane : Nat} {u v : OpInstance} (h : InOrder config a)
    (same : u.SameAtFront v) (pushed : Window.enqueue lane v a.thread = .ok () th) :
    InOrder config { a with thread := th, pushed := a.pushed ++ [u] } := by
  obtain ⟨frame, ring, counted, bound⟩ := Window.enqueue_eq_ok pushed
  have commitLog : th.stats.commitLog = a.thread.stats.commitLog := by
    rw [counted]
    rfl
  have nextSeq : th.nextSeq = a.thread.nextSeq + 1 := by rw [frame]
  have length : th.ring.length = a.thread.ring.length + 1 := by
    rw [← Ring.length_toList, ring, List.length_append, Ring.length_toList]
    rfl
  -- the ring and the next number grow together, so the oldest number stays
  have base : th.base = a.thread.base := by
    unfold Thread.base
    rw [length, nextSeq, Nat.add_sub_add_right]
  have length_le := h.length_le
  refine
    { program := ?_, increasing := h.increasing, behind := ?_, length_le := ?_, numbered := ?_,
      inWindow_le := ?_, nextSeq_le := ?_, counted := ?_, logged := ?_ }
  · have new : (Entry.new v a.thread.nextSeq).inProgram = u.inProgram := same.inProgram_eq
    unfold entries
    dsimp only
    rw [ring, ← List.append_assoc]
    show (a.entries ++ [Entry.new v a.thread.nextSeq]).map Entry.inProgram = _
    rw [List.map_append, h.program, List.map_append, List.map_singleton, List.map_singleton, new]
  · intro r hr
    show r.entry.seq < th.base
    rw [base]
    exact h.behind r hr
  · show th.ring.length ≤ th.nextSeq
    omega
  · intro i e he
    show e.seq = th.base + i
    dsimp only at he
    rw [ring] at he
    rw [base]
    rcases getElem?_concat_cases he with ⟨rfl, rfl⟩ | he
    · rw [Ring.length_toList]
      show a.thread.nextSeq = a.thread.base + a.thread.ring.length
      unfold Thread.base
      omega
    · exact h.numbered i e he
  · show th.inWindow ≤ th.ring.length
    have inWindow : th.inWindow = a.thread.inWindow := by rw [frame]
    have := h.inWindow_le
    omega
  · show th.nextSeq ≤ Word.max
    omega
  · show th.retired = _
    rw [frame]
    exact h.counted
  · intro keeps
    show th.stats.commitLog.toList = _
    rw [commitLog]
    exact h.logged keeps

/-- An entry that leaves moves from the ring to those that have left. -/
theorem entries_release (config : Config) {e : Entry} (oldest : a.thread.oldest? = some e) :
    (a.release config e).entries = a.entries := by
  obtain ⟨-, ring⟩ := Thread.oldest?_eq_some oldest
  have tail : (a.release config e).thread.ring.toList = a.thread.ring.toList.tail :=
    Ring.toList_tail _
  unfold entries
  rw [tail, ring]
  simp

/-- The oldest entry carries the lowest number in the ring. -/
theorem InOrder.seq_oldest (h : InOrder config a) {e : Entry} (oldest : a.thread.oldest? = some e) :
    e.seq = a.thread.base :=
  h.numbered 0 e (by rw [(Thread.oldest?_eq_some oldest).2]; rfl)

theorem InOrder.base_release (h : InOrder config a) {e : Entry}
    (oldest : a.thread.oldest? = some e) :
    (a.release config e).thread.base = a.thread.base + 1 := by
  have length := Thread.length_tail oldest
  have length_le := h.length_le
  show a.thread.nextSeq - a.thread.ring.tail.length = a.thread.nextSeq - a.thread.ring.length + 1
  omega

/-- After the oldest entry has left. -/
theorem InOrder.release (h : InOrder config a) {e : Entry} (oldest : a.thread.oldest? = some e) :
    InOrder config (a.release config e) := by
  obtain ⟨inside, ring⟩ := Thread.oldest?_eq_some oldest
  have length := Thread.length_tail oldest
  have length_le := h.length_le
  -- the number of the entry that leaves is the one that the base moves past
  have base := h.base_release oldest
  have seq := h.seq_oldest oldest
  refine
    { program := ?_, increasing := ?_, behind := ?_, length_le := ?_, numbered := ?_,
      inWindow_le := ?_, nextSeq_le := h.nextSeq_le, counted := ?_, logged := ?_ }
  · rw [entries_release config oldest]
    exact h.program
  · rw [List.map_append, List.pairwise_append]
    refine ⟨h.increasing, List.pairwise_singleton _ _, ?_⟩
    intro s hs t ht
    obtain ⟨r, hr, rfl⟩ := List.mem_map.mp hs
    rw [List.map_singleton, List.mem_singleton] at ht
    subst ht
    rw [seq]
    exact h.behind r hr
  · intro r hr
    rw [base]
    rcases List.mem_append.mp hr with hr | hr
    · exact Nat.lt_succ_of_lt (h.behind r hr)
    · rw [List.mem_singleton.mp hr]
      show e.seq < _
      omega
  · show a.thread.ring.tail.length ≤ a.thread.nextSeq
    omega
  · intro i x hx
    have hx : a.thread.ring.tail.toList[i]? = some x := hx
    rw [Ring.toList_tail, List.getElem?_tail] at hx
    rw [base, h.numbered _ x hx]
    omega
  · show a.thread.inWindow - 1 ≤ a.thread.ring.tail.length
    have := h.inWindow_le
    omega
  · show a.thread.retired + (if e.u.op.last then 1 else 0) = _
    rw [List.countP_append, List.countP_singleton, h.counted]
  · intro keeps
    show (if config.window.commitLog then _ else _ : Array CommitRecord).toList = _
    rw [if_pos keeps, Array.toList_push, h.logged keeps, List.map_append]
    rfl

theorem InOrder.flush {th : Thread} {penalty : Nat} (h : InOrder config a)
    (flushed : a.thread.flush a.clock penalty = .ok th) :
    InOrder config (a.withThread th) := by
  obtain ⟨ring, nextSeq, bound, frame⟩ := Thread.flush_eq_ok flushed
  have length : th.ring.length = a.thread.ring.length := by
    rw [← Ring.length_toList, ring, List.length_mapIdx, Ring.length_toList]
  -- all entries are numbered anew, behind all numbers that have been given
  have base : th.base = a.thread.nextSeq := by
    unfold Thread.base
    omega
  refine
    { program := ?_, increasing := h.increasing, behind := ?_, length_le := ?_, numbered := ?_,
      inWindow_le := ?_, nextSeq_le := ?_, counted := ?_, logged := ?_ }
  · have restarted : th.ring.toList.map Entry.inProgram =
        a.thread.ring.toList.map Entry.inProgram := by
      rw [ring]
      exact Pointwise.map_eq (R := fun x y => y.inProgram = x.inProgram)
        (.mapIdx (fun i e => Entry.inProgram_restart e _) _) fun _ _ => id
    have program := h.program
    unfold entries at program ⊢
    rw [List.map_append] at program ⊢
    rw [restarted]
    exact program
  · intro r hr
    show r.entry.seq < th.base
    have := h.behind r hr
    unfold Thread.base at this
    omega
  · show th.ring.length ≤ th.nextSeq
    omega
  · intro i x hx
    show x.seq = th.base + i
    dsimp only at hx
    rw [ring, List.getElem?_mapIdx] at hx
    obtain ⟨y, -, rfl⟩ := Option.map_eq_some_iff.mp hx
    rw [base, Entry.seq_restart]
  · show th.inWindow ≤ th.ring.length
    rw [frame]
    exact Nat.zero_le _
  · show th.nextSeq ≤ Word.max
    omega
  · show th.retired = _
    rw [frame]
    exact h.counted
  · intro keeps
    have commitLog : th.stats.commitLog = a.thread.stats.commitLog := by rw [frame]
    show th.stats.commitLog.toList = _
    rw [commitLog]
    exact h.logged keeps

theorem InOrder.step (h : InOrder config a) (step : Step config a b) : InOrder config b := by
  cases step with
  | work work => exact h.of_sameOps work.sameOps
  | push same pushed => exact h.push same pushed
  | retire oldest => exact h.release oldest
  | flush oldest done flushes flushed => exact (h.release oldest).flush flushed
  | tick =>
    exact ⟨h.program, h.increasing, h.behind, h.length_le, h.numbered, h.inWindow_le, h.nextSeq_le,
      h.counted, h.logged⟩

theorem Reachable.inOrder (h : Reachable config a) : InOrder config a := by
  induction h with
  | new made => exact inOrder_new made
  | step _ step ih => exact ih.step step

end Account

/-! ## Section 5: Program order in every chronicle -/

/-- The thread `th`, which has taken in `pushed` and let out `retired`, has kept program order. -/
structure InProgramOrder (config : Config) (pushed : List OpInstance) (retired : List Retirement)
    (th : Thread) : Prop where
  /-- The micro-ops pushed are those that have left followed by those in the ring. -/
  complete : pushed.map OpInstance.inProgram =
    (retired.map (·.entry) ++ th.ring.toList).map Entry.inProgram
  /-- The numbers of those that have left rise strictly. -/
  rising : (retired.map (·.entry.seq)).Pairwise (· < ·)
  /-- The ring is numbered consecutively. -/
  consecutive : th.ring.toList.map Entry.seq =
    List.range' (th.nextSeq - th.ring.length) th.ring.length
  /-- The youngest entry in the ring carries the last number that was given out. -/
  youngest : ∀ e, th.ring.toList.getLast? = some e → e.seq + 1 = th.nextSeq
  /-- The window ends inside the ring. -/
  inside : th.inWindow ≤ th.ring.length
  /-- The instructions counted are those whose last micro-op has left. -/
  counted : th.retired = retired.countP (·.entry.u.op.last)
  /-- A log, if one is kept, is a record of what has left. -/
  logged : config.window.commitLog = true →
    th.stats.commitLog.toList = retired.map Retirement.record

theorem Account.InOrder.inProgramOrder {config : Config} {a : Account} (h : a.InOrder config) :
    InProgramOrder config a.pushed a.retired a.thread := by
  have length_le := h.length_le
  refine
    { complete := h.program.symm, rising := h.increasing, consecutive := ?_, youngest := ?_,
      inside := h.inWindow_le, counted := h.counted, logged := h.logged }
  · apply List.ext_getElem?
    intro i
    rw [List.getElem?_map]
    by_cases inside : i < a.thread.ring.length
    · have present : i < a.thread.ring.toList.length := by rwa [Ring.length_toList]
      rw [List.getElem?_range' inside, List.getElem?_eq_getElem present, Option.map_some,
        h.numbered i _ (List.getElem?_eq_getElem present), Nat.one_mul]
      rfl
    · rw [List.getElem?_eq_none (by rw [Ring.length_toList]; omega),
        List.getElem?_eq_none (by rw [List.length_range']; omega)]
      rfl
  · intro e he
    rw [List.getLast?_eq_getElem?, Ring.length_toList] at he
    have inside := (List.getElem?_eq_some_iff.mp he).1
    rw [Ring.length_toList] at inside
    rw [h.numbered _ e he]
    unfold Thread.base
    omega

/-- Whatever is asked of a window, each of its threads keeps program order: every micro-op that was
pushed leaves once, in the order of the program, or is still in the ring. -/
theorem Chronicle.commits_in_program_order {M : Type} [MemorySystem M] {stride : Window.Stride M}
    {config : Config} {calls : List (Window.Call M)} {c : Chronicle M} {i : Nat} {lane : Lane M}
    (made : Chronicle.of stride config calls = .ok c) (found : c.window.lanes[i]? = some lane) :
    InProgramOrder config (c.pushed i) (c.retired i) lane.thread :=
  ((Chronicle.truthful_of made).reachable i lane found).inOrder.inProgramOrder

/-- A run over a branch that was predicted wrongly, at which the window starts over, and the
beginning of what follows. -/
def flushingCalls : List (Window.Call FixedMemory) :=
  let op : OpInstance := { op := {} }
  [.initializeThread 0 default none,
    .push 0 [op, { op := { kind := .branch }, mispredicted := true }, op, op],
    .markEndOfStream 0, .execute #[true], .push 0 [{ op with squashed := true }, op, op]]

theorem Chronicle.commits_in_program_order_across_flush :
    ∃ (c : Chronicle FixedMemory) (lane : Lane FixedMemory),
      Chronicle.of Window.toEvent default flushingCalls = .ok c ∧
      c.window.lanes[0]? = some lane ∧ lane.thread.ring.length = 2 ∧
      (c.retired 0).map (·.entry.seq) = [0, 1, 4, 5] ∧
      InProgramOrder default (c.pushed 0) (c.retired 0) lane.thread := by
  have computed : ((Chronicle.ofWithin Window.toEvent 20 default flushingCalls).bind fun c =>
      c.window.lanes[0]?.map fun lane =>
        (lane.thread.ring.length, (c.retired 0).map (·.entry.seq))) = some (2, [0, 1, 4, 5]) := by
    decide +kernel
  obtain ⟨c, made, rest⟩ := Option.bind_eq_some_iff.mp computed
  obtain ⟨lane, found, same⟩ := Option.map_eq_some_iff.mp rest
  obtain ⟨length, seqs⟩ := Prod.ext_iff.mp same
  exact ⟨c, lane, Chronicle.of_eq_ok made, found, length, seqs,
    Chronicle.commits_in_program_order (Chronicle.of_eq_ok made) found⟩

end CoreTiming
