import CoreTiming.Proofs.AddressOrder

/-!
# Issue in order

If entries are to issue in order, a pass over the window ends at the first entry that stays.  So whatever issues
does so behind nothing but entries that have issued (`Account.InSequence`): the entries that have issued are a front
part of the window, and what leaves has issued in program order (`Chronicle.issues_in_order`), whichever of its
exits a pass takes and whether or not the window starts over.

At the end of time the clock stands still, and an entry whose result does not come before that time issues again
and again until it leaves, behind which others have issued in time (`Chronicle.issues_again_at_end_of_time`).
-/

namespace CoreTiming

/-- Whether the entry has issued. -/
def Entry.hasIssued (e : Entry) : Bool := !e.issued.isNever

@[simp] theorem Entry.hasIssued_iff {e : Entry} : e.hasIssued = true ↔ e.issued ≠ .never := by
  simp [hasIssued, Time.isNever]

/-- If whatever has a property is preceded by what has it only, what has it comes first. -/
theorem filter_isPrefix {α : Type} {p : α → Bool} {l : List α} (h : l.Pairwise fun x y => p y = true → p x = true) :
    l.filter p <+: l := by
  induction l with
  | nil => exact List.prefix_rfl
  | cons x l ih =>
    obtain ⟨head, tail⟩ := List.pairwise_cons.mp h
    cases first : p x with
    | true =>
      rw [List.filter_cons_of_pos first]
      exact (List.prefix_cons_inj x).mpr (ih tail)
    | false =>
      have none : (x :: l).filter p = [] := by
        refine List.filter_eq_nil_iff.mpr fun y mem has => ?_
        rcases List.mem_cons.mp mem with rfl | later
        · exact absurd (first.symm.trans has) Bool.false_ne_true
        · exact absurd (first.symm.trans (head y later has)) Bool.false_ne_true
      rw [none]
      exact List.nil_prefix

namespace Account

variable {config : Config} {phase : Phase} {a b : Account} {e : Entry} {done : Time} {i n : Nat}

/-! ## Section 1: What has issued is a front part -/

/-- Whatever has issued has done so after all that is older, unless the result of that does not come before the end
of time. -/
def InSequence (a : Account) : Prop :=
  ∀ (j k : Nat) (y z : Entry), a.entries[j]? = some y → a.entries[k]? = some z → j < k → z.issued ≠ .never →
    y.issued ≠ .never ∧ (y.done = .never ∨ y.issued ≤ z.issued)

/-- If the entries before `n` have not issued in the meantime, and none behind has at all, the order is kept. -/
theorem InSequence.of_stands (h : InSequence a)
    (before : ∀ k, k < n → Option.Rel Entry.Stands a.entries[k]? b.entries[k]?)
    (idle : ∀ (k : Nat) (x : Entry), n ≤ k → b.entries[k]? = some x → x.issued = .never) : InSequence b := by
  intro j k y z hy hz older issued
  have within : k < n := by
    by_contra outside
    exact issued (idle k z (not_lt.mp outside) hz)
  obtain ⟨y₀, hy₀, stands⟩ := rel_right (before j (by omega)) hy
  obtain ⟨z₀, hz₀, stands'⟩ := rel_right (before k within) hz
  rw [stands'.issued_eq] at issued ⊢
  rw [stands.issued_eq, stands.done_eq]
  exact h j k y₀ z₀ hy₀ hz₀ older issued

theorem InSequence.persist (h : InSequence a) (persists : Persists a b) (timed : Timed b) : InSequence b :=
  h.of_stands (fun k within => rel_mono (fun _ _ same => same.1.stands same.2) (persists.kept k within))
    fun k x outside hx => (timed.fresh k x hx outside).issued

theorem InSequence.enter {e' : Entry} {th : Thread} (h : InSequence a) (timed : Timed a)
    (enters : Enters config a b e e' th) : InSequence b :=
  h.of_stands (n := a.edge) (fun k within => rel_mono (fun _ _ => Entry.Listed.stands) (enters.others k (by omega)))
    fun _ _ outside hx => (enters.not_issued timed hx outside).1

/-- An entry issues behind entries that have issued. -/
theorem InSequence.issue (h : InSequence a) (reached : Reachable config a) (intime : a.clock.now ≠ .never)
    (front : ∀ (j : Nat) (x : Entry), a.entries[j]? = some x → a.retired.length ≤ j → j < i → x.issued ≠ .never)
    (issues : Issues a b i e done) : InSequence b := by
  intro j k y z hy hz older issued
  obtain ⟨y₀, hy₀, -⟩ := issues.exists_before hy
  obtain ⟨z₀, hz₀, -⟩ := issues.exists_before hz
  refine issues.precedes reached.lasting intime hy₀ hz₀ hy hz older (h j k y₀ z₀ hy₀ hz₀ older) (fun here => ?_) issued
  by_cases left : j < a.retired.length
  · exact reached.timed.issued_of_left intime hy₀ left
  · exact front j y₀ hy₀ (not_lt.mp left) (by omega)

theorem Paced.inSequence (h : Paced config phase a) (intime : a.clock.now ≠ .never)
    (ordered : config.window.inOrder = true) : InSequence a := by
  induction h with
  | new made =>
    intro j k y z hy
    rw [entries_new made] at hy
    cases hy
  | @step phase phase' a b paced pace ih =>
    have before := ih (Time.ne_never_of_le pace.later intime)
    have reached := paced.reachable
    have steady : ∀ {b : Account}, Steady config a b → InSequence b := fun path =>
      path.keeps reached before fun step persists reached kept => kept.persist persists (reached.step step).timed
    cases pace.kind reached with
    | steady path => exact steady path
    | enter dispatching step enters linked => exact before.enter reached.timed enters
    | issue path step issues reviews clear front =>
      rw [issues.same.clock] at intime
      exact (steady path).issue (path.reachable reached) intime (front intime ordered) issues

/-! ## Section 2: The window, and what has left -/

/-- What has issued is a front part of the window. -/
theorem InSequence.issued_isPrefix (h : InSequence a) (timed : Timed a) :
    a.thread.ring.toList.filter Entry.hasIssued <+: a.thread.window := by
  have buffered : (a.thread.ring.toList.drop a.thread.inWindow).filter Entry.hasIssued = [] := by
    refine List.filter_eq_nil_iff.mpr fun x mem issued => ?_
    obtain ⟨m, at_m⟩ := List.getElem?_of_mem mem
    rw [List.getElem?_drop, ← entries_add] at at_m
    exact Entry.hasIssued_iff.mp issued (timed.fresh _ x at_m (by unfold Account.edge; omega)).issued
  have front : (a.thread.ring.toList.take a.thread.inWindow).filter Entry.hasIssued <+: a.thread.window := by
    refine filter_isPrefix (List.pairwise_iff_getElem.mpr fun j k hj hk older issued => ?_)
    have entry : ∀ {m : Nat} (hm : m < (a.thread.ring.toList.take a.thread.inWindow).length),
        a.entries[a.retired.length + m]? = some (a.thread.ring.toList.take a.thread.inWindow)[m] := by
      intro m hm
      rw [entries_add, List.getElem_take]
      exact List.getElem?_eq_getElem _
    rw [Entry.hasIssued_iff] at issued ⊢
    exact (h _ _ _ _ (entry hj) (entry hk) (by omega) issued).1
  have parts : a.thread.ring.toList.filter Entry.hasIssued =
      (a.thread.ring.toList.take a.thread.inWindow).filter Entry.hasIssued := by
    conv_lhs => rw [← List.take_append_drop a.thread.inWindow a.thread.ring.toList]
    rw [List.filter_append, buffered, List.append_nil]
  rw [parts]
  exact front

/-- What has left has issued in program order. -/
theorem InSequence.pairwise_retired (h : InSequence a) (timed : Timed a) (intime : a.clock.now ≠ .never) :
    (a.retired.map (·.entry.issued)).Pairwise (· ≤ ·) := by
  rw [List.pairwise_map]
  refine List.pairwise_iff_getElem.mpr fun j k hj hk older => ?_
  have at_j := entries_of_retired (List.getElem?_eq_getElem hj)
  have at_k := entries_of_retired (List.getElem?_eq_getElem hk)
  have inOrder := (h j k _ _ at_j at_k older (timed.issued_of_left intime at_k hk)).2
  exact inOrder.resolve_left (timed.done_of_mem_retired intime (List.getElem_mem hj))

end Account

/-! ## Section 3: All points of all runs -/

namespace Chronicle

/-- If entries are to issue in order, at every point of every run, whatever has been asked of the window before, what
has issued of a thread is a front part of its window; and the micro-ops that have left, which a commit log lists in
program order, have issued one after the other. -/
theorem issues_in_order {M : Type} [MemorySystem M] {config : Config} {calls : List (Window.Call M)}
    {c c' : Chronicle M} {running : Running} {phase : Phase} {i : Nat} {lane : Lane M}
    (made : of Window.toEvent config calls = .ok c) (comes : Comes running c phase c')
    (intime : c'.window.clock.now ≠ .never) (ordered : config.window.inOrder = true)
    (found : c'.window.lanes[i]? = some lane) :
    lane.thread.ring.toList.filter Entry.hasIssued <+: lane.thread.window ∧
    ((c'.retired i).map (·.entry.issued)).Pairwise (· ≤ ·) ∧
    (c'.retired i).map (·.entry.inProgram) <+: (c'.pushed i).map OpInstance.inProgram ∧
    (config.window.commitLog = true → lane.thread.stats.commitLog.toList = (c'.retired i).map Retirement.record) := by
  have paced := (comes.inPhase (inPhase_of made)).lanes i lane found
  have sequence := paced.inSequence intime ordered
  have program := paced.reachable.inOrder.inProgramOrder
  refine ⟨sequence.issued_isPrefix paced.reachable.timed, sequence.pairwise_retired paced.reachable.timed intime, ?_,
    program.logged⟩
  have complete : (c'.pushed i).map OpInstance.inProgram = _ := program.complete
  rw [complete, List.map_append, List.map_map]
  exact List.prefix_append _ _

/-- Entries issue in order, and there is a commit log. -/
def inOrder : Config :=
  { (default : Config) with window := { (default : Config).window with inOrder := true, commitLog := true } }

/-- A run that stops for want of more to take in: a store behind a branch that was predicted wrongly, then a fence, a
load and what reads its result, a serializing micro-op, and what fills the window. -/
def heldBackCalls : List (Window.Call FixedMemory) :=
  [.initializeThread 0 default none,
    .push 0 ([{ op := { kind := .load, destinations := [5] }, address := 64 },
      { op := { kind := .branch }, mispredicted := true },
      { op := { kind := .store, sources := [5] }, address := 64 }, { op := { fence := true } },
      { op := { kind := .load, destinations := [6] }, latency := 9, address := 128 },
      { op := { sources := [6], destinations := [7] } }, { op := { serializing := true } }] ++
      List.replicate 20 { op := {} }),
    .execute #[true]]

/-- The fence has issued, and nothing that is behind it. -/
theorem issues_in_order_up_to_fence :
    ∃ (c : Chronicle FixedMemory) (lane : Lane FixedMemory), of Window.toEvent inOrder heldBackCalls = .ok c ∧
      c.window.clock.now ≠ .never ∧ c.window.lanes[0]? = some lane ∧
      lane.thread.window.map Entry.hasIssued = true :: List.replicate 17 false ∧
      lane.thread.ring.toList.filter Entry.hasIssued <+: lane.thread.window ∧
      lane.thread.stats.commitLog.toList = (c.retired 0).map Retirement.record ∧
      (c.retired 0).map (·.entry.issued) = [⟨375940⟩, ⟨375940⟩, ⟨4135340⟩, ⟨4887220⟩] ∧
      ((c.retired 0).map (·.entry.issued)).Pairwise (· ≤ ·) := by
  have computed : ((ofWithin Window.toEvent 80 inOrder heldBackCalls).bind fun c =>
      c.window.lanes[0]?.map fun lane => (c.window.clock.now, lane.thread.window.map Entry.hasIssued,
        (c.retired 0).map (·.entry.issued))) =
      some (⟨5639100⟩, true :: List.replicate 17 false, [⟨375940⟩, ⟨375940⟩, ⟨4135340⟩, ⟨4887220⟩]) := by
    decide +kernel
  obtain ⟨c, computed, seen⟩ := Option.bind_eq_some_iff.mp computed
  obtain ⟨lane, found, seen⟩ := Option.map_eq_some_iff.mp seen
  simp only [Prod.mk.injEq] at seen
  obtain ⟨now, window, issued⟩ := seen
  have made := of_eq_ok computed
  have intime : c.window.clock.now ≠ .never := by
    rw [now]
    decide
  obtain ⟨front, sorted, -, logged⟩ :=
    issues_in_order made (.start : Comes #[true] c .rest c) intime rfl found
  exact ⟨c, lane, made, intime, found, window, front, logged rfl, issued, sorted⟩

/-- Entries issue in order, and a cycle takes more than half of all the time that there is. -/
def inOrderSlow : Config := { inOrder with core := { frequencyGhz := 1e-13 } }

/-- A micro-op that takes a cycle, and one that takes none. -/
def lateCalls : List (Window.Call FixedMemory) :=
  [.initializeThread 0 default none, .push 0 [{ op := {} }, { op := {}, latency := 0 }], .markEndOfStream 0]

/-- Both issue after a cycle.  The result of the first one does not come before the end of time, so it issues again
there, and leaves; the second one has issued before that. -/
theorem issues_again_at_end_of_time :
    ∃ (c : Chronicle FixedMemory) (lane : Lane FixedMemory), inOrderSlow.window.inOrder = true ∧
      of Window.toEvent inOrderSlow (lateCalls ++ [.execute #[true]]) = .ok c ∧ c.window.lanes[0]? = some lane ∧
      lane.thread.stats.commitLog.toList.map (·.seq) = [0, 1] ∧
      ¬(lane.thread.stats.commitLog.toList.map (·.issued)).Pairwise (· ≤ ·) := by
  have computed : ((ofWithin Window.toEvent 20 inOrderSlow lateCalls).bind fun c =>
      (Window.runToEnd Window.toEvent #[true] 20 c.window).map fun w => w.lanes[0]?.map fun lane =>
        lane.thread.stats.commitLog.toList.map fun r => (r.seq, r.issued)) =
      some (some [(0, .never), (1, ⟨10000000000000000000⟩)]) := by
    decide +kernel
  obtain ⟨c, made, seen⟩ := exists_of_runToEnd computed (by decide)
  obtain ⟨lane, found, seen⟩ := Option.map_eq_some_iff.mp seen
  have seqs := congrArg (List.map Prod.fst) seen
  have times := congrArg (List.map Prod.snd) seen
  rw [List.map_map] at seqs times
  refine ⟨c, lane, rfl, made, found, seqs, ?_⟩
  show ¬(List.map (Prod.snd ∘ fun r : CommitRecord => (r.seq, r.issued)) _).Pairwise (· ≤ ·)
  rw [times]
  decide

end Chronicle

end CoreTiming
