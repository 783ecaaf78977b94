import CoreTiming.Proofs.Bookkeeping

/-!
# Writers on record

`Account.Tabled` says that the register table names the youngest writer of a register while it is in the window.
Here is the other half: whoever is named is that writer.  So a look-up finds the youngest writer in flight, or
nothing (`Account.Recorded.live?_iff`).
-/

namespace CoreTiming

/-! ## Section 1: The youngest of a longer program -/

namespace Youngest

variable {prog us : List OpInstance} {p : OpInstance → Prop} {j k : Nat}

/-- What is pushed later makes no difference to what is older than `k`. -/
theorem append_iff (hk : k ≤ prog.length) : Youngest (prog ++ us) p k j ↔ Youngest prog p k j := by
  have same : ∀ {m : Nat}, m < k → (prog ++ us)[m]? = prog[m]? := fun inside =>
    List.getElem?_append_left (Nat.lt_of_lt_of_le inside hk)
  constructor
  · intro h
    refine ⟨h.before, ?_, fun m u after before at_m => ?_⟩
    · rw [← same h.before]
      exact h.holds
    · exact h.last m u after before (by rw [same before]; exact at_m)
  · intro h
    refine ⟨h.before, ?_, fun m u after before at_m => ?_⟩
    · rw [same h.before]
      exact h.holds
    · rw [same before] at at_m
      exact h.last m u after before at_m

/-- There is only one. -/
theorem unique {j' : Nat} (h : Youngest prog p k j) (h' : Youngest prog p k j') : j = j' := by
  obtain ⟨u, at_j, holds⟩ := h.holds
  obtain ⟨u', at_j', holds'⟩ := h'.holds
  rcases Nat.lt_trichotomy j j' with older | same | younger
  · exact absurd holds' (h.last j' u' older h'.before at_j')
  · exact same
  · exact absurd holds (h'.last j u younger h.before at_j)

/-- Which one is the youngest can be computed. -/
instance [DecidablePred p] : Decidable (Youngest prog p k j) :=
  decidable_of_iff (j < k ∧ (∃ u, u ∈ prog[j]? ∧ p u) ∧ ∀ m < k, j < m → ∀ u ∈ prog[m]?, ¬p u)
    ⟨fun ⟨before, holds, last⟩ => ⟨before, holds, fun m u after inside at_m => last m inside after u at_m⟩,
      fun h => ⟨h.before, h.holds, fun m inside after u at_m => h.last m u after inside at_m⟩⟩

end Youngest

instance (r : Register) : DecidablePred (OpInstance.Writes r) :=
  fun u => inferInstanceAs (Decidable (r ∈ u.op.destinations))

namespace Account

variable {config : Config} {a b : Account} {e : Entry}

/-! ## Section 2: The invariant -/

/-- Whoever is on record as the writer of a register is its youngest writer, and in the window. -/
def Recorded (a : Account) : Prop :=
  ∀ (r : Register) (q : Nat), a.thread.registers.live? r a.thread.base = some q →
    r < numRegisters ∧ ∃ (j : Nat) (p : Entry), a.entries[j]? = some p ∧ a.retired.length ≤ j ∧ p.seq = q ∧
      Youngest a.pushed (OpInstance.Writes r) a.edge j

theorem recorded_of_empty (registers : a.thread.registers = .empty) : Recorded a := by
  intro r q live
  rw [registers, RegisterTable.live?_empty] at live
  cases live

/-- If only entries change, and no micro-op does, the same writers are on record. -/
theorem Recorded.of_sameBooks (h : Recorded a) (same : a.SameBooks b)
    (ops : Pointwise Entry.SameOp a.entries b.entries) : Recorded b := by
  intro r q live
  rw [same.registers, same.base] at live
  obtain ⟨tracked, j, p, hp, inRing, number, youngest⟩ := h r q live
  obtain ⟨p', hp', sameOp⟩ := ops.left hp
  rw [same.retired, same.pushed, same.edge_eq]
  exact ⟨tracked, j, p', hp', inRing, sameOp.seq_eq.trans number, youngest⟩

theorem Recorded.enter {e' : Entry} {th : Thread} (h : Recorded a) (tabled : Tabled a) (order : InOrder config a)
    (enters : Enters config a b e e' th) : Recorded b := by
  obtain ⟨u, at_u, op, -⟩ := order.op_of_entry enters.next
  intro r q live
  rw [enters.base, enters.live?_eq order] at live
  rw [enters.retired, enters.pushed, enters.edge_eq]
  split at live
  · -- the entry that has entered writes the register
    rename_i writes
    cases live
    obtain ⟨x, hx, sameOp⟩ := (Moves.enter enters).sameOp.left enters.next
    refine ⟨tabled.size ▸ writes.2, a.edge, x, hx, Nat.le_add_right _ _, sameOp.seq_eq, Nat.lt_succ_self _,
      ⟨u, at_u, ?_⟩, fun m v after before => by omega⟩
    unfold OpInstance.Writes
    rw [op]
    exact writes.1
  · rename_i silent
    obtain ⟨tracked, j, p, hp, inRing, number, youngest⟩ := h r q live
    obtain ⟨x, hx, sameOp⟩ := (Moves.enter enters).sameOp.left hp
    have before := youngest.before
    refine ⟨tracked, j, x, hx, inRing, sameOp.seq_eq.trans number, by omega, youngest.holds,
      fun m v after within at_m writes => ?_⟩
    rcases Nat.lt_succ_iff_lt_or_eq.mp within with older | rfl
    · exact youngest.last m v after older at_m writes
    · rw [at_u] at at_m
      cases at_m
      unfold OpInstance.Writes at writes
      rw [op] at writes
      exact silent ⟨writes, tabled.size.symm ▸ tracked⟩

theorem Recorded.take {u : OpInstance} (h : Recorded a) (order : InOrder config a) (takes : Takes a b u e) :
    Recorded b := by
  have inside := order.edge_le
  have length := congrArg List.length order.program
  rw [List.length_map, List.length_map] at length
  intro r q live
  rw [takes.registers, takes.base] at live
  obtain ⟨tracked, j, p, hp, inRing, number, youngest⟩ := h r q live
  rw [takes.retired, takes.pushed, takes.edge_eq, takes.entries]
  refine ⟨tracked, j, p, ?_, inRing, number, (Youngest.append_iff (by omega)).mpr youngest⟩
  rw [List.getElem?_append_left (List.getElem?_eq_some_iff.mp hp).1]
  exact hp

theorem Recorded.release (h : Recorded a) (order : InOrder config a) (oldest : a.thread.oldest? = some e) :
    Recorded (a.release config e) := by
  have entries := entries_release config oldest
  have left := length_release config a e
  intro r q live
  rw [order.base_release oldest] at live
  have live : a.thread.registers.live? r (a.thread.base + 1) = some q := live
  rw [RegisterTable.live?_of_le (Nat.le_succ _), Option.filter_eq_some_iff] at live
  obtain ⟨found, young⟩ := live
  obtain ⟨tracked, j, p, hp, inRing, number, youngest⟩ := h r q found
  have seq := order.seq_of_le inRing hp
  have young : a.thread.base + 1 ≤ q := by simpa using young
  rw [edge_release oldest, entries]
  exact ⟨tracked, j, p, hp, by omega, number, youngest⟩

theorem Recorded.step (h : Recorded a) (tabled : Tabled a) (order : InOrder config a) (step : Step config a b) :
    Recorded b := by
  cases order.passes step with
  | moves moves =>
    cases moves with
    | quiet same entries latencies =>
      have moved : Moves config a b := .quiet same entries latencies
      exact h.of_sameBooks same moved.sameOp
    | enter enters => exact h.enter tabled order enters
    | issue issues =>
      have moved : Moves config a b := .issue issues
      exact h.of_sameBooks issues.same moved.sameOp
  | takes takes => exact h.take order takes
  | releases oldest done result =>
    rw [result]
    exact h.release order oldest
  | restarts oldest done restarts => exact recorded_of_empty restarts.registers
  | ticks later result =>
    rw [result]
    exact h

theorem Reachable.recorded (h : Reachable config a) : Recorded a := by
  induction h with
  | new made =>
    obtain ⟨capacity, rfl⟩ := Thread.new_eq_ok made
    exact recorded_of_empty rfl
  | step reached step ih => exact ih.step reached.tabled reached.inOrder step

/-! ## Section 3: Looking a writer up -/

/-- A look-up finds the youngest writer of a register that is tracked, if it is in flight. -/
theorem Recorded.live?_iff (h : Recorded a) (tabled : Tabled a) {r : Register} {q : Nat} :
    a.thread.registers.live? r a.thread.base = some q ↔
      r < numRegisters ∧ ∃ (j : Nat) (p : Entry), a.entries[j]? = some p ∧ a.retired.length ≤ j ∧ p.seq = q ∧
        Youngest a.pushed (OpInstance.Writes r) a.edge j := by
  constructor
  · exact h r q
  · rintro ⟨tracked, j, p, hp, inRing, number, youngest⟩
    rw [← number]
    exact tabled.writers r j p tracked inRing youngest hp

end Account

end CoreTiming
