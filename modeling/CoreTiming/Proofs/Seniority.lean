import CoreTiming.Proofs.Bookkeeping

/-!
# Producers are older

An entry only ever waits for older entries, so it never waits for itself.  The exception is a number
that somebody wrote into a micro-op before it was pushed: it is taken over as it is.
-/

namespace CoreTiming

namespace Account

variable {config : Config} {a b : Account} {e : Entry}

/-- The number `q` was listed as a producer by a micro-op before it was pushed. -/
def Stray (a : Account) (q : Nat) : Prop := ∃ u ∈ a.pushed, q ∈ u.producers.toList

/-- What entries wait for is older. -/
structure Senior (a : Account) : Prop where
  /-- What an entry in the ring waits for is older than the entry. -/
  older : ∀ (k : Nat) (e : Entry), a.entries[k]? = some e → a.retired.length ≤ k →
    ∀ q ∈ e.u.producers.toList, q < e.seq ∨ a.Stray q
  /-- What is buffered has not been linked to anything. -/
  unlinked : ∀ (k : Nat) (e : Entry), a.entries[k]? = some e → a.edge ≤ k →
    ∀ q ∈ e.u.producers.toList, a.Stray q

/-- What the tables tell a micro-op to wait for is no younger than the window. -/
theorem Tabled.sought_lt (h : Tabled a) (order : InOrder config a) {u : OpInstance} {q : Nat}
    (mem : q ∈ a.thread.registers.sought a.thread.base u.op ∨
      q ∈ a.thread.stores.sought a.thread.base u) :
    q < a.thread.base + a.thread.inWindow := by
  have fence : ∀ {q}, q ∈ (a.thread.stores.liveFence? a.thread.base).toList →
      q < a.thread.base + a.thread.inWindow := by
    intro q hq
    rw [Option.mem_toList] at hq
    unfold StoreTable.liveFence? at hq
    rw [Option.filter_eq_some_iff] at hq
    exact h.fence_lt q hq.1
  rcases mem with mem | mem
  · -- a register
    obtain ⟨r, -, live⟩ := List.mem_filterMap.mp mem
    exact h.writers_lt r q live
  · unfold StoreTable.sought at mem
    split at mem
    · rcases List.mem_append.mp mem with mem | mem
      · -- a store
        rw [Option.mem_toList, StoreTable.find?_eq, h.stores_clean order] at mem
        obtain ⟨s, found, number⟩ := Option.bind_eq_some_iff.mp mem
        have recorded := List.mem_of_find?_eq_some found
        rw [List.mem_reverse] at recorded
        rw [← seq?_eq_some number]
        exact (order.seq_of_record recorded).2
      · exact fence mem
    · split at mem
      · exact fence mem
      · cases mem

/-- What an entry looks for when it enters the window is older. -/
theorem Senior.lt_of_seeks {q : Nat} (h : Senior a) (order : InOrder config a) (tabled : Tabled a)
    (next : a.entries[a.edge]? = some e) (seeks : a.thread.Seeks e.fetched q) : q < e.seq ∨ a.Stray q := by
  have seq := order.seq_edge next
  have lowest := order.lowest_eq next
  rcases seeks with sought | ⟨s, -, i, p, hp, -, listed⟩
  · unfold Thread.sought at sought
    rw [lowest, List.append_assoc, List.mem_append, List.mem_append] at sought
    rcases sought with own | tables
    · exact .inr (h.unlinked _ e next (Nat.le_refl _) q own)
    · have := tabled.sought_lt order tables
      exact .inl (by omega)
  · -- taken over from a store, which is older itself or has not been linked
    rw [← entries_add] at hp
    by_cases older : a.retired.length + i < a.edge
    · rcases h.older _ p hp (Nat.le_add_right _ _) q listed with lt | found
      · have := order.seq_lt_seq hp next older
        exact .inl (by omega)
      · exact .inr found
    · exact .inr (h.unlinked _ p hp (by omega) q listed)

theorem Senior.enter {e' : Entry} {th : Thread} (h : Senior a) (order : InOrder config a)
    (tabled : Tabled a) (enters : Enters config a b e e' th) : Senior b := by
  have link := enters.linked
  have stray : ∀ {q}, a.Stray q → b.Stray q := by
    rintro q ⟨u, hu, listed⟩
    exact ⟨u, by rwa [enters.pushed], listed⟩
  have new : ∀ q ∈ e'.u.producers.toList, q < e.seq ∨ b.Stray q := by
    intro q hq
    exact (h.lt_of_seeks order tabled enters.next (link.fewer q hq)).imp_right stray
  refine ⟨fun k x hx left q hq => ?_, fun k x hx outside q hq => ?_⟩
  · rw [enters.retired] at left
    rcases enters.entry_before hx with ⟨rfl, rfl⟩ | ⟨hne, y, hy, listed⟩
    · have same : e'.seq = e.seq := link.seq_eq
      show q < e'.seq ∨ _
      rw [same]
      exact new q hq
    · rw [listed.seq_eq]
      rw [listed.frame] at hq
      exact (h.older k y hy left q hq).imp_right stray
  · rw [enters.edge_eq] at outside
    obtain ⟨y, hy, listed⟩ := enters.entry_elsewhere hx (by omega)
    rw [listed.frame] at hq
    exact stray (h.unlinked k y hy (by omega) q hq)

/-- If entries only lose producers, the others are still older. -/
theorem Senior.of_fewer (h : Senior a) (left : a.retired.length ≤ b.retired.length)
    (edge : b.edge = a.edge) (pushed : ∀ u ∈ a.pushed, u ∈ b.pushed)
    (before : ∀ (k : Nat) (x : Entry), b.entries[k]? = some x →
      (∀ q ∈ x.u.producers.toList, b.Stray q) ∨
        ∃ y, a.entries[k]? = some y ∧ x.seq = y.seq ∧
          ∀ q ∈ x.u.producers.toList, q ∈ y.u.producers.toList) : Senior b := by
  have stray : ∀ {q}, a.Stray q → b.Stray q := by
    rintro q ⟨u, hu, listed⟩
    exact ⟨u, pushed u hu, listed⟩
  refine ⟨fun k x hx inRing q hq => ?_, fun k x hx outside q hq => ?_⟩
  · rcases before k x hx with all | ⟨y, hy, same, fewer⟩
    · exact .inr (all q hq)
    · rw [same]
      exact (h.older k y hy (by omega) q (fewer q hq)).imp_right stray
  · rcases before k x hx with all | ⟨y, hy, same, fewer⟩
    · exact all q hq
    · exact stray (h.unlinked k y hy (by omega) q (fewer q hq))

theorem Senior.restart (restarts : Restarts a b) : Senior b := by
  have none : ∀ (k : Nat) (x : Entry), b.entries[k]? = some x → a.retired.length ≤ k →
      x.u.producers.toList = [] := by
    intro k x hx inRing
    rcases restarts.entry_before hx with ⟨left, -⟩ | ⟨-, y, seq, -, rfl⟩
    · omega
    · rfl
  refine ⟨fun k x hx inRing q hq => ?_, fun k x hx outside q hq => ?_⟩
  · rw [restarts.retired] at inRing
    rw [none k x hx inRing] at hq
    cases hq
  · rw [restarts.edge_eq] at outside
    rw [none k x hx outside] at hq
    cases hq

theorem Senior.step (h : Senior a) (order : InOrder config a) (tabled : Tabled a)
    (step : Step config a b) : Senior b := by
  -- producers are only named when an entry enters, and then the tables name older ones
  cases order.passes step with
  | moves moves =>
    cases moves with
    | quiet same entries =>
      refine h.of_fewer (le_of_eq (congrArg _ same.retired.symm)) same.edge_eq ?_ ?_
      · rw [same.pushed]
        exact fun _ hu => hu
      · intro k x hx
        obtain ⟨y, hy, point⟩ := entries.right hx
        rw [point]
        exact .inr ⟨y, hy, rfl, fun _ hq => hq⟩
    | enter enters => exact h.enter order tabled enters
    | @issue i e done issues =>
      refine h.of_fewer (le_of_eq (congrArg _ issues.same.retired.symm)) issues.same.edge_eq ?_ ?_
      · rw [issues.same.pushed]
        exact fun _ hu => hu
      · intro k x hx
        rcases issues.entry_before hx with ⟨rfl, woken⟩ | ⟨-, y, hy, woken⟩
        · exact .inr ⟨e, issues.entry, woken.seq_eq, woken.fewer⟩
        · exact .inr ⟨y, hy, woken.seq_eq, woken.fewer⟩
  | @takes u e takes =>
    refine h.of_fewer (le_of_eq (congrArg _ takes.retired.symm)) takes.edge_eq ?_ ?_
    · rw [takes.pushed]
      exact fun _ hu => List.mem_append_left _ hu
    · intro k x hx
      rcases takes.entry_before hx with ⟨-, rfl⟩ | hx
      · refine .inl fun q hq => ⟨u, ?_, ?_⟩
        · rw [takes.pushed]
          exact List.mem_append_right _ List.mem_cons_self
        · rwa [takes.producers] at hq
      · exact .inr ⟨x, hx, rfl, fun _ hq => hq⟩
  | releases oldest done result =>
    rw [result]
    refine h.of_fewer ?_ (edge_release oldest) (fun _ hu => hu) ?_
    · rw [length_release]
      exact Nat.le_succ _
    · rw [entries_release config oldest]
      exact fun k x hx => .inr ⟨x, hx, rfl, fun _ hq => hq⟩
  | restarts oldest done restarts => exact .restart restarts
  | ticks later result =>
    rw [result]
    exact ⟨h.older, h.unlinked⟩

theorem Reachable.senior (h : Reachable config a) : Senior a := by
  induction h with
  | new made =>
    obtain ⟨capacity, rfl⟩ := Thread.new_eq_ok made
    refine ⟨fun k e he => ?_, fun k e he => ?_⟩
    · cases he
    · cases he
  | step reached step ih => exact ih.step reached.inOrder reached.tabled step

/-- An entry never comes to wait for itself. -/
theorem Senior.self_not_mem (h : Senior a) (mem : e ∈ a.thread.ring.toList)
    (self : e.seq ∈ e.u.producers.toList) : a.Stray e.seq := by
  obtain ⟨i, hi⟩ := List.getElem?_of_mem mem
  rw [← entries_add] at hi
  rcases h.older _ e hi (Nat.le_add_right _ _) _ self with lt | stray
  · omega
  · exact stray

end Account

end CoreTiming
