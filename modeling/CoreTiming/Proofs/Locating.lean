import CoreTiming.Proofs.Accounting

/-!
# What is looked up is there

A thread looks entries up by their numbers: the writers of registers, the producers that an entry waits for,
the consumers that it wakes.  An account is `Account.Directed` if what entries list is where it is looked for:
consumers are younger than the entry that wakes them, and the producers of an address stand inside the window
or have left it.  It follows that every number that is looked up is that of an entry in the ring
(`Thread.Holds`).
-/

namespace CoreTiming

open Faulting

/-! ## Section 1: Lists of consumers and of producers of an address -/

namespace Account

variable {config : Config} {a b : Account} {e : Entry}

/-- What entries list is where it is looked for. -/
structure Directed (a : Account) : Prop where
  /-- What an entry is to wake is younger. -/
  younger : ∀ (k : Nat) (e : Entry), a.entries[k]? = some e → a.retired.length ≤ k →
    ∀ q ∈ e.dependants.toList, e.seq < q
  /-- What an address waits for has entered the window. -/
  inside : ∀ (k : Nat) (e : Entry), a.entries[k]? = some e → a.retired.length ≤ k →
    ∀ q ∈ e.addressProducers.toList, q < a.thread.base + a.thread.inWindow
  /-- What is buffered lists nothing. -/
  untouched : ∀ (k : Nat) (e : Entry), a.entries[k]? = some e → a.edge ≤ k →
    e.dependants.toList = [] ∧ e.addressProducers.toList = []

/-- If entries list nothing else, and the window does not end earlier, the account is still directed. -/
theorem Directed.of_same (h : Directed a) (left : a.retired.length ≤ b.retired.length) (edge : b.edge = a.edge)
    (last : a.thread.base + a.thread.inWindow ≤ b.thread.base + b.thread.inWindow)
    (before : ∀ (k : Nat) (x : Entry), b.entries[k]? = some x →
      (x.dependants.toList = [] ∧ x.addressProducers.toList = []) ∨
        ∃ y, a.entries[k]? = some y ∧ x.seq = y.seq ∧ x.dependants = y.dependants ∧
          x.addressProducers = y.addressProducers) : Directed b := by
  refine ⟨fun k x hx inRing q hq => ?_, fun k x hx inRing q hq => ?_, fun k x hx outside => ?_⟩
  · rcases before k x hx with ⟨none, -⟩ | ⟨y, hy, same, listed, -⟩
    · rw [none] at hq
      cases hq
    · rw [listed] at hq
      rw [same]
      exact h.younger k y hy (by omega) q hq
  · rcases before k x hx with ⟨-, none⟩ | ⟨y, hy, -, -, listed⟩
    · rw [none] at hq
      cases hq
    · rw [listed] at hq
      exact Nat.lt_of_lt_of_le (h.inside k y hy (by omega) q hq) last
  · rcases before k x hx with none | ⟨y, hy, -, consumers, producers⟩
    · exact none
    · rw [consumers, producers]
      exact h.untouched k y hy (by omega)

theorem Directed.enter {e' : Entry} {th : Thread} (h : Directed a) (order : InOrder config a)
    (tabled : Tabled a) (senior : Senior a) (unlinked : Unlinked a.pushed)
    (enters : Enters config a b e e' th) : Directed b := by
  have link := enters.linked
  have edge := enters.edge_eq
  have inRing : a.retired.length ≤ a.edge := Nat.le_add_right _ _
  obtain ⟨nobody, nothing⟩ := h.untouched _ e enters.next (Nat.le_refl _)
  -- elsewhere only older entries have got a consumer
  have listed : ∀ {k : Nat} {x : Entry}, b.entries[k]? = some x → a.retired.length ≤ k → k ≠ a.edge →
      ∃ y, a.entries[k]? = some y ∧ y.Listed e.seq x ∧ (e.seq ∈ x.dependants.toList → y.seq < e.seq) := by
    intro k x hx left hne
    obtain ⟨y, hy, grown⟩ := enters.entry_elsewhere hx hne
    refine ⟨y, hy, grown, fun mem => ?_⟩
    obtain ⟨i, rfl⟩ := Nat.exists_eq_add_of_le left
    have at_y := hy
    rw [entries_add] at at_y
    have elsewhere : i ≠ a.thread.inWindow := fun same => hne (by rw [same]; rfl)
    rw [enters.ring i elsewhere] at hx
    rcases link.others i y x at_y hx mem with old | seeks
    · exact h.younger _ y hy left _ old
    · exact (senior.lt_of_seeks order tabled enters.next seeks).resolve_right (not_stray unlinked _)
  refine ⟨fun k x hx left q hq => ?_, fun k x hx left q hq => ?_, fun k x hx outside => ?_⟩
  · rw [enters.retired] at left
    rcases enters.entry_before hx with ⟨rfl, rfl⟩ | ⟨hne, -⟩
    · have same : e'.dependants = e.dependants := link.dependants_eq
      have mem : q ∈ e'.dependants.toList := hq
      rw [same, nobody] at mem
      cases mem
    · obtain ⟨y, hy, grown, lt⟩ := listed hx left hne
      rw [grown.seq_eq]
      rcases grown.fewer q hq with old | rfl
      · exact h.younger k y hy left q old
      · exact lt hq
  · rw [enters.retired] at left
    rw [enters.base, enters.inWindow]
    rcases enters.entry_before hx with ⟨rfl, rfl⟩ | ⟨hne, -⟩
    · have mem : q ∈ e'.addressProducers.toList := hq
      rcases link.addresses q mem with own | ⟨r, live⟩
      · have none : q ∈ e.addressProducers.toList := own
        rw [nothing] at none
        cases none
      · have present : a.thread.ring.toList[a.thread.inWindow]? = some e := by
          rw [← entries_add]
          exact enters.next
        rw [order.oldestSeq_eq present] at live
        have := tabled.writers_lt r q live
        omega
    · obtain ⟨y, hy, grown, -⟩ := listed hx left hne
      have same : x.addressProducers = y.addressProducers := by rw [grown.frame]
      rw [same] at hq
      have := h.inside k y hy left q hq
      omega
  · obtain ⟨y, hy, grown, lt⟩ := listed hx (by omega) (by omega)
    obtain ⟨nobody', nothing'⟩ := h.untouched k y hy (by omega)
    have same : x.addressProducers = y.addressProducers := by rw [grown.frame]
    refine ⟨?_, same ▸ nothing'⟩
    rw [List.eq_nil_iff_forall_not_mem]
    intro q hq
    rcases grown.fewer q hq with old | rfl
    · rw [nobody'] at old
      cases old
    · have behind := order.seq_lt_seq enters.next hy (by omega)
      have := lt hq
      omega

theorem Directed.step (h : Directed a) (order : InOrder config a) (tabled : Tabled a) (senior : Senior a)
    (unlinked : Unlinked a.pushed) (step : Step config a b) : Directed b := by
  -- only an entry that enters names producers and consumers anew; every other step keeps them or clears them
  cases step with
  | work work =>
    cases moves_of_work work with
    | quiet same entries =>
      refine h.of_same (le_of_eq (congrArg _ same.retired.symm)) same.edge_eq ?_ fun k x hx => ?_
      · rw [same.base, same.inWindow]
      · obtain ⟨y, hy, point⟩ := entries.right hx
        exact .inr ⟨y, hy, by rw [point]; rfl, by rw [point], by rw [point]⟩
    | enter enters => exact h.enter order tabled senior unlinked enters
    | @issue k e done issues =>
      have same := issues.same
      refine h.of_same (le_of_eq (congrArg _ same.retired.symm)) same.edge_eq ?_ fun k x hx => ?_
      · rw [same.base, same.inWindow]
      · rcases issues.entry_before hx with ⟨rfl, woken⟩ | ⟨-, y, hy, woken⟩
        · exact .inr ⟨e, issues.entry, woken.seq_eq, by rw [woken.frame], by rw [woken.frame]⟩
        · exact .inr ⟨y, hy, woken.seq_eq, by rw [woken.frame], by rw [woken.frame]⟩
  | push same pushed =>
    have takes := takes_of_enqueue order same pushed
    refine h.of_same (le_of_eq (congrArg _ takes.retired.symm)) takes.edge_eq ?_ fun k x hx => ?_
    · rw [takes.base, takes.inWindow]
    · rcases takes.entry_before hx with ⟨-, rfl⟩ | hx
      · exact .inl ⟨rfl, rfl⟩
      · exact .inr ⟨x, hx, rfl, rfl, rfl⟩
  | @retire e oldest done stays =>
    refine h.of_same ?_ (edge_release oldest) ?_ fun k x hx => ?_
    · rw [length_release]
      exact Nat.le_succ _
    · have base := order.base_release oldest
      obtain ⟨inside, -⟩ := Thread.oldest?_eq_some oldest
      have inWindow : (a.release config e).thread.inWindow = a.thread.inWindow - 1 := rfl
      omega
    · rw [entries_release config oldest] at hx
      exact .inr ⟨x, hx, rfl, rfl, rfl⟩
  | @flush e th oldest done flushes flushed =>
    have restarts := restarts_of_flush (a := a.release config e) flushed
    have none : ∀ (k : Nat) (x : Entry), ((a.release config e).withThread th).entries[k]? = some x →
        (a.release config e).retired.length ≤ k →
          x.dependants.toList = [] ∧ x.addressProducers.toList = [] := by
      intro k x hx left
      rcases restarts.entry_before hx with ⟨gone, -⟩ | ⟨-, y, seq, -, rfl⟩
      · omega
      · exact ⟨rfl, rfl⟩
    refine ⟨fun k x hx left q hq => ?_, fun k x hx left q hq => ?_, fun k x hx outside => none k x hx ?_⟩
    · rw [(none k x hx left).1] at hq
      cases hq
    · rw [(none k x hx left).2] at hq
      cases hq
    · rw [restarts.edge_eq] at outside
      exact outside
  | tick period later => exact ⟨h.younger, h.inside, h.untouched⟩

theorem Reachable.directed (h : Reachable config a) (unlinked : Unlinked a.pushed) : Directed a := by
  induction h with
  | new made =>
    refine ⟨fun k e he => ?_, fun k e he => ?_, fun k e he => ?_⟩
    all_goals
      rw [entries_new made] at he
      cases he
  | step reached step ih =>
    have before := step.unlinked unlinked
    exact (ih before).step reached.inOrder reached.tabled reached.senior before step

end Account

/-! ## Section 2: Numbers in the ring -/

namespace Thread

variable {th th' : Thread} {q : Nat}

/-- An entry of the ring carries the number `q`, and is found by it. -/
def Holds (th : Thread) (q : Nat) : Prop := ∃ (i : Nat) (e : Entry), th.locate q = .ok (i, e)

/-- Whether a number is found depends on the numbers in the ring only. -/
theorem holds_iff : th.Holds q ↔ ∃ front, (th.ring.toList.map Entry.seq)[0]? = some front ∧ front ≤ q ∧
    (th.ring.toList.map Entry.seq)[q - front]? = some q := by
  unfold Holds locate frontSeq? Ring.front?
  rw [← Ring.getElem?_toList, List.getElem?_map]
  cases first : th.ring.toList[0]? with
  | none =>
    have empty : th.ring.get? 0 = none := by rw [← Ring.getElem?_toList, first]
    simp [empty]
  | some e =>
    have at_i : ∀ i, th.ring.get? i = th.ring.toList[i]? := fun i => (Ring.getElem?_toList _ i).symm
    simp only [Option.map_some, Option.getD_some, Option.some.injEq, exists_eq_left', at_i, List.getElem?_map]
    by_cases before : q < e.seq
    · simp [before]
    · cases here : th.ring.toList[q - e.seq]? with
      | none => simp [before]
      | some x =>
        by_cases same : x.seq = q
        · simp [before, same, not_lt.mp before]
        · simp [before, same]

/-- Entries that stay in place and keep their numbers are still found. -/
theorem Holds.pointwise {R : Entry → Entry → Prop} (h : th.Holds q)
    (related : Pointwise R th.ring.toList th'.ring.toList) (seq_eq : ∀ e e', R e e' → e'.seq = e.seq) :
    th'.Holds q := by
  rw [holds_iff] at h ⊢
  rwa [related.map_eq seq_eq]

theorem Holds.setEntry {i : Nat} {e e' : Entry} (h : th.Holds q) (entry : th.ring.toList[i]? = some e)
    (same : e'.seq = e.seq) : (th.setEntry i e').Holds q := by
  refine h.pointwise (R := fun x y => y.seq = x.seq) ?_ fun _ _ same => same
  rw [toList_setEntry]
  exact .set (fun _ => rfl) entry same

end Thread

theorem Account.InOrder.holds {config : Config} {a : Account} {q : Nat} (h : a.InOrder config)
    (from_base : a.thread.base ≤ q) (inside : q < a.thread.base + a.thread.ring.length) : a.thread.Holds q := by
  have numbered : ∀ i, i < a.thread.ring.length →
      (a.thread.ring.toList.map Entry.seq)[i]? = some (a.thread.base + i) := by
    intro i hi
    rw [← Ring.length_toList] at hi
    rw [List.getElem?_map, List.getElem?_eq_getElem hi, Option.map_some,
      h.numbered i _ (List.getElem?_eq_getElem hi)]
  rw [Thread.holds_iff]
  refine ⟨a.thread.base, numbered 0 (by omega), from_base, ?_⟩
  rw [numbered _ (by omega), Nat.add_sub_cancel' from_base]

/-! ## Section 3: What accounts look up -/

namespace Thread

variable {config : Config} {clock : Clock} {th : Thread} {e : Entry} {q i : Nat}

/-- Numbers count from that of the oldest entry. -/
theorem Accounted.oldestSeq_eq (h : th.Accounted config clock) (entry : th.ring.toList[i]? = some e)
    (x : Entry) : th.oldestSeq x = th.base := by
  obtain ⟨pushed, retired, reached, -⟩ := h
  exact reached.inOrder.oldestSeq_eq (a := { clock, thread := th, pushed, retired }) entry x

/-- The writers on record are there. -/
theorem Accounted.holds_writer {r : Register} (h : th.Accounted config clock)
    (live : th.registers.live? r th.base = some q) : th.Holds q := by
  obtain ⟨pushed, retired, reached, -⟩ := h
  have inside := reached.tabled.writers_lt r q live
  have bound := reached.inOrder.inWindow_le
  unfold RegisterTable.live? at live
  rw [Option.filter_eq_some_iff, decide_eq_true_iff] at live
  exact reached.inOrder.holds live.2 (by dsimp only at *; omega)

/-- The consumers of an entry are there. -/
theorem Accounted.holds_consumer (h : th.Accounted config clock) (entry : th.ring.toList[i]? = some e)
    (mem : q ∈ e.dependants.toList) : th.Holds q := by
  obtain ⟨pushed, retired, reached, unlinked⟩ := h
  have bound := reached.inOrder.inWindow_le
  have seq := reached.inOrder.numbered i e entry
  rw [← Account.entries_add (a := { clock, thread := th, pushed, retired })] at entry
  have younger := (reached.directed unlinked).younger _ e entry (Nat.le_add_right _ _) q mem
  have inside := reached.timed.consumers _ e entry (Nat.le_add_right _ _) q mem
  exact reached.inOrder.holds (by dsimp only at *; omega) (by dsimp only at *; omega)

/-- The producers of an address are there, unless they have left. -/
theorem Accounted.holds_address (h : th.Accounted config clock) (entry : th.ring.toList[i]? = some e)
    (mem : q ∈ e.addressProducers.toList) (present : th.base ≤ q) : th.Holds q := by
  obtain ⟨pushed, retired, reached, unlinked⟩ := h
  have bound := reached.inOrder.inWindow_le
  rw [← Account.entries_add (a := { clock, thread := th, pushed, retired })] at entry
  have inside := (reached.directed unlinked).inside _ e entry (Nat.le_add_right _ _) q mem
  exact reached.inOrder.holds present (by dsimp only at *; omega)

/-- What the next entry looks for is there, unless it has left. -/
theorem Accounted.holds_sought (h : th.Accounted config clock) (next : th.ring.get? th.inWindow = some e)
    (seeks : th.Seeks e.fetched q) (present : th.base ≤ q) : th.Holds q := by
  obtain ⟨pushed, retired, reached, unlinked⟩ := h
  rw [← Ring.getElem?_toList] at next
  have inside := (List.getElem?_eq_some_iff.mp next).1
  rw [Ring.length_toList] at inside
  have seq := reached.inOrder.numbered _ e next
  rw [← Account.entries_add (a := { clock, thread := th, pushed, retired })] at next
  have older := (reached.senior.lt_of_seeks reached.inOrder reached.tabled next seeks).resolve_right
    (Account.not_stray unlinked _)
  exact reached.inOrder.holds present (by dsimp only at *; omega)

end Thread

end CoreTiming
