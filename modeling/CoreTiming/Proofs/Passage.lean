import CoreTiming.Proofs.Positions

/-!
# The passage of an entry through the window

An entry enters the window, waits for its producers, issues, and leaves once its result is available.
`Account.Timed` says in which order this happens: what has left was done, what is in the window is
held back by its producers, what is buffered has not begun.
-/

namespace CoreTiming

/-- Linking leaves an entry that has not been ready held back by its producers. -/
theorem Thread.Linked.timely {forwarding : Bool} {th th' : Thread} {e e' : Entry}
    (h : th.Linked forwarding e th' e') (fresh : e.ready = .never) : e'.Timely := by
  refine ⟨?_, fun some => ?_⟩
  · rw [h.ready]
    split
    · exact le_refl _
    · rw [fresh]
      exact Time.le_never _
  · have waits : e'.u.producers.isEmpty = false := by
      simpa [BoundedList.isEmpty] using some
    rw [h.ready, waits]
    exact fresh

namespace Account

variable {config : Config} {a b : Account} {k : Nat} {e : Entry}

/-! ## Section 1: The invariant -/

/-- Times follow the passage of each entry. -/
structure Timed (a : Account) : Prop where
  /-- What has left was done. -/
  settled : ∀ r ∈ a.retired, r.entry.done ≤ a.clock.now
  /-- Results come after issue. -/
  issued_le : ∀ (k : Nat) (e : Entry), a.entries[k]? = some e → e.issued ≤ e.done
  /-- What is in the window has entered it. -/
  dispatched_le : ∀ (k : Nat) (e : Entry), a.entries[k]? = some e → k < a.edge → e.dispatched ≤ a.clock.now
  /-- What is in the window is held back by its producers. -/
  timely : ∀ (k : Nat) (e : Entry), a.entries[k]? = some e → k < a.edge → e.Timely
  /-- What is buffered has not begun. -/
  fresh : ∀ (k : Nat) (e : Entry), a.entries[k]? = some e → a.edge ≤ k → e.Fresh
  /-- Only what is in the window is listed as a consumer. -/
  consumers : ∀ (k : Nat) (e : Entry), a.entries[k]? = some e → a.retired.length ≤ k →
    ∀ q ∈ e.dependants.toList, q < a.thread.base + a.thread.inWindow

theorem timed_new {clock : Clock} {th : Thread} {predictor : Option Predictor} {windowSize : Nat}
    {loadHistogram : Bool} (made : Thread.new windowSize loadHistogram predictor = .ok th) :
    Timed { clock, thread := th } := by
  have none : ∀ k : Nat, ({ clock, thread := th } : Account).entries[k]? = none := by
    intro k
    obtain ⟨capacity, rfl⟩ := Thread.new_eq_ok made
    rfl
  refine ⟨fun r hr => ?_, ?_, ?_, ?_, ?_, ?_⟩
  · cases hr
  all_goals
    intro k e he
    rw [none] at he
    cases he

/-- What has left had a result. -/
theorem Timed.done_of_mem_retired {r : Retirement} (h : Timed a) (intime : a.clock.now ≠ .never)
    (mem : r ∈ a.retired) : r.entry.done ≠ .never :=
  Time.ne_never_of_le (h.settled r mem) intime

/-- What has a result has issued. -/
theorem Timed.issued_of_done (h : Timed a) (at_k : a.entries[k]? = some e) (done : e.done ≠ .never) :
    e.issued ≠ .never :=
  Time.ne_never_of_le (h.issued_le k e at_k) done

/-- What has left has issued. -/
theorem Timed.issued_of_left (h : Timed a) (intime : a.clock.now ≠ .never) (at_k : a.entries[k]? = some e)
    (left : k < a.retired.length) : e.issued ≠ .never := by
  obtain ⟨r, mem, rfl⟩ := mem_retired_of_lt left at_k
  exact h.issued_of_done at_k (h.done_of_mem_retired intime mem)

/-! ## Section 2: Work inside the thread -/

theorem Timed.quiet (h : Timed a) (same : a.SameBooks b)
    (entries : Pointwise Entry.SamePoint a.entries b.entries) : Timed b := by
  have edge := same.edge_eq
  refine ⟨?_, ?_, ?_, ?_, ?_, ?_⟩
  · rw [same.retired, same.clock]
    exact h.settled
  · intro k x hx
    obtain ⟨y, hy, point⟩ := entries.right hx
    rw [point]
    exact h.issued_le k y hy
  · intro k x hx inside
    obtain ⟨y, hy, point⟩ := entries.right hx
    rw [edge] at inside
    rw [point, same.clock]
    exact h.dispatched_le k y hy inside
  · intro k x hx inside
    obtain ⟨y, hy, point⟩ := entries.right hx
    rw [edge] at inside
    have timely := h.timely k y hy inside
    rw [point]
    exact ⟨timely.readyMax_le, timely.ready_eq⟩
  · intro k x hx outside
    obtain ⟨y, hy, point⟩ := entries.right hx
    rw [edge] at outside
    have fresh := h.fresh k y hy outside
    rw [point]
    exact ⟨fresh.ready, fresh.issued, fresh.done⟩
  · intro k x hx inRing
    obtain ⟨y, hy, point⟩ := entries.right hx
    rw [same.retired] at inRing
    rw [point, same.base, same.inWindow]
    exact h.consumers k y hy inRing

/-- What has just entered, and what is buffered behind it, has not issued. -/
theorem Enters.not_issued {e' x : Entry} {th : Thread} (enters : Enters config a b e e' th) (timed : Timed a)
    (hx : b.entries[k]? = some x) (outside : a.edge ≤ k) : x.issued = .never ∧ x.done = .never := by
  rcases enters.entry_before hx with ⟨rfl, rfl⟩ | ⟨-, y, hy, listed⟩
  · have fresh := timed.fresh _ e enters.next (Nat.le_refl _)
    exact ⟨enters.linked.issued_eq.trans fresh.issued, enters.linked.done_eq.trans fresh.done⟩
  · have fresh := timed.fresh k y hy outside
    rw [listed.frame]
    exact ⟨fresh.issued, fresh.done⟩

theorem Timed.enter {e' : Entry} {th : Thread} (h : Timed a) (order : InOrder config a)
    (enters : Enters config a b e e' th) : Timed b := by
  -- every entry is the one that enters, or has a consumer more at most
  have fresh := h.fresh _ e enters.next (Nat.le_refl _)
  have edge := enters.edge_eq
  refine ⟨?_, ?_, ?_, ?_, ?_, ?_⟩
  · rw [enters.retired, enters.clock]
    exact h.settled
  · intro k x hx
    rcases enters.entry_before hx with ⟨rfl, rfl⟩ | ⟨hne, y, hy, listed⟩
    · rw [(enters.not_issued h hx (Nat.le_refl _)).2]
      exact Time.le_never _
    · rw [listed.frame]
      exact h.issued_le k y hy
  · intro k x hx inside
    rw [enters.clock]
    rcases enters.entry_before hx with ⟨rfl, rfl⟩ | ⟨hne, y, hy, listed⟩
    · exact le_refl _
    · rw [listed.frame]
      exact h.dispatched_le k y hy (by omega)
  · intro k x hx inside
    rcases enters.entry_before hx with ⟨rfl, rfl⟩ | ⟨hne, y, hy, listed⟩
    · have timely := enters.linked.timely fresh.ready
      refine ⟨le_trans timely.readyMax_le (le_max_left _ _), fun some => ?_⟩
      show max e'.ready a.clock.next = .never
      rw [timely.ready_eq some]
      exact max_eq_left (Time.le_never _)
    · have timely := h.timely k y hy (by omega)
      rw [listed.frame]
      exact ⟨timely.readyMax_le, timely.ready_eq⟩
  · intro k x hx outside
    obtain ⟨y, hy, listed⟩ := enters.entry_elsewhere hx (by omega)
    have fresh := h.fresh k y hy (by omega)
    rw [listed.frame]
    exact ⟨fresh.ready, fresh.issued, fresh.done⟩
  · intro k x hx inRing q hq
    rw [enters.retired] at inRing
    rw [enters.base, enters.inWindow]
    rcases enters.entry_before hx with ⟨rfl, rfl⟩ | ⟨hne, y, hy, listed⟩
    · have hq : q ∈ e'.dependants.toList := hq
      rw [enters.linked.dependants_eq] at hq
      have := h.consumers _ e enters.next (by unfold Account.edge; omega) q hq
      omega
    · rcases listed.fewer q hq with hq | rfl
      · have := h.consumers k y hy inRing q hq
        omega
      · have := order.seq_of_le (by unfold Account.edge; omega) enters.next
        unfold Account.edge at this
        omega

theorem Timed.issue {done : Time} {i : Nat} (h : Timed a) (order : InOrder config a)
    (issues : Issues a b i e done) : Timed b := by
  -- every entry is the one that issues, or has been woken at most
  have edge := issues.same.edge_eq
  refine ⟨?_, ?_, ?_, ?_, ?_, ?_⟩
  · rw [issues.same.retired, issues.same.clock]
    exact h.settled
  · intro k x hx
    rcases issues.entry_before hx with ⟨rfl, woken⟩ | ⟨hne, y, hy, woken⟩
    · rw [woken.frame]
      exact issues.later
    · rw [woken.frame]
      exact h.issued_le k y hy
  · intro k x hx inside
    rw [edge] at inside
    rw [issues.same.clock]
    rcases issues.entry_before hx with ⟨rfl, woken⟩ | ⟨hne, y, hy, woken⟩
    · rw [woken.frame]
      exact h.dispatched_le k e issues.entry inside
    · rw [woken.frame]
      exact h.dispatched_le k y hy inside
  · intro k x hx inside
    rw [edge] at inside
    rcases issues.entry_before hx with ⟨rfl, woken⟩ | ⟨hne, y, hy, woken⟩
    · have timely := h.timely k e issues.entry inside
      exact woken.timely ⟨timely.readyMax_le, timely.ready_eq⟩
    · exact woken.timely (h.timely k y hy inside)
  · intro k x hx outside
    rw [edge] at outside
    have inWindow := issues.inWindow
    rcases issues.entry_before hx with ⟨rfl, -⟩ | ⟨hne, y, hy, -⟩
    · omega
    · -- a buffered entry is nobody's consumer, so it sleeps on
      have asleep : y.seq ∉ e.dependants.toList := by
        intro listed
        have bound := h.consumers i e issues.entry issues.inRing y.seq listed
        unfold Account.edge at outside
        have := order.seq_of_le (by omega) hy
        omega
      have same := issues.others k y hne hy asleep
      rw [hx] at same
      cases same
      exact h.fresh k x hy outside
  · intro k x hx inRing
    rw [issues.same.retired] at inRing
    rw [issues.same.base, issues.same.inWindow]
    rcases issues.entry_before hx with ⟨rfl, woken⟩ | ⟨hne, y, hy, woken⟩
    · rw [woken.frame]
      exact h.consumers k e issues.entry inRing
    · rw [woken.frame]
      exact h.consumers k y hy inRing

/-! ## Section 3: Other steps -/

theorem Timed.take {u : OpInstance} (h : Timed a) (order : InOrder config a)
    (takes : Takes a b u e) : Timed b := by
  have edge := takes.edge_eq
  -- the new entry stands behind all others, so outside the window
  have inside := order.edge_le
  refine ⟨?_, ?_, ?_, ?_, ?_, ?_⟩
  · rw [takes.retired, takes.clock]
    exact h.settled
  · intro k x hx
    rcases takes.entry_before hx with ⟨rfl, rfl⟩ | hx
    · rw [takes.fresh.done]
      exact Time.le_never _
    · exact h.issued_le k x hx
  · intro k x hx within
    rw [takes.clock]
    rcases takes.entry_before hx with ⟨rfl, rfl⟩ | hx
    · omega
    · exact h.dispatched_le k x hx (by omega)
  · intro k x hx within
    rcases takes.entry_before hx with ⟨rfl, rfl⟩ | hx
    · omega
    · exact h.timely k x hx (by omega)
  · intro k x hx outside
    rcases takes.entry_before hx with ⟨rfl, rfl⟩ | hx
    · exact takes.fresh
    · exact h.fresh k x hx (by omega)
  · intro k x hx inRing q hq
    rw [takes.retired] at inRing
    rw [takes.base, takes.inWindow]
    rcases takes.entry_before hx with ⟨rfl, rfl⟩ | hx
    · rw [takes.dependants] at hq
      cases hq
    · exact h.consumers k x hx inRing q hq

theorem Timed.release (h : Timed a) (order : InOrder config a)
    (oldest : a.thread.oldest? = some e) (done : e.done ≤ a.clock.now) :
    Timed (a.release config e) := by
  have entries := entries_release config oldest
  have edge : (a.release config e).edge = a.edge := edge_release oldest
  have base := order.base_release oldest
  have left := length_release config a e
  refine ⟨?_, ?_, ?_, ?_, ?_, ?_⟩
  · intro r hr
    rcases List.mem_append.mp hr with hr | hr
    · exact h.settled r hr
    · rw [List.mem_singleton.mp hr]
      exact done
  · rw [entries]
    exact h.issued_le
  · rw [entries, edge]
    exact h.dispatched_le
  · rw [entries, edge]
    exact h.timely
  · rw [entries, edge]
    exact h.fresh
  · rw [entries]
    intro k x hx inRing q hq
    obtain ⟨inside, -⟩ := Thread.oldest?_eq_some oldest
    have := h.consumers k x hx (by omega) q hq
    have inWindow : (a.release config e).thread.inWindow = a.thread.inWindow - 1 := rfl
    omega

theorem Timed.restart (h : Timed a) (restarts : Restarts a b) : Timed b := by
  have edge := restarts.edge_eq
  have inWindow : a.retired.length ≤ a.edge := by
    unfold Account.edge
    omega
  refine ⟨?_, ?_, ?_, ?_, ?_, ?_⟩
  · rw [restarts.retired, restarts.clock]
    exact h.settled
  · intro k x hx
    rcases restarts.entry_before hx with ⟨-, hx⟩ | ⟨-, y, seq, -, rfl⟩
    · exact h.issued_le k x hx
    · exact le_refl _
  · intro k x hx inside
    rw [restarts.clock]
    rcases restarts.entry_before hx with ⟨-, hx⟩ | ⟨left, -⟩
    · exact h.dispatched_le k x hx (by omega)
    · omega
  · intro k x hx inside
    rcases restarts.entry_before hx with ⟨-, hx⟩ | ⟨left, -⟩
    · exact h.timely k x hx (by omega)
    · omega
  · intro k x hx outside
    rcases restarts.entry_before hx with ⟨left, -⟩ | ⟨-, y, seq, -, rfl⟩
    · omega
    · exact Entry.fresh_restart y seq
  · intro k x hx inRing q hq
    rw [restarts.retired] at inRing
    rcases restarts.entry_before hx with ⟨left, -⟩ | ⟨-, y, seq, -, rfl⟩
    · omega
    · cases hq

theorem Timed.tick {clock : Clock} (h : Timed a) (later : a.clock.now ≤ clock.now) :
    Timed { a with clock } :=
  ⟨fun r hr => le_trans (h.settled r hr) later, h.issued_le,
    fun k x hx inside => le_trans (h.dispatched_le k x hx inside) later, h.timely, h.fresh, h.consumers⟩

/-! ## Section 4: All steps -/

theorem Timed.step (h : Timed a) (order : InOrder config a) (step : Step config a b) : Timed b := by
  cases order.passes step with
  | moves moves =>
    cases moves with
    | quiet same entries => exact h.quiet same entries
    | enter enters => exact h.enter order enters
    | issue issues => exact h.issue order issues
  | takes takes => exact h.take order takes
  | releases oldest done result =>
    rw [result]
    exact h.release order oldest done
  | restarts oldest done restarts => exact (h.release order oldest done).restart restarts
  | ticks later result =>
    rw [result]
    exact h.tick later

theorem Reachable.timed (h : Reachable config a) : Timed a := by
  induction h with
  | new made => exact timed_new made
  | step reached step ih => exact ih.step reached.inOrder step

end Account

end CoreTiming
