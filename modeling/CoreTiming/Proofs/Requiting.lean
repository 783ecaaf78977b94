import CoreTiming.Proofs.Locating

/-!
# Producers and consumers that know of each other

An entry that enters the window is listed by each producer that it waits for, and by nobody else; when a producer
issues, each entry that it lists forgets it.  So at any time the two lists mirror each other: an entry lists a
producer that has not issued exactly if the producer lists the entry, and it does so once (`Account.Requited`).
`Account.Attuned` has the direction from consumers to producers; this module adds the way back.
-/

namespace CoreTiming

open Faulting

/-! ## Section 1: Listing a consumer once -/

namespace Thread

variable {th th' : Thread} {lowest : Nat} {e e' : Entry} {seqs : List Nat}

/-- `p'` is the entry `p` after `consumer`, the number of `e'`, may have been put on its list. -/
inductive Requites (consumer : Nat) (e' p p' : Entry) : Prop
  /-- Nothing has been added. -/
  | same (list : p'.dependants.toList = p.dependants.toList)
  /-- It has not issued, and the consumer has been added because it waits for it. -/
  | added (list : p'.dependants.toList = p.dependants.toList ++ [consumer]) (waiting : p.done = .never)
    (listed : p.seq ∈ e'.u.producers.toList)

/-- Producers that are not looked at stay listed. -/
theorem keeps_watch {nearest nearest' : Option Nat} {q : Nat}
    (h : watch lowest seqs e nearest th = .ok (e', nearest') th') (mem : q ∈ e.u.producers.toList)
    (aside : q ∉ seqs) : q ∈ e'.u.producers.toList := by
  induction seqs generalizing e nearest th with
  | nil =>
    obtain ⟨same, -⟩ := pure_eq_ok.mp h
    cases same
    exact mem
  | cons seq rest ih =>
    rw [List.mem_cons, not_or] at aside
    have stays : q ∈ e.u.producers.toList.erase seq := (List.mem_erase_of_ne aside.1).mpr mem
    unfold watch at h
    split at h
    · exact ih h stays aside.2
    · simp only [get_bind, bind_eq_ok, ofExcept_eq_ok] at h
      obtain ⟨⟨i, p⟩, _, ⟨-, rfl⟩, h⟩ := h
      dsimp only at h
      split at h
      · exact ih h stays aside.2
      · simp only [bind_eq_ok, ofExcept_eq_ok, modify_bind] at h
        obtain ⟨p₁, _, ⟨-, rfl⟩, h⟩ := h
        exact ih h mem aside.2

/-- Each producer that is looked at gets the entry on its list once, if at all, and then the entry waits for it. -/
theorem requites_watch {nearest nearest' : Option Nat} {i : Nat} {p p' : Entry}
    (h : watch lowest seqs e nearest th = .ok (e', nearest') th') (distinct : seqs.Nodup)
    (listed : ∀ q ∈ seqs, q ∈ e.u.producers.toList) (before : th.ring.toList[i]? = some p)
    (after : th'.ring.toList[i]? = some p') :
    Requites e.seq e' p p' ∧ (p.seq ∉ seqs → p'.dependants.toList = p.dependants.toList) := by
  induction seqs generalizing e nearest th p with
  | nil =>
    obtain ⟨-, rfl⟩ := pure_eq_ok.mp h
    cases before.symm.trans after
    exact ⟨.same rfl, fun _ => rfl⟩
  | cons seq rest ih =>
    rw [List.nodup_cons] at distinct
    -- the others stay listed when this one is given up
    have others : ∀ q ∈ rest, q ∈ e.u.producers.toList.erase seq := by
      intro q mem
      have other : q ≠ seq := by
        rintro rfl
        exact distinct.1 mem
      exact (List.mem_erase_of_ne other).mpr (listed q (List.mem_cons_of_mem seq mem))
    unfold watch at h
    split at h
    · have rest := ih h distinct.2 others before
      exact ⟨rest.1, fun aside => rest.2 fun mem => aside (List.mem_cons_of_mem seq mem)⟩
    · simp only [get_bind, bind_eq_ok, ofExcept_eq_ok] at h
      obtain ⟨⟨j, x⟩, _, ⟨located, rfl⟩, h⟩ := h
      obtain ⟨at_j, number⟩ := locate_eq_ok located
      dsimp only at h
      split at h
      · have rest := ih h distinct.2 others before
        exact ⟨rest.1, fun aside => rest.2 fun mem => aside (List.mem_cons_of_mem seq mem)⟩
      · rename_i undone
        simp only [bind_eq_ok, ofExcept_eq_ok, modify_bind] at h
        obtain ⟨x₁, _, ⟨added, rfl⟩, h⟩ := h
        have number₁ : x₁.seq = seq := (Entry.listed_addDependant added).1.seq_eq.trans number
        have later : ∀ q ∈ rest, q ∈ e.u.producers.toList := fun q mem => listed q (List.mem_cons_of_mem seq mem)
        by_cases here : j = i
        · -- it is this one, and none of the others
          subst here
          cases at_j.symm.trans before
          have at_j' : (th.setEntry j x₁).ring.toList[j]? = some x₁ := by
            rw [toList_setEntry]
            exact List.getElem?_set_self (List.getElem?_eq_some_iff.mp at_j).1
          have alone := (ih h distinct.2 later at_j').2 (number₁ ▸ distinct.1)
          refine ⟨.added ?_ ?_ ?_, fun aside => absurd (number ▸ List.mem_cons_self) aside⟩
          · rw [alone]
            obtain ⟨dependants, pushed, made⟩ := Except.bind_eq_ok.mp added
            cases made
            exact BoundedList.toList_push pushed
          · exact Entry.isDone_eq_false_iff.mp (Bool.eq_false_iff.mpr undone)
          · rw [number]
            exact keeps_watch h (listed seq List.mem_cons_self) distinct.1
        · have at_i : (th.setEntry j x₁).ring.toList[i]? = some p := by
            rw [toList_setEntry, List.getElem?_set_ne here]
            exact before
          have rest := ih h distinct.2 later at_i
          exact ⟨rest.1, fun aside => rest.2 fun mem => aside (List.mem_cons_of_mem seq mem)⟩

/-- Linking asks the tables first, then has the entry listed by the producers that it has come to wait for. -/
theorem link_parts {forwarding : Bool} (h : link forwarding e th = .ok e' th')
    (unlisted : e.u.producers.toList.Nodup) :
    ∃ (u u' : OpInstance) (stores : StoreTable) (x y : Entry) (nearest : Option Nat) (mid : Thread),
      th.stores.link u (th.oldestSeq e) = .ok (u', stores) ∧ x.u.producers.toList.Nodup ∧ x.seq = e.seq ∧
      watch (th.oldestSeq e) x.u.producers.toList x none
        { th with registers := th.registers.note (th.oldestSeq e) u', stores } = .ok (y, nearest) mid ∧
      e'.u.producers = y.u.producers ∧ th'.ring = mid.ring ∧ th'.stores = mid.stores := by
  unfold link at h
  simp only [get_bind, bind_eq_ok, ofExcept_eq_ok, modify_bind, zoom_eq_ok, pure_eq_ok] at h
  obtain ⟨e₁, _, ⟨addressed, rfl⟩, u₁, _, ⟨awaited, rfl⟩, ⟨u₂, stores⟩, _, ⟨stored, rfl⟩, e₃, _,
    ⟨forwarded, rfl⟩, ⟨e₄, nearest⟩, th₄, watched, ⟨⟩, _, ⟨stats, -, rfl⟩, rfl, rfl⟩ := h
  have address := addressed_eq addressed
  have u_eq : e₁.u = e.u := by rw [address]
  have added := awaits_tables u_eq awaited stored
  dsimp only at forwarded watched
  have forwards : th.Forwards u₂.producers.toList { e₁ with u := u₂ } e₃ := by
    split at forwarded
    · exact forwards_forward forwarded
    · cases forwarded
      exact .refl _ _ _
  refine ⟨u₁, u₂, stores, e₃, e₄, nearest, th₄, stored, forwards.nodup (added.nodup unlisted), ?_, watched, ?_, rfl, rfl⟩
  · rw [forwards.frame]
    show u₂.seq = e.u.seq
    rw [added.seq_eq]
  · unfold Entry.settle
    split <;> rfl

/-- What linking does to the lists of consumers. -/
theorem requites_link {forwarding : Bool} {i : Nat} {p p' : Entry} (h : link forwarding e th = .ok e' th')
    (unlisted : e.u.producers.toList.Nodup) (before : th.ring.toList[i]? = some p)
    (after : th'.ring.toList[i]? = some p') : Requites e.seq e' p p' := by
  obtain ⟨u, u', stores, x, y, nearest, mid, -, distinct, seq, watched, producers, ring, -⟩ := link_parts h unlisted
  rw [ring] at after
  cases (requites_watch watched distinct (fun q mem => mem) before after).1 with
  | same list => exact .same list
  | added list waiting listed =>
    rw [seq] at list
    rw [← producers] at listed
    exact .added list waiting listed

end Thread

namespace Account

variable {config : Config} {a b : Account} {e : Entry} {k : Nat}

/-! ## Section 2: The invariant -/

/-- What an entry lists as a consumer lists the entry. -/
structure Requited (a : Account) : Prop where
  /-- No consumer is listed twice. -/
  once : ∀ (k : Nat) (e : Entry), a.entries[k]? = some e → a.retired.length ≤ k → e.dependants.toList.Nodup
  /-- What an entry that has not issued is to wake is in the window, and waits for it. -/
  answered : ∀ (j : Nat) (p : Entry), a.entries[j]? = some p → a.retired.length ≤ j → p.issued = .never →
    ∀ d ∈ p.dependants.toList, ∃ (k : Nat) (e : Entry), a.entries[k]? = some e ∧ k < a.edge ∧ e.seq = d ∧
      p.seq ∈ e.u.producers.toList
  /-- What has issued waits for nothing. -/
  free : ∀ (k : Nat) (e : Entry), a.entries[k]? = some e → a.retired.length ≤ k → k < a.edge →
    e.issued ≠ .never → e.u.producers.toList = []

/-- Steps on which nothing enters or issues leave the lists as they are, or clear them. -/
theorem Requited.persist (h : Requited a) (persists : Persists a b) (attuned : Attuned b) : Requited b := by
  have left := persists.left
  have edge := persists.edge
  have before : ∀ {k : Nat} {x : Entry}, b.entries[k]? = some x → k < b.edge →
      ∃ y, a.entries[k]? = some y ∧ y.SamePoint x := by
    intro k x hx within
    obtain ⟨y, hy, point, -⟩ := rel_right (persists.kept k within) hx
    exact ⟨y, hy, point⟩
  refine ⟨fun k x hx inRing => ?_, fun j p hp inRing waiting d mem => ?_, fun k x hx inRing within issued => ?_⟩
  · by_cases within : k < b.edge
    · obtain ⟨y, hy, point⟩ := before hx within
      rw [point]
      exact h.once k y hy (by omega)
    · rw [(attuned.untouched k x hx (by omega)).1]
      exact List.nodup_nil
  · by_cases within : j < b.edge
    · obtain ⟨q, hq, point⟩ := before hp within
      rw [point] at waiting mem
      obtain ⟨k, e, he, inside, seq, listed⟩ := h.answered j q hq (by omega) waiting d mem
      -- the window is as it was, for it is not empty
      have same : b.edge = a.edge := by
        rcases persists.fence with ⟨same, -⟩ | empty
        · exact same
        · omega
      obtain ⟨e', he', point', -⟩ := rel_left (persists.kept k (by omega)) he
      refine ⟨k, e', he', by omega, ?_, ?_⟩
      · rw [point']
        exact seq
      · rw [point, point']
        exact listed
    · rw [(attuned.untouched j p hp (by omega)).1] at mem
      cases mem
  · obtain ⟨y, hy, point⟩ := before hx within
    rw [point] at issued ⊢
    exact h.free k y hy (by omega) (by omega) issued

section Enter

variable {e' : Entry} {th : Thread} (h : Requited a) (order : InOrder config a) (timed : Timed a)
  (attuned : Attuned a) (enters : Enters config a b e e' th)
  (linked : Thread.link config.window.forwarding e.fetched a.thread = .ok e' th)

include enters linked in
/-- What has become of the list of an entry when another one has entered the window. -/
theorem Enters.requites {x : Entry} (unlisted : e.fetched.u.producers.toList.Nodup) (hx : b.entries[k]? = some x)
    (inRing : a.retired.length ≤ k) (hne : k ≠ a.edge) :
    ∃ y, a.entries[k]? = some y ∧ y.Listed e.seq x ∧ Thread.Requites e.seq e' y x := by
  obtain ⟨y, hy, grown⟩ := enters.entry_elsewhere hx hne
  refine ⟨y, hy, grown, ?_⟩
  obtain ⟨i, rfl⟩ := Nat.exists_eq_add_of_le inRing
  rw [entries_add] at hy
  rw [enters.ring i fun same => hne (by rw [same]; rfl)] at hx
  exact Thread.requites_link (e := e.fetched) linked unlisted hy hx

include h order timed attuned enters linked in
/-- An entry that enters the window and its producers come to list each other. -/
theorem Requited.enter (unlisted : e.fetched.u.producers.toList.Nodup) : Requited b := by
  have edge := enters.edge_eq
  have left : a.retired.length ≤ a.edge := Nat.le_add_right _ _
  have seq := order.seq_edge enters.next
  have nobody : e'.dependants.toList = [] := by
    rw [enters.linked.dependants_eq]
    exact (attuned.untouched _ e enters.next (Nat.le_refl _)).1
  refine ⟨fun k x hx inRing => ?_, fun j p hp inRing waiting d mem => ?_, fun k x hx inRing within started => ?_⟩
  · rw [enters.retired] at inRing
    rcases enters.entry_before hx with ⟨rfl, rfl⟩ | ⟨hne, -⟩
    · show e'.dependants.toList.Nodup
      rw [nobody]
      exact List.nodup_nil
    · obtain ⟨y, hy, -, requites⟩ := enters.requites linked unlisted hx inRing hne
      have old := h.once k y hy inRing
      cases requites with
      | same list => rwa [list]
      | added list =>
        -- so far no consumer was as young as the entry
        rw [list, List.nodup_append]
        refine ⟨old, List.nodup_singleton _, fun q mem r single same => ?_⟩
        have := timed.consumers k y hy inRing q mem
        rw [List.mem_singleton.mp single] at same
        omega
  · rw [enters.retired] at inRing
    rcases enters.entry_before hp with ⟨rfl, rfl⟩ | ⟨hne, -⟩
    · have mem : d ∈ e'.dependants.toList := mem
      rw [nobody] at mem
      cases mem
    · obtain ⟨y, hy, grown, requites⟩ := enters.requites linked unlisted hp inRing hne
      rw [grown.seq_eq]
      rw [grown.frame] at waiting
      have old : d ∈ y.dependants.toList → ∃ (k : Nat) (e : Entry), b.entries[k]? = some e ∧ k < b.edge ∧
          e.seq = d ∧ y.seq ∈ e.u.producers.toList := by
        intro listed
        obtain ⟨k, z, hz, inside, seq, lists⟩ := h.answered j y hy inRing waiting d listed
        obtain ⟨z', hz', grown'⟩ := rel_left (enters.others k (by omega)) hz
        refine ⟨k, z', hz', by omega, grown'.seq_eq.trans seq, ?_⟩
        rw [grown'.frame]
        exact lists
      cases requites with
      | same list =>
        rw [list] at mem
        exact old mem
      | added list _ lists =>
        rw [list] at mem
        rcases List.mem_append.mp mem with listed | new
        · exact old listed
        · refine ⟨a.edge, _, enters.entered, by omega, ?_, lists⟩
          rw [List.mem_singleton.mp new]
          exact enters.linked.seq_eq
  · rw [enters.retired] at inRing
    rcases enters.entry_before hx with ⟨rfl, rfl⟩ | ⟨hne, y, hy, grown⟩
    · exact absurd (enters.not_issued timed hx (Nat.le_refl _)).1 started
    · rw [grown.frame] at started ⊢
      exact h.free k y hy inRing (by omega) started

end Enter

/-- An entry that issues is forgotten by those that it lists, and by nobody else. -/
theorem Requited.issue {done : Time} {i : Nat} (h : Requited a) (order : InOrder config a) (timed : Timed a)
    (intime : b.clock.now ≠ .never) (issues : Issues a b i e done) : Requited b := by
  have edge := issues.same.edge_eq
  have left : b.retired.length = a.retired.length := by rw [issues.same.retired]
  have now : a.clock.now ≠ .never := issues.same.clock ▸ intime
  refine ⟨fun k x hx inRing => ?_, fun j p hp inRing waiting d mem => ?_, fun k x hx inRing within issued => ?_⟩
  · obtain ⟨y, y', hy, woken, -, dependants, -⟩ := issues.exists_woken hx
    rw [woken.frame]
    show y'.dependants.toList.Nodup
    rw [dependants]
    exact h.once k y hy (by omega)
  · obtain ⟨y, y', hy, woken, -, -, -, -, -, others, itself⟩ := issues.exists_woken hp
    rw [woken.frame] at waiting mem
    have other : j ≠ i := by
      intro same
      rw [(itself same).2] at waiting
      exact now waiting
    rw [others other] at waiting mem woken
    obtain ⟨k, z, hz, inside, seq, listed⟩ := h.answered j y hy (by omega) waiting d mem
    -- what waits for it hears of the other producer only
    have distinct : y.seq ≠ e.seq := fun same => other (order.position_unique hy issues.entry same)
    rw [woken.seq_eq]
    by_cases same : k = i
    · subst same
      rw [issues.entry] at hz
      cases hz
      obtain ⟨x, hx, woken'⟩ := issues.exists_issued
      exact ⟨k, x, hx, by omega, woken'.seq_eq.trans seq, woken'.keeps _ listed distinct⟩
    · obtain ⟨x, hx, woken'⟩ := issues.exists_other same hz
      exact ⟨k, x, hx, by omega, woken'.seq_eq.trans seq, woken'.keeps _ listed distinct⟩
  · obtain ⟨y, y', hy, woken, u, -, -, -, -, others, itself⟩ := issues.exists_woken hx
    have none : y.u.producers.toList = [] := by
      by_cases same : k = i
      · -- it could not have been ready otherwise
        obtain ⟨rfl, -⟩ := itself same
        by_contra some
        have ready := issues.ready
        rw [(timed.timely k y hy (by omega)).ready_eq some, Time.never_le_iff] at ready
        exact now ready
      · rw [woken.frame, others same] at issued
        exact h.free k y hy (by omega) (by omega) issued
    rw [List.eq_nil_iff_forall_not_mem]
    intro q mem
    have mem := woken.fewer q mem
    rw [u, none] at mem
    cases mem

theorem Requited.step (h : Requited a) (reached : Reachable config a) (step : Step config a b)
    (unlinked : Unlinked b.pushed) (intime : b.clock.now ≠ .never) : Requited b := by
  have reached' : Reachable config b := .step reached step
  have attuned' := reached'.attuned unlinked intime
  have order := reached.inOrder
  have persists : Persists a b → Requited b := fun persists => h.persist persists attuned'
  have before : a.clock.now ≠ .never := Time.ne_never_of_le (order.proceeds step).later intime
  have unlinked' := step.unlinked unlinked
  cases step with
  | work work =>
    cases work with
    | keep same => exact persists (persists_quiet (quiet_of_sameFlow same))
    | fetch next => exact persists (persists_quiet (quiet_fetch next))
    | resolve inside entry waiting resolved => exact persists (persists_quiet (quiet_resolve entry waiting resolved))
    | @dispatch th e e' next linked =>
      have enters := enters_of_dispatch next linked
      have unlisted := enters.unlisted reached.senior unlinked'
      exact h.enter order reached.timed (reached.attuned unlinked' before) enters linked unlisted
    | issue inside entry waiting ready started =>
      exact h.issue order reached.timed intime (issues_of_start inside entry waiting ready started)
  | push same pushed => exact persists (persists_take order (takes_of_enqueue order same pushed) rfl)
  | retire oldest done stays => exact persists (persists_release oldest)
  | flush oldest done flushes flushed => exact persists (persists_restart oldest (restarts_of_flush flushed))
  | tick period later => exact persists (persists_tick period later)

end Account

end CoreTiming
