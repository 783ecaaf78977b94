import CoreTiming.Machine.Calls
import CoreTiming.Proofs.Capacity

/-!
# Parts of a machine

An operation on one model or on one group of a machine is that operation on the part, put back in its place.  The
other parts stay as they are.
-/

namespace CoreTiming

open Faulting

namespace Machine

variable {M : Type} {m m' : Machine M} {i j master other : Nat}

/-! ## Section 1: Models -/

/-- The machine with another model numbered `i`. -/
def setModel (i : Nat) (model : Model M) (m : Machine M) : Machine M :=
  { m with models := m.models.setIfInBounds i model }

theorem getElem?_setModel_self {model old : Model M} (found : m.models[i]? = some old) :
    (m.setModel i model).models[i]? = some model :=
  Array.getElem?_setIfInBounds_self_of_lt (Array.getElem?_eq_some_iff.mp found).1

theorem getElem?_setModel_ne {model : Model M} (h : i ≠ j) :
    (m.setModel i model).models[j]? = m.models[j]? :=
  Array.getElem?_setIfInBounds_ne h

theorem setModel_setModel (model model' : Model M) :
    (m.setModel i model).setModel i model' = m.setModel i model' := by
  unfold setModel
  congr 1
  apply Array.ext_getElem?
  intro j
  by_cases here : i = j
  · subst here
    simp [Array.getElem?_setIfInBounds]
  · simp [here]

theorem model_of_found {model : Model M} (found : m.models[i]? = some model) : m.model i = .ok model := by
  unfold Machine.model
  rw [found]

variable {α : Type}

/-- An operation on a model that is there. -/
theorem onModel_of_found {model : Model M} (found : m.models[i]? = some model) (x : Faulting (Model M) α) :
    onModel i x m = match x model with
      | .ok a model' => .ok a (m.setModel i model')
      | .error f model' => .error f (m.setModel i model') := by
  obtain ⟨inside, rfl⟩ := Array.getElem?_eq_some_iff.mp found
  have part : m.models.getD i default = m.models[i] := by simp [inside]
  unfold onModel
  rw [get_bind, if_pos inside]
  unfold Faulting.zoom
  dsimp only
  rw [part]
  cases x m.models[i] with
  | ok a model' =>
    show EStateM.Result.ok a ((m.setModel i default).setModel i model') = _
    rw [setModel_setModel]
  | error f model' =>
    show EStateM.Result.error f ((m.setModel i default).setModel i model') = _
    rw [setModel_setModel]

theorem modifyState_of_found {model : Model M} (found : m.models[i]? = some model) (f : ModelState → ModelState) :
    modifyState i f m = .ok () (m.setModel i (model.modifyState f)) :=
  onModel_of_found found _

/-! ## Section 2: Groups -/

variable [MemorySystem M]

/-- The machine with another session of the group named after `master`. -/
def setSession (master : Nat) (s : Session (Window M)) (m : Machine M) : Machine M :=
  match m.findGroup? master with
  | some k => { m with groups := m.groups.modify k fun g => { g with session := s } }
  | none => m

omit [MemorySystem M] in
@[simp] theorem models_setSession (master : Nat) (s : Session (Window M)) (m : Machine M) :
    (m.setSession master s).models = m.models := by
  unfold setSession
  split
  · rfl
  · rfl

omit [MemorySystem M] in
theorem session?_eq_find? (m : Machine M) (master : Nat) :
    m.session? master = (m.groups.find? (·.master == master)).map (·.session) := by
  rw [Array.find?_eq_bind_findIdx?_getElem?]
  unfold session? findGroup?
  cases m.groups.findIdx? (·.master == master) with
  | none => rfl
  | some k =>
    show (do let g ← m.groups[k]?; pure g.session) = m.groups[k]?.map (·.session)
    cases m.groups[k]? <;> rfl

omit [MemorySystem M] in
/-- Groups are found by their names alone. -/
theorem findGroup?_congr (same : m'.groups.map (·.master) = m.groups.map (·.master)) (master : Nat) :
    m'.findGroup? master = m.findGroup? master := by
  have named : ∀ m : Machine M, m.findGroup? master = (m.groups.map (·.master)).findIdx? (· == master) := by
    intro m
    rw [Array.findIdx?_map]
    rfl
  rw [named, named, same]

omit [MemorySystem M] in
theorem map_master_setSession (master : Nat) (s : Session (Window M)) (m : Machine M) :
    (m.setSession master s).groups.map (·.master) = m.groups.map (·.master) := by
  unfold setSession
  split
  · apply Array.ext_getElem?
    intro k
    simp only [Array.getElem?_map, Array.getElem?_modify]
    split
    · rw [Option.map_map]
      rfl
    · rfl
  · rfl

omit [MemorySystem M] in
@[simp] theorem findGroup?_setSession (master other : Nat) (s : Session (Window M)) (m : Machine M) :
    (m.setSession master s).findGroup? other = m.findGroup? other :=
  findGroup?_congr (map_master_setSession master s m) other

omit [MemorySystem M] in
/-- The group that is found is there, and bears the name. -/
theorem exists_of_findGroup? {k : Nat} (found : m.findGroup? master = some k) :
    ∃ g, m.groups[k]? = some g ∧ g.master = master := by
  obtain ⟨inside, named, -⟩ := Array.findIdx?_eq_some_iff_getElem.mp found
  exact ⟨m.groups[k], Array.getElem?_eq_getElem inside, by simpa using named⟩

omit [MemorySystem M] in
theorem exists_of_session? {s : Session (Window M)} (h : m.session? master = some s) :
    ∃ k g, m.findGroup? master = some k ∧ m.groups[k]? = some g ∧ g.session = s := by
  unfold session? at h
  cases found : m.findGroup? master with
  | none =>
    rw [found] at h
    cases h
  | some k =>
    obtain ⟨g, at_k, -⟩ := exists_of_findGroup? found
    rw [found] at h
    simp only [Option.bind_eq_bind, Option.bind_some, at_k] at h
    exact ⟨k, g, rfl, at_k, Option.some.inj h⟩

omit [MemorySystem M] in
theorem session?_of_found {k : Nat} {g : Group M} (found : m.findGroup? master = some k)
    (at_k : m.groups[k]? = some g) : m.session? master = some g.session := by
  unfold session?
  simp [found, at_k]

omit [MemorySystem M] in
theorem session?_setSession_self {s s' : Session (Window M)} (h : m.session? master = some s) :
    (m.setSession master s').session? master = some s' := by
  obtain ⟨k, g, found, at_k, -⟩ := exists_of_session? h
  have there : (m.setSession master s').groups[k]? = some { g with session := s' } := by
    unfold setSession
    simp [found, Array.getElem?_modify, at_k]
  exact session?_of_found ((findGroup?_setSession ..).trans found) there

omit [MemorySystem M] in
theorem session?_setSession_ne {s' : Session (Window M)} (h : other ≠ master) :
    (m.setSession master s').session? other = m.session? other := by
  unfold session?
  rw [findGroup?_setSession]
  cases at_other : m.findGroup? other with
  | none => rfl
  | some k =>
    have kept : (m.setSession master s').groups[k]? = m.groups[k]? := by
      unfold setSession
      split
      · rename_i k' at_master
        have apart : k' ≠ k := by
          rintro rfl
          obtain ⟨g, at_k, rfl⟩ := exists_of_findGroup? at_master
          obtain ⟨g', at_k', rfl⟩ := exists_of_findGroup? at_other
          exact h (congrArg Group.master (Option.some.inj (at_k'.symm.trans at_k)))
        dsimp only
        rw [Array.getElem?_modify, if_neg apart]
      · rfl
    simp only [Option.bind_eq_bind, Option.bind_some, kept]

omit [MemorySystem M] in
theorem setSession_setSession (s s' : Session (Window M)) :
    (m.setSession master s).setSession master s' = m.setSession master s' := by
  cases found : m.findGroup? master with
  | none => simp [setSession, found]
  | some k =>
    have renamed := findGroup?_setSession master master s m
    unfold setSession at renamed ⊢
    simp only [found] at renamed ⊢
    simp only [renamed]
    congr 1
    apply Array.ext_getElem?
    intro n
    simp only [Array.getElem?_modify]
    split
    · rw [Option.map_map]
      rfl
    · rfl

/-- An operation on the session of a group that is there. -/
theorem onGroup_of_session {s : Session (Window M)} (h : m.session? master = some s)
    (x : Faulting (Session (Window M)) α) :
    onGroup master x m = match x s with
      | .ok a s' => .ok a (m.setSession master s')
      | .error f s' => .error f (m.setSession master s') := by
  obtain ⟨k, g, found, at_k, rfl⟩ := exists_of_session? h
  have put : ∀ (n : Machine M) (t : Session (Window M)), n.findGroup? master = some k →
      { n with groups := n.groups.modify k fun g => { g with session := t } } = n.setSession master t := by
    intro n t found
    unfold setSession
    rw [found]
  have back : ∀ t : Session (Window M),
      { m with
        groups := (m.groups.modify k fun g => { g with session := default }).modify k
          fun g => { g with session := t } } = m.setSession master t := by
    intro t
    rw [← setSession_setSession default t,
      ← put (m.setSession master default) t ((findGroup?_setSession ..).trans found), ← put m default found]
  have part : (m.groups[k]?.map (·.session)).getD default = g.session := by simp [at_k]
  unfold onGroup
  rw [get_bind]
  simp only [found]
  unfold onGroupAt Faulting.zoom
  simp only [part]
  cases ran : x g.session with
  | ok a s' => simp only [back]
  | error f s' => simp only [back]

theorem onGroup_of_none (h : m.session? master = none) (x : Faulting (Session (Window M)) α) :
    onGroup master x m = .error .indexOutOfBounds m := by
  have lost : m.findGroup? master = none := by
    cases found : m.findGroup? master with
    | none => rfl
    | some k =>
      obtain ⟨g, at_k, -⟩ := exists_of_findGroup? found
      rw [session?_of_found found at_k] at h
      cases h
  unfold onGroup
  rw [get_bind]
  simp only [lost]
  rfl

/-- An operation on the barrier of a group that is there. -/
theorem onBarrier_of_session {s : Session (Window M)} (h : m.session? master = some s)
    (x : Faulting (Barrier (Window M)) α) :
    onBarrier master x m = match x s.barrier with
      | .ok a b => .ok a (m.setSession master { s with barrier := b })
      | .error f b => .error f (m.setSession master { s with barrier := b }) := by
  unfold onBarrier
  rw [onGroup_of_session h]
  unfold Session.onBarrier Faulting.zoom
  cases ran : x s.barrier with
  | ok a b => simp only [ran]
  | error f b => simp only [ran]

/-! ## Section 3: New groups -/

omit [MemorySystem M] in
/-- A group that is missing comes in, and the others stay. -/
theorem session?_insert (g : Group M) (m : Machine M) (master : Nat) :
    ({ m with
      groups := m.groups.filter (·.master < g.master) ++ #[g] ++ m.groups.filter (g.master < ·.master) } :
        Machine M).session? master =
      if master = g.master then some g.session else m.session? master := by
  -- a filter by name finds what it lets through
  have filtered : ∀ p : Nat → Bool, (m.groups.filter fun h => p h.master).find? (·.master == master) =
      if p master then m.groups.find? (·.master == master) else none := by
    intro p
    rw [Array.find?_filter]
    split
    · rename_i passes
      congr 1
      funext h
      by_cases here : h.master = master
      · simp [here, passes]
      · simp [here]
    · rename_i stopped
      rw [Array.find?_eq_none]
      intro h _ both
      simp only [decide_eq_true_eq, beq_iff_eq] at both
      exact stopped (both.2 ▸ both.1)
  rw [session?_eq_find?, session?_eq_find?]
  simp only [Array.find?_append, filtered (decide <| · < g.master), filtered (decide <| g.master < ·)]
  rcases Nat.lt_trichotomy master g.master with below | rfl | above
  · have other : (g.master == master) = false := beq_eq_false_iff_ne.mpr (Nat.ne_of_gt below)
    simp [below, Nat.lt_asymm below, Nat.ne_of_lt below, other]
  · simp
  · have other : (g.master == master) = false := beq_eq_false_iff_ne.mpr (Nat.ne_of_lt above)
    simp [above, Nat.lt_asymm above, Nat.ne_of_gt above, other]

/-! ## Section 4: Calls on a model that shares a window -/

section

variable {w : Windowed} (found : m.models[i]? = some (.windowed w))
include found

theorem call_instruction (u : InstrInstance) :
    call i (.instruction u) m =
      (if !w.state.enabled then pure (.completed true) else timeWindowed i w u : Faulting (Machine M) Progress) m := by
  unfold call
  rw [get_bind, model_of_found found]
  rfl

theorem call_info (info : MemoryInfo) :
    call i (.info info) m =
      .ok (.completed true) (m.setModel i (.windowed { w with state := w.state.pushInfo info })) := by
  unfold call
  rw [get_bind, model_of_found found]
  show (modifyState i (·.pushInfo info) *> pure (.completed true) : Faulting (Machine M) Progress) m = _
  rw [seqRight_eq_bind]
  exact bind_eq_ok.mpr ⟨(), _, modifyState_of_found found _, rfl⟩

theorem call_enable :
    call i .enable m = (do setEnabled i (some w) true; pure (Progress.completed true)) m := by
  unfold call
  rw [get_bind, model_of_found found]
  rfl

theorem call_disable :
    call i .disable m = (do setEnabled i (some w) false; pure (Progress.completed true)) m := by
  unfold call
  rw [get_bind, model_of_found found]
  rfl

theorem call_synchronize : call i .synchronize m = simulate i w m := by
  unfold call
  rw [get_bind, model_of_found found]
  rfl

theorem call_notify :
    call i .notify m = (do
      onBarrier w.master (Barrier.synchronize w.slot w.state.clock.now)
      pure (Progress.completed true)) m := by
  unfold call
  rw [get_bind, model_of_found found]
  rfl

theorem call_finish : call i .finish m = finishWindowed i w m := by
  unfold call
  rw [get_bind, model_of_found found]
  rfl

end

end Machine

end CoreTiming
