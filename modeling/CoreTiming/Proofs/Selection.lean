import CoreTiming.Barrier.Plan
import CoreTiming.Proofs.Interleaving
import Mathlib.Data.List.Induction

/-!
# Who drives the engine

A host thread that leaves the barrier drives the engine if it is named as the driver.  It should be so
named by a release that took place after it entered, when the barrier had been reached.  A `Course` is a
session together with a record of such selections, and of the host threads that were let go in another
way: by a migration of their application thread, or because the barrier went out of force.

Whoever drives has been selected or was let go (`driver_selected_unless_let_go`).  The second case does
occur: the end of a round names its driver once more, and the name stands until the next release
(`migrated_host_drives_unselected`).
-/

namespace CoreTiming

open Faulting

/-! ## Section 1: Selections -/

namespace Barrier

variable {E : Type} [SharedEngine E]

/-- The slot that a release on behalf of `caller` selects as the driver, if it selects any. -/
def selection (caller : Option Nat) (b : Barrier E) : Option Nat :=
  match release false caller b with
  | .ok selectsCaller b' => if caller = b'.driver && !selectsCaller then none else b'.driver
  | .error _ _ => none

/-- The slot that is selected when the barrier is looked at on behalf of `caller`: none unless the barrier
has been reached. -/
def nextDriver (caller : Option Nat) (b : Barrier E) : Option Nat :=
  if b.isReached then selection caller b else none

/-- The slot that is selected when the barrier is looked at after `x`. -/
def nextDriverAfter (x : Faulting (Barrier E) Unit) (b : Barrier E) : Option Nat :=
  match x b with
  | .ok () b' => b'.nextDriver none
  | .error _ _ => none

/-- The thread of slot `t` ends. -/
def quit (t : Nat) : Faulting (Barrier E) Unit := do
  modify (modifySlot t fun s => { s with running := false })
  notifyActive

/-- Whether an event lets the host thread of slot `t` out of the barrier: its application thread moves
away, or the barrier goes out of force. -/
def letsGo (b : Barrier E) (t : Nat) : Event → Bool
  | .migrate app _ => b.findApp? app == some t && b.isParked? t == some true
  | .disable => b.isParked? t == some true
  | _ => false

/-- Whether the host thread of slot `t` is on its way out of the barrier, to drive the engine. -/
def leavesDriving (b : Barrier E) (t : Nat) : Bool := b.isParked? t == some false && b.picks t

end Barrier

namespace Session

variable {E : Type} [SharedEngine E]

/-- The slot that is selected as the driver in the course of an action. -/
def selecting? (s : Session E) (a : Action E) : Option Nat :=
  match s.entering? a with
  | some t => (s.barrier.parking t).nextDriver (some t)
  | none =>
    match a with
    | .handle event =>
      if event.signals then s.barrier.nextDriverAfter (Barrier.change event) else none
    | .step t =>
      if s.host t = .looping then s.barrier.nextDriverAfter (Barrier.quit t) else none
    | _ => none

/-- Whether an action lets the host thread of slot `t` out of the barrier. -/
def lettingGo (s : Session E) (t : Nat) : Action E → Bool
  | .handle event => s.barrier.letsGo t event
  | _ => false

/-- Whether the host thread of slot `t` leaves the barrier in the course of an action to drive the
engine: at once when it has entered, or after it was woken. -/
def drives (s : Session E) (t : Nat) (a : Action E) : Bool :=
  match s.entering? a with
  | some u =>
    match Barrier.park u s.barrier with
    | .ok () b => u == t && b.leavesDriving t
    | .error _ _ => false
  | none =>
    match a with
    | .step u =>
      match s.host u with
      | .parked _ => u == t && s.barrier.leavesDriving t
      | _ => false
    | _ => false

end Session

/-- A session, and what has become of its host threads since they last entered the barrier. -/
structure Course (E : Type) where
  /-- The session. -/
  session : Session E
  /-- Whether a release, at a moment when the barrier had been reached, has selected the slot as the
  driver since its host thread entered. -/
  selected : Nat → Bool := fun _ => false
  /-- Whether the host thread was let out of the barrier, without a release, since it entered. -/
  letGo : Nat → Bool := fun _ => false

namespace Course

variable {E : Type} [SharedEngine E]

/-- The course after one more action, if it is allowed and goes through. -/
def after (c : Course E) (a : Session.Action E) : Option (Course E) :=
  if a.isAllowed c.session then
    match a.perform c.session with
    | .ok () session =>
      some
        { session
          selected := fun t => c.session.selecting? a == some t ||
            (c.session.entering? a != some t && c.selected t)
          letGo := fun t => c.session.lettingGo t a ||
            (c.session.entering? a != some t && c.letGo t) }
    | .error _ _ => none
  else none

/-- The course of an interleaving of actions around a new engine. -/
def of (engine : E) (as : List (Session.Action E)) : Option (Course E) :=
  as.foldlM after { session := { barrier := { engine } } }

end Course

/-! ## Section 2: Releases, seen from the driver -/

namespace Barrier

variable {E : Type} [SharedEngine E] {caller : Option Nat} {b b' : Barrier E} {t u : Nat}

/-- Whoever is the driver after a release was selected by it, unless a release that selects nobody was
performed by the driver itself. -/
theorem selection_eq {me : Bool} (released : release false caller b = .ok me b')
    (driver : b'.driver = some t) (told : caller = some t → me = true) :
    selection caller b = some t := by
  unfold selection
  rw [released]
  dsimp only
  rw [driver]
  split
  · rename_i untold
    rw [Bool.and_eq_true, decide_eq_true_iff] at untold
    rw [told untold.1] at untold
    cases untold.2
  · rfl

/-- Only parked slots are selected. -/
theorem isParked?_of_selection (h : selection caller b = some t) : b.isParked? t = some true := by
  unfold selection at h
  cases released : release false caller b with
  | error f b' =>
    rw [released] at h
    cases h
  | ok me b' =>
    rw [released] at h
    dsimp only at h
    split at h
    · cases h
    · rename_i told
      obtain ⟨r', rfl, releases⟩ := releases_release released
      rcases releases.driver with same | ⟨-, t', parked, driver, -⟩
      · -- nobody was selected, so the driver is the caller, which has not been told so
        have named : caller = b'.driver := same.symm
        have selected : r'.selectsCaller = true := by simpa [named] using told
        rcases releases.tells selected with never | ⟨t', me, parked⟩
        · cases never
        · rw [named, h] at me
          rw [Option.some.inj me]
          exact parked
      · rw [h] at driver
        rw [Option.some.inj driver]
        exact parked

theorem driver_signal (h : signal b = .ok () b') (driver : b'.driver = some t) :
    b.nextDriver none = some t ∨ b' = b := by
  unfold nextDriver
  rcases signal_cases h with ⟨reached, me, released⟩ | ⟨-, rfl⟩
  · rw [if_pos reached]
    exact .inl (selection_eq released driver fun none => by cases none)
  · exact .inr rfl

theorem size_signal (h : signal b = .ok () b') : b'.slots.size = b.slots.size := by
  rcases signal_cases h with ⟨-, me, released⟩ | ⟨-, rfl⟩
  · obtain ⟨r', -, releases⟩ := releases_release released
    exact releases.size
  · rfl

omit [SharedEngine E] in
theorem isParked?_parking (t u : Nat) (b : Barrier E) :
    (b.parking t).isParked? u = if t = u then b.slots[u]?.map fun _ => true else b.isParked? u :=
  isParked?_modifySlot t u _ b

/-- A host thread that has parked and is not parked any more has been selected. -/
theorem park_eq_ok (h : park t b = .ok () b') :
    b'.slots.size = b.slots.size ∧
    (b'.isParked? t = some false → b'.driver = some t → (b.parking t).nextDriver (some t) = some t) ∧
    ∀ u, u ≠ t → b'.driver = some u → (b.parking t).nextDriver (some t) = some u ∨
      b.driver = some u ∧ b'.isParked? u = b.isParked? u := by
  have size : (b.parking t).slots.size = b.slots.size := by simp [parking, modifySlot]
  unfold nextDriver
  rcases park_cases h with ⟨reached, me, b₁, released, rfl⟩ | ⟨-, rfl⟩
  · obtain ⟨r', rfl, releases⟩ := releases_release released
    rw [if_pos reached]
    -- the caller takes back its flag, and nothing else
    have after : ∀ told : Bool, (if told then b₁.wake t else b₁).slots.size = b₁.slots.size ∧
        (if told then b₁.wake t else b₁).driver = b₁.driver := by
      intro told
      cases told with
      | true => exact ⟨by simp [wake, modifySlot], rfl⟩
      | false => exact ⟨rfl, rfl⟩
    have after := after r'.selectsCaller
    refine ⟨after.1.trans (releases.size.trans size), fun left driver => ?_, fun u other driver => ?_⟩
    · rw [after.2] at driver
      refine selection_eq released driver fun _ => ?_
      by_cases told : r'.selectsCaller = true
      · exact told
      rw [if_neg told] at left
      -- it has not been told, so it is still parked
      rw [releases.callers t rfl] at left
      have parked : (b.parking t).isParked? t = some false := left
      rw [isParked?_parking, if_pos rfl] at parked
      cases found : b.slots[t]? <;> simp [found] at parked
    · rw [after.2] at driver
      exact .inl (selection_eq released driver fun same => absurd (Option.some.inj same).symm other)
  · refine ⟨size, fun left _ => ?_, fun u other driver => .inr ⟨driver, ?_⟩⟩
    · rw [isParked?_parking, if_pos rfl] at left
      cases found : b.slots[t]? <;> simp [found] at left
    · rw [isParked?_parking, if_neg (Ne.symm other)]

/-- What a section of the host thread of slot `t` does to the others: one that is named as the driver
afterwards was named before, and has not been woken, unless `selected` names it. -/
structure Sound (t : Nat) (selected : Option Nat) (b : Barrier E) (host : Host) (b' : Barrier E) :
    Prop where
  /-- No slot comes or goes. -/
  size : b'.slots.size = b.slots.size
  /-- The host thread is not about to leave the barrier. -/
  stays : ∀ draining, host = .parked draining → b'.isParked? t ≠ some false
  /-- Others. -/
  others : ∀ u, u ≠ t → b'.driver = some u → selected = some u ∨
    b.driver = some u ∧ b'.isParked? u = b.isParked? u

theorem sound_leave {draining : Bool} {host : Host} {selected : Option Nat}
    (h : leave t draining b = .ok host b') : Sound t selected b host b' := by
  have outside : ∀ draining', Host.afterRound draining ≠ .parked draining' := by
    intro draining'
    cases draining <;> simp [Host.afterRound]
  rw [leave_eq] at h
  split at h
  · obtain ⟨ends, size, driver⟩ := drive_eq_ok h
    refine ⟨size, fun draining' parked => ?_, fun u other named => absurd (driver u named) other⟩
    rcases ends with rfl | rfl
    · exact absurd parked (outside draining')
    · cases parked
  · cases h
    exact ⟨rfl, fun draining' parked => absurd parked (outside draining'), fun u _ named => .inr ⟨named, rfl⟩⟩

theorem sound_enter {draining : Bool} {host : Host} (enabled : b.enabled = true)
    (h : enter t draining b = .ok host b') :
    Sound t ((b.parking t).nextDriver (some t)) b host b' := by
  cases entrance_of_enter h with
  | passes disabled => cases disabled.symm.trans enabled
  | waits _ parks parked =>
    obtain ⟨size, -, others⟩ := park_eq_ok parks
    exact ⟨size, fun _ _ => by simp [parked], others⟩
  | leaves _ parks _ left =>
    obtain ⟨size, -, others⟩ := park_eq_ok parks
    have left : Sound t none _ host b' := sound_leave left
    refine ⟨left.size.trans size, left.stays, fun u other named => ?_⟩
    rcases left.others u other named with none | ⟨driver, same⟩
    · cases none
    · rw [same]
      exact others u other driver

theorem sound_finishDrive {draining : Bool} {host : Host} {selected : Option Nat}
    (h : finishDrive t draining b = .ok host b') : Sound t selected b host b' := by
  obtain ⟨rfl, size, driver⟩ := finishDrive_eq_ok h
  refine ⟨size, fun draining' parked => ?_, fun u other named => ?_⟩
  · cases draining <;> cases parked
  · rw [driver] at named
    exact absurd (Option.some.inj named).symm other

omit [SharedEngine E] in
theorem Sound.of_sameParking {host : Host} {selected : Option Nat} (same : SameParking b b')
    (outside : ∀ draining, host ≠ .parked draining) : Sound t selected b host b' :=
  ⟨same.size, fun draining parked => absurd parked (outside draining), fun u _ named =>
    .inr ⟨same.driver ▸ named, same.parked u⟩⟩

theorem preserves_quit {γ : Type} {view : Slot → γ}
    (same : ∀ s, view { s with running := false } = view s) (t : Nat) :
    Preserves (seen view) (quit t : Faulting (Barrier E) Unit) :=
  (preserves_modifySlot same t).bind fun _ => preserves_notifyActive

/-- A host thread that finishes enters the barrier while something is left to drain.  Otherwise its thread ends, and
the barrier is looked at. -/
inductive DrainStep (t : Nat) (b : Barrier E) (host : Host) (b' : Barrier E) : Prop
  /-- Something is left. -/
  | drains {s : Slot} {drained : Bool} (found : b.slot t = .ok s)
      (answered : SharedEngine.isDrained b.engine t = .ok drained)
      (goesOn : (b.enabled && s.running && !drained) = true) (entered : enter t true b = .ok host b') :
      DrainStep t b host b'
  /-- The thread ends. -/
  | ends {s : Slot} {drained : Bool} {b₁ : Barrier E} (found : b.slot t = .ok s)
      (answered : SharedEngine.isDrained b.engine t = .ok drained)
      (ended : ¬(b.enabled && s.running && !drained) = true) (quits : quit t b = .ok () b₁)
      (signals : signal b₁ = .ok () b') (out : host = .outside) : DrainStep t b host b'

theorem drainStep_of_drainOrEnd {host : Host} (h : drainOrEnd t b = .ok host b') : DrainStep t b host b' := by
  unfold drainOrEnd at h
  rw [get_bind] at h
  obtain ⟨s, _, looked, h⟩ := bind_eq_ok.mp h
  obtain ⟨found, rfl⟩ := ofExcept_eq_ok.mp looked
  obtain ⟨drained, _, asked, h⟩ := bind_eq_ok.mp h
  obtain ⟨answered, rfl⟩ := ofExcept_eq_ok.mp asked
  split at h
  · rename_i goesOn
    exact .drains found answered goesOn h
  · rename_i ended
    rw [← bind_assoc] at h
    obtain ⟨⟨⟩, b₁, quits, h⟩ := bind_eq_ok.mp h
    obtain ⟨⟨⟩, b₂, signals, h⟩ := bind_eq_ok.mp h
    obtain ⟨rfl, rfl⟩ := pure_eq_ok.mp h
    exact .ends found answered ended quits signals rfl

theorem sound_proceed_looping {host : Host} (h : drainOrEnd t b = .ok host b') :
    ∃ s drained, b.slot t = .ok s ∧ SharedEngine.isDrained b.engine t = .ok drained ∧
      Sound t
        (if b.enabled && s.running && !drained then (b.parking t).nextDriver (some t)
          else b.nextDriverAfter (quit t)) b host b' := by
  cases drainStep_of_drainOrEnd h with
  | drains found answered goesOn entered =>
    refine ⟨_, _, found, answered, ?_⟩
    rw [if_pos goesOn]
    simp only [Bool.and_eq_true] at goesOn
    exact sound_enter goesOn.1.1 entered
  | ends found answered ended quits signals out =>
    refine ⟨_, _, found, answered, ?_⟩
    rw [if_neg ended]
    subst out
    have same := SameParking.of_seen (preserves_quit (fun _ => rfl) t quits)
    refine ⟨(size_signal signals).trans same.size, fun _ parked => (nomatch parked), fun u _ named => ?_⟩
    unfold nextDriverAfter
    rw [quits]
    rcases driver_signal signals named with selected | rfl
    · exact .inl selected
    · exact .inr ⟨same.driver ▸ named, same.parked u⟩

/-- The thread that leaves its core is the only one that may be woken. -/
theorem vacate_eq_ok {app : Nat} (h : vacate app b = .ok () b') :
    b'.slots.size = b.slots.size ∧ b'.driver = b.driver ∧
      ∀ u, b'.isParked? u = b.isParked? u ∨ b.findApp? app = some u ∧ b.isParked? u = some true := by
  unfold vacate at h
  rw [get_bind] at h
  cases found : b.findApp? app with
  | none =>
    simp only [found] at h
    obtain ⟨-, rfl⟩ := pure_eq_ok.mp h
    exact ⟨rfl, rfl, fun _ => .inl rfl⟩
  | some t =>
    simp only [found, modify_bind] at h
    obtain ⟨⟨⟩, b₁, notified, h⟩ := bind_eq_ok.mp h
    rw [modify_eq_ok] at h
    subst h
    have emptied : SameParking b b₁ := by
      refine .of_seen ((preserves_notifyActive notified).trans (seen_modifySlot ?_ t b))
      exact fun _ => rfl
    refine ⟨?_, emptied.driver, fun u => ?_⟩
    · rw [← emptied.size]
      simp [wake, modifySlot]
    by_cases same : t = u
    · subst same
      cases parked : b.isParked? t with
      | none =>
        refine .inl ?_
        rw [wake, isParked?_modifySlot, if_pos rfl]
        have absent := emptied.parked t
        rw [parked] at absent
        unfold isParked? at absent
        cases gone : b₁.slots[t]? <;> simp_all
      | some isParked =>
        have there : b₁.isParked? t ≠ none := by simp [emptied.parked, parked]
        rw [isParked?_wake_self t b₁ there]
        cases isParked with
        | false => exact .inl rfl
        | true => exact .inr ⟨rfl, rfl⟩
    · rw [isParked?_wake_ne same]
      exact .inl (emptied.parked u)

/-- What an event does before the barrier is looked at again. -/
theorem change_eq_ok {event : Event} (h : change event b = .ok () b') :
    b'.slots.size = b.slots.size ∧ b'.driver = b.driver ∧
      ∀ t, b'.isParked? t = b.isParked? t ∨ b.letsGo t event = true := by
  have of_same {b' : Barrier E} (same : SameParking b b') :
      b'.slots.size = b.slots.size ∧ b'.driver = b.driver ∧
        ∀ t, b'.isParked? t = b.isParked? t ∨ b.letsGo t event = true :=
    ⟨same.size, same.driver, fun t => .inl (same.parked t)⟩
  have of_app {app : Nat} {f : Slot → Slot} (h : changeApp app f b = .ok () b')
      (same : ∀ s, (f s).inBarrier = s.inBarrier) :
      b'.slots.size = b.slots.size ∧ b'.driver = b.driver ∧
        ∀ t, b'.isParked? t = b.isParked? t ∨ b.letsGo t event = true :=
    of_same (.of_seen (preserves_changeApp same h))
  cases event with
  | start app => exact of_app h fun _ => rfl
  | exit app => exact of_app h fun _ => rfl
  | stall app => exact of_app h fun _ => rfl
  | resume app => exact of_app h fun _ => rfl
  | enable =>
    rw [change, modify_eq_ok] at h
    subst h
    exact of_same ⟨rfl, fun _ => rfl, rfl⟩
  | disable =>
    rw [change, modify_eq_ok] at h
    subst h
    refine ⟨by simp, rfl, fun t => ?_⟩
    cases found : b.slots[t]? with
    | none => simp [isParked?, found]
    | some s => cases parked : s.inBarrier <;> simp [letsGo, isParked?, found, parked]
  | migrate app core =>
    obtain ⟨⟨⟩, b₁, vacated, h⟩ := bind_eq_ok.mp h
    have occupied := SameParking.of_seen (preserves_occupy (fun _ => rfl) h)
    obtain ⟨size, driver, parked⟩ := vacate_eq_ok vacated
    refine ⟨occupied.size.trans size, occupied.driver.trans driver, fun t => ?_⟩
    rw [occupied.parked]
    rcases parked t with same | ⟨found, wakes⟩
    · exact .inl same
    · exact .inr (by simp [letsGo, found, wakes])

end Barrier

/-! ## Section 3: Actions, seen from the driver -/

namespace Session

variable {E : Type} [SharedEngine E] {s s' : Session E} {t u : Nat}

omit [SharedEngine E] in
theorem host_setHost (t u : Nat) (h : Host) (s : Session E) :
    (s.setHost t h).host u = if t = u ∧ u < s.hosts.size then h else s.host u := by
  unfold setHost host
  by_cases same : t = u
  · subst same
    by_cases inside : t < s.hosts.size
    · simp [inside]
    · simp [inside]
  · simp [same]

/-- The host thread of slot `t` has been woken and is named as the driver. -/
structure Due (s : Session E) (t : Nat) : Prop where
  /-- It is in the barrier. -/
  waits : ∃ draining, s.host t = .parked draining
  /-- It is not parked any more. -/
  woken : s.barrier.isParked? t = some false
  /-- It is the driver. -/
  driver : s.barrier.driver = some t

/-- What an action does to those that are due. -/
structure Follows (s : Session E) (a : Action E) (s' : Session E) : Prop where
  /-- Every slot keeps its host thread. -/
  size : s.hosts.size = s.barrier.slots.size → s'.hosts.size = s'.barrier.slots.size
  /-- Who is due has been selected or let go, or was due and has not entered since. -/
  due : ∀ t, s'.Due t → s.selecting? a = some t ∨ s.lettingGo t a = true ∨
    s.entering? a ≠ some t ∧ s.Due t

/-- An action during which nobody enters or leaves and that leaves the parking alone. -/
theorem Follows.of_sameParking {a : Action E} {b : Barrier E} (enters : s.entering? a = none)
    (same : s.barrier.SameParking b) : Follows s a { s with barrier := b } := by
  refine ⟨fun size => size.trans same.size.symm, fun t due => .inr (.inr ⟨?_, due.waits, ?_, ?_⟩)⟩
  · rw [enters]
    simp
  · rw [← same.parked]
    exact due.woken
  · rw [← same.driver]
    exact due.driver

/-- A section of a host thread. -/
theorem Follows.of_sound {a : Action E} {host : Host} {b : Barrier E}
    (sound : Barrier.Sound t (s.selecting? a) s.barrier host b)
    (enters : ∀ u, s.entering? a = some u → u = t) :
    Follows s a (Session.setHost t host { s with barrier := b }) := by
  refine ⟨fun size => ?_, fun u due => ?_⟩
  · simpa [Session.setHost] using size.trans sound.size.symm
  obtain ⟨⟨draining, waits⟩, woken, driver⟩ := due
  rw [host_setHost] at waits
  by_cases self : t = u ∧ u < s.hosts.size
  · rw [if_pos self] at waits
    rw [← self.1] at woken
    exact absurd woken (sound.stays draining waits)
  · rw [if_neg self] at waits
    by_cases same : t = u
    · -- no host thread stands outside the array
      have absent : s.host u = .outside := by
        unfold Session.host
        have : ¬u < s.hosts.size := fun inside => self ⟨same, inside⟩
        simp [Array.getD, this]
      rw [show Session.host { s with barrier := b } u = s.host u from rfl, absent] at waits
      cases waits
    · rcases sound.others u (Ne.symm same) driver with selected | ⟨named, parked⟩
      · exact .inl selected
      · refine .inr (.inr ⟨fun entered => same (enters u entered).symm, ⟨draining, waits⟩, ?_, named⟩)
        rw [← parked]
        exact woken

theorem perform_start_eq_ok {call : Barrier.HostCall} (h : Session.start t call s = .ok () s') :
    ∃ host b, Barrier.begin t call s.barrier = .ok host b ∧
      s' = Session.setHost t host { s with barrier := b } := by
  unfold Session.start at h
  obtain ⟨host, s₁, ran, h⟩ := bind_eq_ok.mp h
  obtain ⟨b, began, rfl⟩ := onBarrier_eq_ok.mp ran
  exact ⟨host, b, began, (modify_eq_ok.mp h).symm⟩

theorem perform_step_eq_ok (h : Session.step t s = .ok () s') :
    ∃ host b, Barrier.proceed t (s.host t) s.barrier = .ok host b ∧
      s' = Session.setHost t host { s with barrier := b } := by
  unfold Session.step at h
  rw [get_bind] at h
  obtain ⟨host, s₁, ran, h⟩ := bind_eq_ok.mp h
  obtain ⟨b, proceeded, rfl⟩ := onBarrier_eq_ok.mp ran
  exact ⟨host, b, proceeded, (modify_eq_ok.mp h).symm⟩

/-- Nobody enters or leaves while an event is handled. -/
theorem follows_handle {event : Barrier.Event} {b : Barrier E}
    (h : Barrier.handle event s.barrier = .ok () b) :
    Follows s (.handle event) { s with barrier := b } := by
  rw [Barrier.handle_eq] at h
  obtain ⟨⟨⟩, b₁, changed, h⟩ := bind_eq_ok.mp h
  obtain ⟨size, driver, parked⟩ := Barrier.change_eq_ok changed
  -- who is due after the change was let go by it or was due before
  have due : ∀ t, (∃ draining, s.host t = .parked draining) → b₁.isParked? t = some false →
      b₁.driver = some t → s.lettingGo t (.handle event) = true ∨
        s.entering? (.handle event) ≠ some t ∧ s.Due t := by
    intro t waits woken named
    rcases parked t with same | letGo
    · refine .inr ⟨by simp [entering?], waits, ?_, driver ▸ named⟩
      rw [← same]
      exact woken
    · exact .inl letGo
  split at h
  · rename_i signals
    refine ⟨fun sizes => ?_, fun t ⟨waits, woken, named⟩ => ?_⟩
    · exact sizes.trans ((Barrier.size_signal h).trans size).symm
    · rcases Barrier.driver_signal h named with selected | rfl
      · refine .inl ?_
        simp only [selecting?, entering?, Barrier.nextDriverAfter, changed]
        rw [if_pos signals]
        exact selected
      · exact .inr (due t waits woken named)
  · obtain ⟨-, rfl⟩ := pure_eq_ok.mp h
    exact ⟨fun sizes => sizes.trans size.symm, fun t ⟨waits, woken, named⟩ => .inr (due t waits woken named)⟩

theorem follows_start {call : Barrier.HostCall} (h : Session.start t call s = .ok () s') :
    Follows s (.start t call) s' := by
  obtain ⟨host, b, began, rfl⟩ := perform_start_eq_ok h
  have enters : ∀ u, s.entering? (.start t call) = some u → u = t := by
    intro u entered
    cases call with
    | finish => cases entered
    | simulate =>
      simp only [entering?] at entered
      split at entered
      · split at entered
        · exact (Option.some.inj entered).symm
        · cases entered
      · cases entered
  refine .of_sound ?_ enters
  cases call with
  | finish =>
    obtain ⟨marked, rfl⟩ := Barrier.finish_eq_ok began
    exact .of_sameParking (.of_seen (Barrier.preserves_onEngine marked)) fun _ => nofun
  | simulate =>
    obtain ⟨surplus, answered, ends⟩ := Barrier.simulate_cases began
    simp only [selecting?, entering?, answered]
    rcases ends with ⟨enough, entered⟩ | ⟨-, rfl, rfl⟩
    · cases enabled : s.barrier.enabled with
      | true => simpa [enough] using Barrier.sound_enter enabled entered
      | false =>
        cases Barrier.entrance_of_enter entered with
        | passes _ goesOn same =>
          subst goesOn same
          exact .of_sameParking (.refl _) fun _ => nofun
        | waits enabled' | leaves enabled' => cases enabled.symm.trans enabled'
    · exact .of_sameParking (.refl _) fun _ => nofun

theorem follows_step (h : Session.step t s = .ok () s') : Follows s (.step t) s' := by
  obtain ⟨host, b, proceeded, rfl⟩ := perform_step_eq_ok h
  have enters : ∀ u, s.entering? (.step t) = some u → u = t := by
    intro u entered
    simp only [entering?] at entered
    split at entered
    · split at entered
      · exact (Option.some.inj entered).symm
      · cases entered
    · cases entered
  refine .of_sound ?_ enters
  cases stands : s.host t with
  | outside =>
    rw [stands] at proceeded
    obtain ⟨rfl, rfl⟩ := pure_eq_ok.mp proceeded
    exact .of_sameParking (.refl _) fun _ => nofun
  | parked draining =>
    rw [stands] at proceeded
    rcases Barrier.parked_cases proceeded with ⟨parked, rfl, rfl⟩ | ⟨-, left⟩
    · exact ⟨rfl, fun _ _ => by simp [parked], fun u _ named => .inr ⟨named, rfl⟩⟩
    · exact Barrier.sound_leave left
  | syncing draining =>
    rw [stands] at proceeded
    exact Barrier.sound_finishDrive proceeded
  | looping =>
    rw [stands] at proceeded
    obtain ⟨me, drained, found, answered, sound⟩ := Barrier.sound_proceed_looping proceeded
    simp only [selecting?, entering?, stands, found, answered]
    split at sound
    · rename_i goesOn
      simpa [goesOn] using sound
    · rename_i ends
      simpa [ends] using sound

theorem follows_register {core : Nat} {hasClient : Bool} {setUp : Nat → Faulting E Unit} {slot : Nat}
    (sizes : s.hosts.size = s.barrier.slots.size)
    (h : Session.register core hasClient setUp s = .ok slot s') :
    Follows s (.register core hasClient setUp) s' := by
  obtain ⟨size, hosts, seen⟩ := register_eq_ok (·.inBarrier) h
  have same := Barrier.SameParking.of_seen seen
  refine ⟨fun _ => ?_, fun u ⟨⟨draining, waits⟩, woken, named⟩ => ?_⟩
  · rw [size, same.size, sizes]
    exact (Array.size_push _).symm
  rw [hosts] at waits
  rw [same.parked] at woken
  -- the new host thread is in no call, so it is one of the old ones that is due
  have old : u < s.hosts.size := by
    by_cases inside : u < s.hosts.size
    · exact inside
    · have absent : s.host u = .outside := by simp [Session.host, inside]
      cases absent.symm.trans waits
  refine .inr (.inr ⟨by simp [entering?], ⟨draining, waits⟩, ?_, same.driver.symm.trans named⟩)
  simpa [Barrier.isParked?, Array.getElem?_push, sizes ▸ Nat.ne_of_lt old] using woken

/-- Every action. -/
theorem follows_perform {a : Action E} (sizes : s.hosts.size = s.barrier.slots.size)
    (h : a.perform s = .ok () s') : Follows s a s' := by
  cases a with
  | register core hasClient setUp =>
    obtain ⟨slot, s₁, registered, h⟩ := bind_eq_ok.mp h
    obtain ⟨-, rfl⟩ := pure_eq_ok.mp h
    exact follows_register sizes registered
  | handle event =>
    obtain ⟨b, handled, rfl⟩ := onBarrier_eq_ok.mp h
    exact follows_handle handled
  | start t call => exact follows_start h
  | step t => exact follows_step h
  | _ =>
    obtain ⟨b, rfl, same⟩ := perform_aside (·.inBarrier) rfl (fun _ _ _ => rfl) h
    exact .of_sameParking rfl (.of_seen same)

end Session

/-! ## Section 4: Courses -/

namespace Course

variable {E : Type} [SharedEngine E] {c c' : Course E} {a : Session.Action E} {t : Nat}

/-- What holds all along a course. -/
structure Lawful (c : Course E) : Prop where
  /-- Every slot has a host thread. -/
  sizes : c.session.hosts.size = c.session.barrier.slots.size
  /-- Whoever is about to drive has been selected, or was let go. -/
  due : ∀ t, c.session.Due t → c.selected t = true ∨ c.letGo t = true

theorem after_eq_some (h : c.after a = some c') :
    a.perform c.session = .ok () c'.session ∧
      (∀ t, c'.selected t = (c.session.selecting? a == some t ||
        (c.session.entering? a != some t && c.selected t))) ∧
      ∀ t, c'.letGo t = (c.session.lettingGo t a ||
        (c.session.entering? a != some t && c.letGo t)) := by
  unfold after at h
  split at h
  · split at h
    · rename_i performed
      obtain rfl := Option.some.inj h
      exact ⟨performed, fun _ => rfl, fun _ => rfl⟩
    · cases h
  · cases h

theorem isAllowed_of_after (h : c.after a = some c') : a.isAllowed c.session = true := by
  unfold after at h
  split at h
  · assumption
  · cases h

theorem Lawful.after (lawful : Lawful c) (next : c.after a = some c') : Lawful c' := by
  obtain ⟨performed, selected, letGo⟩ := after_eq_some next
  have follows := Session.follows_perform lawful.sizes performed
  refine ⟨follows.size lawful.sizes, fun t due => ?_⟩
  rw [selected, letGo]
  rcases follows.due t due with named | released | ⟨stays, before⟩
  · simp [named]
  · simp [released]
  · rcases lawful.due t before with earlier | earlier
    · simp [stays, earlier]
    · simp [stays, earlier]

/-- One more action. -/
theorem of_concat {engine : E} {as : List (Session.Action E)} (made : Course.of engine as = some c)
    (next : c.after a = some c') : Course.of engine (as ++ [a]) = some c' := by
  unfold Course.of at made ⊢
  rw [List.foldlM_append, made]
  simp [next]

/-- What holds at first, and after an action wherever it held before, holds along every interleaving. -/
theorem induction_of {engine : E} {as : List (Session.Action E)}
    {P : List (Session.Action E) → Course E → Prop}
    (first : P [] { session := { barrier := { engine } } })
    (step : ∀ as c a c', Course.of engine as = some c → P as c → c.after a = some c' → P (as ++ [a]) c')
    (made : Course.of engine as = some c) : P as c := by
  induction as using List.reverseRecOn generalizing c with
  | nil =>
    obtain rfl := Option.some.inj made
    exact first
  | append_singleton as a ih =>
    unfold Course.of at made
    rw [List.foldlM_append] at made
    obtain ⟨c₁, before, made⟩ := Option.bind_eq_some_iff.mp made
    rw [List.foldlM_cons] at made
    obtain ⟨c₂, next, made⟩ := Option.bind_eq_some_iff.mp made
    obtain rfl := Option.some.inj made
    exact step as c₁ a c₂ before (ih before) next

theorem lawful_of {engine : E} {as : List (Session.Action E)} (made : Course.of engine as = some c) :
    Lawful c := by
  refine induction_of (P := fun _ => Lawful) ⟨rfl, fun t ⟨⟨draining, waits⟩, _, _⟩ => ?_⟩
    (fun _ _ _ _ _ lawful next => lawful.after next) made
  cases waits

/-- Only a selected host thread drives the engine: in every interleaving, if a host thread drives the
engine in the course of an action, then a release at a moment when the barrier had been reached has
selected it since it last entered, or it was let out of the barrier without a release since then. -/
theorem driver_selected_unless_let_go {engine : E} {as : List (Session.Action E)}
    (made : Course.of engine as = some c) (next : c.after a = some c')
    (drives : c.session.drives t a = true) (stayed : c'.letGo t = false) : c'.selected t = true := by
  have lawful := lawful_of made
  obtain ⟨-, selected, letGo⟩ := after_eq_some next
  rw [selected]
  rw [letGo] at stayed
  unfold Session.drives at drives
  split at drives
  · -- it has just entered, and leaves at once
    rename_i u entered
    split at drives
    · rename_i b parked
      simp only [Bool.and_eq_true, beq_iff_eq, Barrier.leavesDriving, Barrier.picks] at drives
      obtain ⟨rfl, woken, -, named⟩ := drives
      have chosen := (Barrier.park_eq_ok parked).2.1 woken named
      simp [Session.selecting?, entered, chosen]
    · cases drives
  · -- it was woken before
    rename_i nobody
    split at drives
    · rename_i u
      split at drives
      · rename_i draining waits
        simp only [Bool.and_eq_true, beq_iff_eq, Barrier.leavesDriving, Barrier.picks] at drives
        obtain ⟨rfl, woken, -, named⟩ := drives
        rcases lawful.due u ⟨⟨draining, waits⟩, woken, named⟩ with earlier | earlier
        · simp [nobody, earlier]
        · simp [nobody, earlier] at stayed
      · cases drives
    · cases drives

/-- Sets up a slot that has plenty of micro-ops buffered. -/
def stocked (_ : Nat) : Faulting PlannedEngine Unit :=
  modify fun e => { e with slots := e.slots.push ⟨200, true, false⟩ }

/-- Two slots, both of whose host threads enter the barrier.  The second one completes it. -/
def twoHosts : List (Session.Action PlannedEngine) :=
  [.register 0 false stocked, .register 1 false stocked, .bind 0 0, .bind 1 1, .handle (.start 0),
    .handle (.start 1), .start 0 .simulate, .start 1 .simulate]

/-- The first of two hosts is selected by the release that the second one performs, and drives. -/
theorem driver_selected_unless_let_go_of_two : ∃ c c' : Course PlannedEngine,
    Course.of {} twoHosts = some c ∧ c.after (.step 0) = some c' ∧
      c.session.drives 0 (.step 0) = true ∧ c'.letGo 0 = false ∧ c'.selected 0 = true := by
  have computed : (Course.of {} twoHosts).any (fun c => (c.after (.step 0)).any fun c' =>
      c.session.drives 0 (.step 0) && !c'.letGo 0) = true := by decide +kernel
  obtain ⟨c, made, computed⟩ := (Option.any_eq_true _ _).mp computed
  obtain ⟨c', next, computed⟩ := (Option.any_eq_true _ _).mp computed
  rw [Bool.and_eq_true, Bool.not_eq_true'] at computed
  obtain ⟨drives, stayed⟩ := computed
  exact ⟨c, c', made, next, drives, stayed, driver_selected_unless_let_go made next drives stayed⟩

/-- The first host drives a round, enters again, and is let go because its application thread moves to
another core, while the second one still runs. -/
def twoHostsThenMigration : List (Session.Action PlannedEngine) :=
  twoHosts ++ [.step 0, .push 0 (List.replicate 130 { op := {} }), .start 0 .simulate,
    .handle (.migrate 0 7)]

/-- The end of a round names its driver once more.  A host thread that enters after its round and is let
go by a migration drives the engine without having been selected. -/
theorem migrated_host_drives_unselected : ∃ c c' : Course PlannedEngine,
    Course.of {} twoHostsThenMigration = some c ∧ c.after (.step 0) = some c' ∧
      c.session.drives 0 (.step 0) = true ∧ c'.selected 0 = false := by
  have computed : (Course.of {} twoHostsThenMigration).any (fun c => (c.after (.step 0)).any fun c' =>
      c.session.drives 0 (.step 0) && !c'.selected 0) = true := by decide +kernel
  obtain ⟨c, made, computed⟩ := (Option.any_eq_true _ _).mp computed
  obtain ⟨c', next, computed⟩ := (Option.any_eq_true _ _).mp computed
  rw [Bool.and_eq_true, Bool.not_eq_true'] at computed
  exact ⟨c, c', made, next, computed.1, computed.2⟩

end Course

end CoreTiming
