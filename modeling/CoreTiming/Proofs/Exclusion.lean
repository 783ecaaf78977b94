import CoreTiming.Proofs.Selection

/-!
# One driver at a time

A host thread that drives the engine gives up the lock while its client synchronizes across cores.  The
lock keeps nobody out of `drive` then.  What does is that the driver takes its name back before it gives
up the lock, and that a barrier with a busy driver is never reached: such a barrier is `Closed`.  Nobody is
released from a closed barrier, and a host thread that was woken earlier finds that it is not named.

So at most one host thread is inside `drive` at any moment (`one_driver_at_a_time`).
-/

namespace CoreTiming

open Faulting

theorem Host.afterRound_ne_syncing (draining draining' : Bool) :
    Host.afterRound draining ≠ .syncing draining' := by
  cases draining <;> nofun

/-! ## Section 1: Closed barriers -/

namespace Barrier

variable {E : Type} {caller : Option Nat} {b b' : Barrier E} {t u : Nat} {host : Host}
  {draining : Bool}

/-- The driver synchronizes across cores, and nobody is named to be the next. -/
structure Closed (b : Barrier E) : Prop where
  /-- The driver is busy. -/
  syncing : b.syncing = true
  /-- Nobody is named. -/
  driver : b.driver = none

theorem Closed.of_seen {γ : Type} {view : Slot → γ} (closed : b.Closed)
    (same : b'.seen view = b.seen view) : b'.Closed := by
  simp only [seen, Prod.mk.injEq] at same
  exact ⟨same.1.trans closed.syncing, same.2.1.trans closed.driver⟩

theorem Closed.parking (closed : b.Closed) (t : Nat) : (b.parking t).Closed :=
  ⟨closed.syncing, closed.driver⟩

theorem Closed.isReached_eq (closed : b.Closed) : b.isReached = false := by
  simp [isReached, closed.syncing]

theorem Closed.picks_eq (closed : b.Closed) (t : Nat) : b.picks t = false := by
  simp [picks, closed.driver]

/-- Whoever is parked stays so when another one parks. -/
theorem isParked?_parking_of_parked (parked : b.isParked? u = some true) (t : Nat) :
    (b.parking t).isParked? u = some true := by
  rw [isParked?_parking]
  split
  · obtain ⟨s, found, -⟩ := Option.map_eq_some_iff.mp parked
    rw [found]
    rfl
  · exact parked

variable [SharedEngine E]

theorem Closed.nextDriver_eq (closed : b.Closed) (caller : Option Nat) : b.nextDriver caller = none := by
  simp [nextDriver, closed.isReached_eq]

theorem Closed.signal_eq (closed : b.Closed) : signal b = .ok () b := by
  unfold signal
  rw [get_bind, closed.isReached_eq]
  rfl

theorem Closed.park_eq (closed : b.Closed) (t : Nat) : park t b = .ok () (b.parking t) := by
  unfold park
  rw [modify_bind, get_bind, (closed.parking t).isReached_eq]
  rfl

theorem preserves_vacate {app : Nat} :
    Preserves (seen fun _ => ()) (vacate app : Faulting (Barrier E) Unit) := by
  refine preserves_get.bind fun b => ?_
  cases b.findApp? app with
  | some t =>
    refine (preserves_modifySlot ?_ t).bind fun _ => preserves_notifyActive.bind fun _ =>
      preserves_modifySlot ?_ t
    · exact fun _ => rfl
    · exact fun _ => rfl
  | none => exact preserves_pure _

/-- An event by itself touches neither the driver nor its synchronization. -/
theorem preserves_change (event : Event) :
    Preserves (seen fun _ => ()) (change event : Faulting (Barrier E) Unit) := by
  cases event with
  | migrate app core => exact preserves_vacate.bind fun _ => preserves_occupy fun _ => rfl
  | enable => exact preserves_modify fun b => rfl
  | disable => exact preserves_modify fun b => by simp [seen, Function.comp_def]
  | _ => exact preserves_changeApp fun _ => rfl

/-- The driver is busy once the host thread begins to synchronize. -/
theorem closed_of_drive (h : drive t draining b = .ok (.syncing draining) b') : b'.Closed := by
  obtain ⟨b₁, -, ⟨-, rfl⟩ | finishes⟩ := drive_cases h
  · exact ⟨rfl, rfl⟩
  · exact absurd (finishDrive_eq_ok finishes).1.symm (Host.afterRound_ne_syncing _ _)

/-- What a section of a host thread does about synchronization across cores. -/
structure Discreet (b : Barrier E) (host : Host) (b' : Barrier E) : Prop where
  /-- If it begins to synchronize, it closes the barrier. -/
  closes : ∀ draining, host = .syncing draining → b'.Closed
  /-- A closed barrier stays closed. -/
  closed : b.Closed → b'.Closed
  /-- Nobody begins to synchronize in front of a closed barrier. -/
  waits : b.Closed → ∀ draining, host ≠ .syncing draining
  /-- Nobody is let out of a closed barrier. -/
  parked : b.Closed → ∀ u, b.isParked? u = some true → b'.isParked? u = some true

omit [SharedEngine E] in
/-- A section that begins no synchronization. -/
theorem Discreet.of_ne_syncing (idle : ∀ draining, host ≠ .syncing draining) (closed : b.Closed → b'.Closed)
    (parked : b.Closed → ∀ u, b.isParked? u = some true → b'.isParked? u = some true) : Discreet b host b' :=
  ⟨fun draining syncs => absurd syncs (idle draining), closed, fun _ => idle, parked⟩

omit [SharedEngine E] in
/-- A section that leaves the barrier alone. -/
theorem Discreet.refl (idle : ∀ draining, host ≠ .syncing draining) : Discreet b host b :=
  .of_ne_syncing idle id fun _ _ parked => parked

theorem discreet_leave (h : leave t draining b = .ok host b') : Discreet b host b' := by
  rw [leave_eq] at h
  split at h
  · rename_i picked
    have opened : ¬b.Closed := by
      intro closed
      rw [closed.picks_eq t] at picked
      cases picked
    refine ⟨fun draining' syncs => ?_, fun closed => absurd closed opened,
      fun closed => absurd closed opened, fun closed => absurd closed opened⟩
    rcases (drive_eq_ok h).1 with rfl | rfl
    · exact absurd syncs (Host.afterRound_ne_syncing _ _)
    · exact closed_of_drive h
  · cases h
    exact .refl (Host.afterRound_ne_syncing _)

theorem discreet_enter (h : enter t draining b = .ok host b') : Discreet b host b' := by
  -- in front of a closed barrier it parks and does nothing else
  have after {b₁ : Barrier E} (parks : park t b = .ok () b₁) (goesOn : Discreet b₁ host b') :
      Discreet b host b' := by
    have only (closed : b.Closed) : b₁ = b.parking t := by
      rw [closed.park_eq t] at parks
      cases parks
      rfl
    refine ⟨goesOn.closes, fun closed => ?_, fun closed => ?_, fun closed u parked => ?_⟩
    all_goals obtain rfl := only closed
    · exact goesOn.closed (closed.parking t)
    · exact goesOn.waits (closed.parking t)
    · exact goesOn.parked (closed.parking t) u (isParked?_parking_of_parked parked t)
  cases entrance_of_enter h with
  | passes _ goesOn same =>
    subst goesOn same
    exact .refl (Host.afterRound_ne_syncing _)
  | waits _ parks _ stands =>
    subst stands
    exact after parks (.refl (by simp))
  | leaves _ parks _ left => exact after parks (discreet_leave left)

theorem discreet_drainOrEnd (h : drainOrEnd t b = .ok host b') : Discreet b host b' := by
  cases drainStep_of_drainOrEnd h with
  | drains _ _ _ entered => exact discreet_enter entered
  | @ends _ _ b₁ _ _ _ quits signals out =>
    subst out
    have same : b₁.seen (·.inBarrier) = b.seen (·.inBarrier) := preserves_quit (fun _ => rfl) t quits
    have only (closed : b.Closed) : b' = b₁ := by
      rw [(closed.of_seen same).signal_eq] at signals
      cases signals
      rfl
    refine .of_ne_syncing (by simp) (fun closed => ?_) fun closed u parked => ?_
    all_goals rw [only closed]
    · exact closed.of_seen same
    · rw [(SameParking.of_seen same).parked]
      exact parked

theorem discreet_begin {call : HostCall} (h : begin t call b = .ok host b') : Discreet b host b' := by
  cases call with
  | simulate =>
    obtain ⟨surplus, -, ⟨-, entered⟩ | ⟨-, rfl, rfl⟩⟩ := simulate_cases h
    · exact discreet_enter entered
    · exact .refl (by simp)
  | finish =>
    obtain ⟨marked, rfl⟩ := finish_eq_ok h
    have same : b'.seen (·.inBarrier) = b.seen (·.inBarrier) := preserves_onEngine marked
    refine .of_ne_syncing (by simp) (fun closed => closed.of_seen same) fun _ u parked => ?_
    rw [(SameParking.of_seen same).parked]
    exact parked

/-- Every section but the end of a synchronization. -/
theorem discreet_proceed {before : Host} (idle : ∀ draining, before ≠ .syncing draining)
    (h : proceed t before b = .ok host b') : Discreet b host b' := by
  cases before with
  | outside =>
    obtain ⟨rfl, rfl⟩ := pure_eq_ok.mp h
    exact .refl (by simp)
  | parked draining =>
    rcases parked_cases h with ⟨-, rfl, rfl⟩ | ⟨-, left⟩
    · exact .refl (by simp)
    · exact discreet_leave left
  | syncing draining => exact absurd rfl (idle draining)
  | looping => exact discreet_drainOrEnd h

end Barrier

/-! ## Section 2: Sessions -/

namespace Session

variable {E : Type} [SharedEngine E] {s s' : Session E} {a : Action E} {t u : Nat}

/-- Whether the host thread of slot `t` is inside the synchronization of its client. -/
def isSyncing (s : Session E) (t : Nat) : Bool :=
  match s.host t with
  | .syncing _ => true
  | _ => false

/-- Whether the host thread of slot `t` is inside `drive` at some time in the course of an action: all
along, because its client synchronizes, or because it drives the engine in this action. -/
def isDriving (s : Session E) (t : Nat) (a : Action E) : Bool := s.isSyncing t || s.drives t a

omit [SharedEngine E] in
theorem isSyncing_iff : s.isSyncing t = true ↔ ∃ draining, s.host t = .syncing draining := by
  unfold isSyncing
  cases s.host t <;> simp

/-- Only the host thread that acts can begin to drive the engine. -/
theorem exists_driver (s : Session E) (a : Action E) : ∃ v, ∀ t, s.drives t a = true → t = v := by
  unfold drives
  cases s.entering? a with
  | some v =>
    refine ⟨v, fun t drives => ?_⟩
    dsimp only at drives
    split at drives
    · rw [Bool.and_eq_true, beq_iff_eq] at drives
      exact drives.1.symm
    · cases drives
  | none =>
    cases a with
    | step v =>
      refine ⟨v, fun t drives => ?_⟩
      dsimp only at drives
      split at drives
      · rw [Bool.and_eq_true, beq_iff_eq] at drives
        exact drives.1.symm
      · cases drives
    | _ => exact ⟨0, nofun⟩

/-- Nobody drives the engine in front of a closed barrier. -/
theorem drives_of_closed (closed : s.barrier.Closed) : s.drives t a = false := by
  unfold drives Barrier.leavesDriving
  split
  · rename_i u entered
    rw [closed.park_eq u]
    simp [(closed.parking u).picks_eq]
  · split
    · split
      · simp [closed.picks_eq]
      · rfl
    · rfl

/-- Nobody is selected in front of a closed barrier. -/
theorem selecting?_of_closed (closed : s.barrier.Closed) : s.selecting? a = none := by
  -- what comes before the barrier is looked at leaves it closed
  have after {x : Faulting (Barrier E) Unit}
      (same : ∀ {b}, x s.barrier = .ok () b → b.Closed) : s.barrier.nextDriverAfter x = none := by
    unfold Barrier.nextDriverAfter
    split
    · rename_i b ran
      exact (same ran).nextDriver_eq none
    · rfl
  unfold selecting?
  split
  · exact (closed.parking _).nextDriver_eq _
  · cases a with
    | handle event =>
      dsimp only
      split
      · exact after fun ran => closed.of_seen (Barrier.preserves_change event ran)
      · rfl
    | step t =>
      dsimp only
      split
      · refine after fun {b} ran => ?_
        have same : b.seen (·.inBarrier) = s.barrier.seen (·.inBarrier) :=
          Barrier.preserves_quit (fun _ => rfl) t ran
        exact closed.of_seen same
      · rfl
    | _ => rfl

/-- What an action does about synchronization across cores. -/
structure Discreet (s : Session E) (a : Action E) (s' : Session E) : Prop where
  /-- Only the host thread that acts can begin to synchronize, and closes the barrier then. -/
  begins : ∃ v, ∀ t, s'.isSyncing t = true → s.isSyncing t = true ∨ t = v ∧ s'.barrier.Closed
  /-- A closed barrier stays closed. -/
  closed : s.barrier.Closed → s'.barrier.Closed
  /-- Nobody begins to synchronize in front of a closed barrier. -/
  waits : s.barrier.Closed → ∀ t, s'.isSyncing t = true → s.isSyncing t = true
  /-- Nobody leaves a closed barrier who is not let go. -/
  parked : s.barrier.Closed → ∀ t, s.barrier.isParked? t = some true →
    s'.barrier.isParked? t = some true ∨ s.lettingGo t a = true

omit [SharedEngine E] in
/-- An action that moves no host thread. -/
theorem Discreet.of_still {b : Barrier E} (hosts : ∀ t, s'.host t = s.host t) (barrier : s'.barrier = b)
    (closed : s.barrier.Closed → b.Closed)
    (parked : s.barrier.Closed → ∀ t, s.barrier.isParked? t = some true →
      b.isParked? t = some true ∨ s.lettingGo t a = true) : Discreet s a s' := by
  have same (t : Nat) : s'.isSyncing t = s.isSyncing t := by simp [isSyncing, hosts]
  subst barrier
  refine ⟨⟨0, fun t syncs => .inl ?_⟩, closed, fun _ t syncs => ?_, parked⟩
  all_goals rwa [same] at syncs

omit [SharedEngine E] in
/-- A section of a host thread. -/
theorem Discreet.of_section {host : Host} {b : Barrier E} (discreet : s.barrier.Discreet host b) :
    Discreet s a (Session.setHost t host { s with barrier := b }) := by
  have moved {u : Nat} (syncs : (Session.setHost t host { s with barrier := b }).isSyncing u = true) :
      s.isSyncing u = true ∨ u = t ∧ ∃ draining, host = .syncing draining := by
    obtain ⟨draining, stands⟩ := isSyncing_iff.mp syncs
    rw [host_setHost] at stands
    split at stands
    · rename_i me
      exact .inr ⟨me.1.symm, draining, stands⟩
    · exact .inl (isSyncing_iff.mpr ⟨draining, stands⟩)
  refine ⟨⟨t, fun u syncs => ?_⟩, discreet.closed, fun closed u syncs => ?_,
    fun closed u parked => .inl (discreet.parked closed u parked)⟩
  · rcases moved syncs with before | ⟨me, draining, begun⟩
    · exact .inl before
    · exact .inr ⟨me, discreet.closes draining begun⟩
  · rcases moved syncs with before | ⟨-, draining, begun⟩
    · exact before
    · exact absurd begun (discreet.waits closed draining)

theorem discreet_register {core : Nat} {hasClient : Bool} {setUp : Nat → Faulting E Unit} {slot : Nat}
    (h : Session.register core hasClient setUp s = .ok slot s') :
    Discreet s (.register core hasClient setUp) s' := by
  obtain ⟨-, hosts, seen⟩ := register_eq_ok (·.inBarrier) h
  have same := Barrier.SameParking.of_seen seen
  refine .of_still hosts rfl (fun closed => ?_) fun closed t parked => .inl ?_
  · have grown : Barrier.Closed
        { s.barrier with slots := s.barrier.slots.push { core := core, hasClient := hasClient } } :=
      ⟨closed.syncing, closed.driver⟩
    exact grown.of_seen seen
  · rw [same.parked]
    obtain ⟨slot, found, waits⟩ := Option.map_eq_some_iff.mp parked
    have inside : t < s.barrier.slots.size := (Array.getElem?_eq_some_iff.mp found).1
    simp [Barrier.isParked?, Array.getElem?_push, Nat.ne_of_lt inside, found, waits]

theorem discreet_handle {event : Barrier.Event} {b : Barrier E}
    (h : Barrier.handle event s.barrier = .ok () b) :
    Discreet s (.handle event) { s with barrier := b } := by
  rw [Barrier.handle_eq] at h
  obtain ⟨⟨⟩, b₁, changed, h⟩ := bind_eq_ok.mp h
  have closed₁ (closed : s.barrier.Closed) : b₁.Closed :=
    closed.of_seen (Barrier.preserves_change event changed)
  have only (closed : s.barrier.Closed) : b = b₁ := by
    split at h
    · rw [(closed₁ closed).signal_eq] at h
      cases h
      rfl
    · exact (pure_eq_ok.mp h).2.symm
  refine .of_still (fun _ => rfl) rfl (fun closed => ?_) fun closed t parked => ?_
  · rw [only closed]
    exact closed₁ closed
  · rw [only closed]
    rcases (Barrier.change_eq_ok changed).2.2 t with same | letGo
    · exact .inl (same.trans parked)
    · exact .inr letGo

/-- Every action but the end of a synchronization. -/
theorem discreet_perform (goesOn : ∀ t, a = .step t → s.isSyncing t = false)
    (h : a.perform s = .ok () s') : Discreet s a s' := by
  cases a with
  | register core hasClient setUp =>
    obtain ⟨slot, s₁, registered, h⟩ := bind_eq_ok.mp h
    obtain ⟨-, rfl⟩ := pure_eq_ok.mp h
    exact discreet_register registered
  | handle event =>
    obtain ⟨b, handled, rfl⟩ := onBarrier_eq_ok.mp h
    exact discreet_handle handled
  | start t call =>
    obtain ⟨host, b, began, rfl⟩ := perform_start_eq_ok h
    exact .of_section (Barrier.discreet_begin began)
  | step t =>
    obtain ⟨host, b, proceeded, rfl⟩ := perform_step_eq_ok h
    refine .of_section (Barrier.discreet_proceed (fun draining stands => ?_) proceeded)
    have syncs := isSyncing_iff.mpr ⟨draining, stands⟩
    rw [goesOn t rfl] at syncs
    cases syncs
  | _ =>
    obtain ⟨b, rfl, same⟩ := perform_aside (·.inBarrier) rfl (fun _ _ _ => rfl) h
    refine .of_still (fun _ => rfl) rfl (fun closed => closed.of_seen same) fun _ t parked => .inl ?_
    rw [(Barrier.SameParking.of_seen same).parked]
    exact parked

/-- The end of a synchronization. -/
theorem isSyncing_step (syncs : s.isSyncing t = true) (h : Session.step t s = .ok () s') (u : Nat) :
    s'.isSyncing u = (s.isSyncing u && u != t) := by
  obtain ⟨host, b, proceeded, rfl⟩ := perform_step_eq_ok h
  obtain ⟨draining, stands⟩ := isSyncing_iff.mp syncs
  rw [stands] at proceeded
  obtain ⟨rfl, -⟩ := Barrier.finishDrive_eq_ok proceeded
  unfold isSyncing
  rw [host_setHost]
  by_cases same : t = u
  · subst same
    by_cases inside : t < s.hosts.size
    · cases draining <;> simp [inside, Host.afterRound]
    · have absent : s.host t = .outside := by simp [Session.host, inside]
      cases absent.symm.trans stands
  · simp [same, Ne.symm same, Session.host]

/-- At most one host thread is inside the synchronization of its client, and the barrier is closed
then. -/
structure Exclusive (s : Session E) : Prop where
  /-- The barrier is closed. -/
  closed : ∀ t, s.isSyncing t = true → s.barrier.Closed
  /-- Nobody else synchronizes. -/
  alone : ∀ t u, s.isSyncing t = true → s.isSyncing u = true → t = u

theorem Exclusive.perform (exclusive : Exclusive s) (h : a.perform s = .ok () s') : Exclusive s' := by
  by_cases ends : ∃ t, a = .step t ∧ s.isSyncing t = true
  · obtain ⟨t, rfl, syncs⟩ := ends
    have nobody : ∀ u, s'.isSyncing u = false := by
      intro u
      rw [isSyncing_step syncs h]
      by_cases other : s.isSyncing u = true
      · simp [exclusive.alone u t other syncs]
      · simp [other]
    refine ⟨fun u syncing => ?_, fun u _ syncing => ?_⟩
    all_goals rw [nobody u] at syncing; cases syncing
  · have goesOn (t : Nat) (acts : a = .step t) : s.isSyncing t = false := by
      cases syncs : s.isSyncing t with
      | false => rfl
      | true => exact absurd ⟨t, acts, syncs⟩ ends
    have discreet := discreet_perform goesOn h
    obtain ⟨v, begins⟩ := discreet.begins
    refine ⟨fun t syncs => ?_, fun t u ht hu => ?_⟩
    · rcases begins t syncs with before | ⟨-, closed⟩
      · exact discreet.closed (exclusive.closed t before)
      · exact closed
    · by_cases somebody : ∃ t, s.isSyncing t = true
      · obtain ⟨x, syncs⟩ := somebody
        have closed := exclusive.closed x syncs
        exact exclusive.alone t u (discreet.waits closed t ht) (discreet.waits closed u hu)
      · have begun (t : Nat) (syncs : s'.isSyncing t = true) : t = v := by
          rcases begins t syncs with before | ⟨me, -⟩
          · exact absurd ⟨t, before⟩ somebody
          · exact me
        exact (begun t ht).trans (begun u hu).symm

end Session

/-! ## Section 3: Courses -/

namespace Course

variable {E : Type} [SharedEngine E] {c c' : Course E} {a : Session.Action E}

theorem exclusive_of {engine : E} {as : List (Session.Action E)} (made : Course.of engine as = some c) :
    c.session.Exclusive := by
  refine induction_of (P := fun _ c => c.session.Exclusive) ⟨fun t syncs => ?_, fun t _ syncs => ?_⟩
    (fun _ _ _ _ _ exclusive next => exclusive.perform (after_eq_some next).1) made
  all_goals cases syncs

/-- At most one host thread drives the engine at any moment of any interleaving.  While one of them has
given up the lock to synchronize across cores, no other thread is released from the barrier or selected:
nobody is named as the driver, and a host thread leaves the barrier only if it is let go by a migration
or because the barrier goes out of force. -/
theorem one_driver_at_a_time {engine : E} {as : List (Session.Action E)}
    (made : Course.of engine as = some c) :
    (∀ t u, c.session.isSyncing t = true → c.session.isSyncing u = true → t = u) ∧
    ∀ a c', c.after a = some c' →
      (∀ t u, c.session.isDriving t a = true → c.session.isDriving u a = true → t = u) ∧
      ∀ t, c.session.isSyncing t = true → a ≠ .step t →
        c.session.selecting? a = none ∧ c'.session.barrier.driver = none ∧
        ∀ u, c.session.barrier.isParked? u = some true →
          c'.session.barrier.isParked? u = some true ∨ c.session.lettingGo u a = true := by
  have exclusive := exclusive_of made
  refine ⟨exclusive.alone, fun a c' next => ⟨fun t u ht hu => ?_, fun t syncs other => ?_⟩⟩
  · unfold Session.isDriving at ht hu
    rw [Bool.or_eq_true] at ht hu
    by_cases somebody : ∃ x, c.session.isSyncing x = true
    · -- nobody else drives, so both of them synchronize
      obtain ⟨x, syncs⟩ := somebody
      simp only [Session.drives_of_closed (exclusive.closed x syncs), Bool.false_eq_true, or_false] at ht hu
      exact exclusive.alone t u ht hu
    · obtain ⟨v, driver⟩ := c.session.exists_driver a
      have drives (t : Nat) (h : c.session.isSyncing t = true ∨ c.session.drives t a = true) : t = v := by
        rcases h with syncs | drives
        · exact absurd ⟨t, syncs⟩ somebody
        · exact driver t drives
      exact (drives t ht).trans (drives u hu).symm
  · have closed := exclusive.closed t syncs
    have goesOn (u : Nat) (acts : a = .step u) : c.session.isSyncing u = false := by
      cases also : c.session.isSyncing u with
      | false => rfl
      | true =>
        rw [exclusive.alone t u syncs also] at other
        exact absurd acts other
    have discreet := Session.discreet_perform goesOn (after_eq_some next).1
    exact ⟨Session.selecting?_of_closed closed, (discreet.closed closed).driver, discreet.parked closed⟩

/-- Two slots whose host threads have clients.  The first one drives and synchronizes across cores, while
the second one is parked. -/
def twoClients : List (Session.Action PlannedEngine) :=
  [.register 0 true stocked, .register 1 true stocked, .bind 0 0, .bind 1 1, .handle (.start 0),
    .handle (.start 1), .start 0 .simulate, .start 1 .simulate, .step 0]

/-- The application thread of the driver blocks while its client synchronizes.  All running slots are
parked then, but nobody is released or named. -/
theorem one_driver_at_a_time_of_two : ∃ c c' : Course PlannedEngine,
    Course.of {} twoClients = some c ∧ c.after (.handle (.stall 0)) = some c' ∧
      c.session.isSyncing 0 = true ∧ c.session.barrier.isParked? 1 = some true ∧
      c.session.selecting? (.handle (.stall 0)) = none ∧ c'.session.barrier.driver = none ∧
      (c'.session.barrier.isParked? 1 = some true ∨
        c.session.lettingGo 1 (.handle (.stall 0)) = true) := by
  have computed : (Course.of {} twoClients).any (fun c => (c.after (.handle (.stall 0))).any fun _ =>
      c.session.isSyncing 0 && c.session.barrier.isParked? 1 == some true) = true := by decide +kernel
  obtain ⟨c, made, computed⟩ := (Option.any_eq_true _ _).mp computed
  obtain ⟨c', next, computed⟩ := (Option.any_eq_true _ _).mp computed
  rw [Bool.and_eq_true, beq_iff_eq] at computed
  obtain ⟨syncs, parked⟩ := computed
  obtain ⟨selecting, driver, stays⟩ :=
    ((one_driver_at_a_time made).2 _ c' next).2 0 syncs nofun
  exact ⟨c, c', made, next, syncs, parked, selecting, driver, stays 1 parked⟩

end Course

end CoreTiming
