import CoreTiming.Proofs.Interleaving
import CoreTiming.Proofs.Keeping
import CoreTiming.Window.Shared

/-!
# What a barrier does to the engine behind it

Whatever host threads and application threads do in a barrier, it reaches the engine through few of its
operations: to execute, to learn who runs, and to learn that a stream has ended.  What those keep, however they
end, every section of a host thread and every event keeps (`SharedEngine.Respects`).

A host thread that hands over micro-ops or collects latency, and a client that moves a slot's time, reach one
thread of a window in ways of their own.  The second half says which.
-/

namespace CoreTiming

open Faulting

/-- What the engine does on behalf of a barrier keeps `R`, and only faults of `F` stop it. -/
structure SharedEngine.Respects {E : Type} [SharedEngine E] (R : E → E → Prop) (F : Fault → Prop) : Prop where
  /-- It executes. -/
  execute : ∀ (driver : Nat) (slots : Array Slot), Keeps R F (SharedEngine.execute driver slots : Faulting E Unit)
  /-- It learns who runs. -/
  repartition : ∀ slots : Array Slot, Keeps R F (SharedEngine.repartition slots : Faulting E Unit)
  /-- It learns that a stream has ended. -/
  endOfStream : ∀ t : Nat, Keeps R F (SharedEngine.markEndOfStream t : Faulting E Unit)
  /-- It is asked how many micro-ops are buffered. -/
  surplus : ∀ (engine : E) (t : Nat) (f : Fault), SharedEngine.surplus engine t = .error f → F f
  /-- It is asked whether a thread needs micro-ops. -/
  hasEnough : ∀ (engine : E) (t : Nat) (f : Fault), SharedEngine.hasEnough engine t = .error f → F f
  /-- It is asked whether a thread is drained. -/
  isDrained : ∀ (engine : E) (t : Nat) (f : Fault), SharedEngine.isDrained engine t = .error f → F f
  /-- There may be no slot of a number. -/
  outside : F .indexOutOfBounds

/-! ## Section 1: Sections of a barrier -/

namespace Barrier

variable {E α : Type} [SharedEngine E] {R : E → E → Prop} {F : Fault → Prop}

/-- The operation on a barrier keeps `R` of its engine. -/
abbrev KeepsEngine (R : E → E → Prop) (F : Fault → Prop) (x : Faulting (Barrier E) α) : Prop :=
  Keeps (fun b b' => R b.engine b'.engine) F x

instance [Std.Refl R] : Std.Refl fun b b' : Barrier E => R b.engine b'.engine := ⟨fun _ => Std.Refl.refl _⟩

instance [IsTrans E R] : IsTrans (Barrier E) fun b b' => R b.engine b'.engine :=
  ⟨fun _ _ _ h h' => IsTrans.trans _ _ _ h h'⟩

theorem keepsEngine_onEngine {x : Faulting E α} (h : Keeps R F x) : KeepsEngine R F (onEngine x) :=
  h.zoom fun _ _ kept => kept

variable [Std.Refl R]

omit [SharedEngine E] in
/-- What changes only slots and flags keeps the engine. -/
theorem keepsEngine_modify {f : Barrier E → Barrier E} (same : ∀ b, (f b).engine = b.engine) :
    KeepsEngine R F (modify f) := by
  refine keeps_modify fun b => ?_
  rw [same]
  exact Std.Refl.refl _

omit [SharedEngine E] in
theorem keepsEngine_slot (outside : F .indexOutOfBounds) (b : Barrier E) (t : Nat) :
    KeepsEngine R F (Faulting.ofExcept (b.slot t)) := by
  refine keeps_ofExcept fun f stopped => ?_
  unfold slot at stopped
  split at stopped
  · cases stopped
  · cases stopped
    exact outside

variable [IsTrans E R]

omit [SharedEngine E] in
theorem keepsEngine_select (releaseAll : Bool) (caller : Option Nat) (t : Nat) (r : Release) :
    KeepsEngine R F (select releaseAll caller t r) := by
  unfold select
  by_cases me : caller = some t
  · cases releaseAll with
    | true =>
      simp only [me, ne_eq, not_true_eq_false, if_true, if_false]
      exact keeps_pure _
    | false =>
      simp only [me, ne_eq, not_true_eq_false, if_true, if_false]
      exact Keeps.bind (keepsEngine_modify fun _ => rfl) fun _ => keeps_pure _
  · cases releaseAll with
    | true =>
      simp only [me, ne_eq, not_false_eq_true, if_true, if_false]
      exact Keeps.bind (keepsEngine_modify fun _ => rfl) fun _ => keeps_pure _
    | false =>
      simp only [me, ne_eq, not_false_eq_true, if_true, if_false]
      refine Keeps.bind (keepsEngine_modify fun _ => rfl) fun _ => ?_
      exact Keeps.bind (keepsEngine_modify fun _ => rfl) fun _ => keeps_pure _

variable (respects : SharedEngine.Respects R F)
include respects

theorem keepsEngine_needy (releaseAll : Bool) (caller : Option Nat) (ts : List Nat) (r : Release) :
    KeepsEngine R F (releaseNeedy releaseAll caller ts r) := by
  induction ts generalizing r with
  | nil => exact keeps_pure _
  | cons t rest ih =>
    unfold releaseNeedy
    refine keeps_get.bind fun b => (keepsEngine_slot respects.outside b t).bind fun s => ?_
    dsimp only
    split
    · exact ih _
    refine (keeps_ofExcept (respects.hasEnough b.engine t)).bind fun enough => ?_
    split
    · exact ih _
    refine (keepsEngine_select _ _ _ _).bind fun r => ?_
    split
    · exact ih _
    · exact keeps_pure _

theorem keepsEngine_below (limit : Nat) (releaseAll : Bool) (caller : Option Nat) (ts : List Nat) (r : Release) :
    KeepsEngine R F (releaseBelow limit releaseAll caller ts r) := by
  induction ts generalizing r with
  | nil => exact keeps_pure _
  | cons t rest ih =>
    unfold releaseBelow
    refine keeps_get.bind fun b => (keepsEngine_slot respects.outside b t).bind fun s => ?_
    split
    · exact ih _
    refine (keeps_ofExcept (respects.surplus b.engine t)).bind fun surplus => ?_
    split
    · exact ih _
    refine (keepsEngine_select _ _ _ _).bind fun r => ?_
    split
    · exact ih _
    · exact keeps_pure _

theorem keepsEngine_least (releaseAll : Bool) (caller : Option Nat) (rounds limit : Nat) (r : Release) :
    KeepsEngine R F (releaseLeast releaseAll caller rounds limit r) := by
  induction rounds generalizing limit r with
  | zero => exact keeps_pure _
  | succ rounds ih =>
    unfold releaseLeast
    refine keeps_get.bind fun b => ?_
    split
    · exact keeps_pure _
    · exact (keepsEngine_below respects _ _ _ _ _).bind fun r => ih _ _

theorem keepsEngine_release (releaseAll : Bool) (caller : Option Nat) :
    KeepsEngine R F (release releaseAll caller) := by
  unfold release
  refine Keeps.bind (keepsEngine_modify fun _ => rfl) fun _ => keeps_get.bind fun b => ?_
  refine (keepsEngine_needy respects _ _ _ _).bind fun r => ?_
  exact (keepsEngine_least respects _ _ _ _ _).bind fun _ => keeps_pure _

theorem keepsEngine_signal : KeepsEngine R F (signal : Faulting (Barrier E) Unit) := by
  unfold signal
  refine keeps_get.bind fun b => ?_
  split
  · exact (keepsEngine_release respects _ _).bind fun _ => keeps_pure _
  · exact keeps_pure _

theorem keepsEngine_notifyActive : KeepsEngine R F (notifyActive : Faulting (Barrier E) Unit) := by
  unfold notifyActive
  exact keeps_get.bind fun b => keepsEngine_onEngine (respects.repartition b.slots)

theorem keepsEngine_finishDrive (t : Nat) (draining : Bool) :
    KeepsEngine R F (finishDrive t draining : Faulting (Barrier E) Host) := by
  unfold finishDrive
  refine Keeps.bind (keepsEngine_modify fun _ => rfl) fun _ => ?_
  exact (keepsEngine_release respects _ _).bind fun _ => keeps_pure _

theorem keepsEngine_drive (t : Nat) (draining : Bool) :
    KeepsEngine R F (drive t draining : Faulting (Barrier E) Host) := by
  unfold drive
  refine keeps_get.bind fun b => (keepsEngine_onEngine (respects.execute t b.slots)).bind fun _ => ?_
  refine Keeps.bind (keepsEngine_modify fun _ => rfl) fun _ => keeps_get.bind fun b => ?_
  refine (keepsEngine_slot respects.outside b t).bind fun s => ?_
  split
  · exact Keeps.bind (keepsEngine_modify fun _ => rfl) fun _ => keeps_pure _
  · exact keepsEngine_finishDrive respects t draining

theorem keepsEngine_leave (t : Nat) (draining : Bool) :
    KeepsEngine R F (leave t draining : Faulting (Barrier E) Host) := by
  unfold leave
  refine keeps_get.bind fun b => ?_
  split
  · exact keepsEngine_drive respects t draining
  · exact keeps_pure _

theorem keepsEngine_park (t : Nat) : KeepsEngine R F (park t : Faulting (Barrier E) Unit) := by
  unfold park
  refine Keeps.bind (keepsEngine_modify fun _ => rfl) fun _ => keeps_get.bind fun b => ?_
  split
  · refine (keepsEngine_release respects _ _).bind fun me => ?_
    split
    · exact keepsEngine_modify fun _ => rfl
    · exact keeps_pure _
  · exact keeps_pure _

theorem keepsEngine_enter (t : Nat) (draining : Bool) :
    KeepsEngine R F (enter t draining : Faulting (Barrier E) Host) := by
  rw [enter_eq]
  refine keeps_get.bind fun b => ?_
  split
  · exact keeps_pure _
  refine (keepsEngine_park respects t).bind fun _ => keeps_get.bind fun b => ?_
  refine (keepsEngine_slot respects.outside b t).bind fun s => ?_
  split
  · exact keeps_pure _
  · exact keepsEngine_leave respects t draining

theorem keepsEngine_drainOrEnd (t : Nat) : KeepsEngine R F (drainOrEnd t : Faulting (Barrier E) Host) := by
  unfold drainOrEnd
  refine keeps_get.bind fun b => (keepsEngine_slot respects.outside b t).bind fun s => ?_
  refine (keeps_ofExcept (respects.isDrained b.engine t)).bind fun drained => ?_
  split
  · exact keepsEngine_enter respects t true
  · refine Keeps.bind (keepsEngine_modify fun _ => rfl) fun _ => ?_
    refine (keepsEngine_notifyActive respects).bind fun _ => ?_
    exact (keepsEngine_signal respects).bind fun _ => keeps_pure _

theorem keepsEngine_begin (t : Nat) (call : HostCall) :
    KeepsEngine R F (begin t call : Faulting (Barrier E) Host) := by
  cases call with
  | simulate =>
    unfold begin
    refine keeps_get.bind fun b => (keeps_ofExcept (respects.surplus b.engine t)).bind fun surplus => ?_
    split
    · exact keepsEngine_enter respects t false
    · exact keeps_pure _
  | finish => exact (keepsEngine_onEngine (respects.endOfStream t)).bind fun _ => keeps_pure _

theorem keepsEngine_proceed (t : Nat) (host : Host) :
    KeepsEngine R F (proceed t host : Faulting (Barrier E) Host) := by
  cases host with
  | outside => exact keeps_pure _
  | parked draining =>
    unfold proceed
    refine keeps_get.bind fun b => (keepsEngine_slot respects.outside b t).bind fun s => ?_
    split
    · exact keeps_pure _
    · exact keepsEngine_leave respects t draining
  | syncing draining => exact keepsEngine_finishDrive respects t draining
  | looping => exact keepsEngine_drainOrEnd respects t

theorem keepsEngine_change (event : Event) : KeepsEngine R F (change event : Faulting (Barrier E) Unit) := by
  have apps : ∀ (app : Nat) (f : Slot → Slot), KeepsEngine R F (changeApp app f : Faulting (Barrier E) Unit) := by
    intro app f
    unfold changeApp
    refine keeps_get.bind fun b => ?_
    split
    · exact Keeps.bind (keepsEngine_modify fun _ => rfl) fun _ => keepsEngine_notifyActive respects
    · exact keeps_pure _
  cases event with
  | start app | exit app | stall app | resume app => exact apps app _
  | migrate app core =>
    refine Keeps.bind ?_ fun _ => ?_
    · unfold vacate
      refine keeps_get.bind fun b => ?_
      split
      · refine Keeps.bind (keepsEngine_modify fun _ => rfl) fun _ => ?_
        exact (keepsEngine_notifyActive respects).bind fun _ => keepsEngine_modify fun _ => rfl
      · exact keeps_pure _
    · unfold occupy
      refine keeps_get.bind fun b => ?_
      split
      · exact Keeps.bind (keepsEngine_modify fun _ => rfl) fun _ => keepsEngine_notifyActive respects
      · exact keeps_pure _
  | enable | disable => exact keepsEngine_modify fun _ => rfl

theorem keepsEngine_handle (event : Event) : KeepsEngine R F (handle event : Faulting (Barrier E) Unit) := by
  rw [handle_eq]
  refine (keepsEngine_change respects event).bind fun _ => ?_
  split
  · exact keepsEngine_signal respects
  · exact keeps_pure _

end Barrier

/-! ## Section 2: Windows behind a barrier -/

/-- A thread is told of `n` instructions and of time `t`: of all that it has retired and not reported, and of so
much time that a clock that showed its time shows its new time once `t` is added. -/
structure Thread.Informed (n : Nat) (t : Time) (th th' : Thread) : Prop where
  /-- It is told of what it has not reported. -/
  instructions : n = th.retired - th.reported
  /-- Everything is reported now. -/
  reported : th'.reported = th.retired
  /-- Nothing is retired meanwhile. -/
  retired : th'.retired = th.retired
  /-- The time that is added makes up for the time that has passed. -/
  time : ∀ clock : Clock, clock.now = th.now → (clock.addLatency t).now = th'.now

/-- A clock that is moved by the time it lags behind another one shows the later of both times. -/
theorem Clock.now_addLatency_sub (clock : Clock) (now : Time) :
    (clock.addLatency (now - clock.now)).now = max clock.now now := by
  have bound := now.toNat_le_limit
  have bound' := clock.now.toNat_le_limit
  apply Time.ext_toNat
  show (clock.now + (now - clock.now)).toNat = _
  rw [Time.toNat_add, Time.toNat_sub, Time.toNat_max]
  omega

theorem Clock.now_addLatency_zero (clock : Clock) : (clock.addLatency 0).now = clock.now := by
  have bound := clock.now.toNat_le_limit
  apply Time.ext_toNat
  show (clock.now + 0).toNat = _
  rw [Time.toNat_add, Time.toNat_zero]
  omega

namespace Window

variable {M : Type} {w v u : Window M} {t : Nat} {P : Thread → Thread → Prop}

/-- Thread `t` changes as `P` says, and the others are not disturbed. -/
structure Changes (t : Nat) (P : Thread → Thread → Prop) (w v : Window M) : Prop where
  /-- What becomes of thread `t`. -/
  here : ∀ l, w.lanes[t]? = some l → ∃ l', v.lanes[t]? = some l' ∧ P l.thread l'.thread
  /-- What becomes of the others. -/
  others : ∀ i l, i ≠ t → w.lanes[i]? = some l → ∃ l', v.lanes[i]? = some l' ∧ l.thread.Undisturbed l'.thread

theorem Undisturbed.then_changes (h : w.Undisturbed u) (h' : u.Changes t P v) :
    w.Changes t (fun th th' => ∃ th₁, th.Undisturbed th₁ ∧ P th₁ th') v := by
  refine ⟨fun l found => ?_, fun i l other found => ?_⟩
  · obtain ⟨l₁, found₁, kept⟩ := h t l found
    obtain ⟨l', found', changed⟩ := h'.here l₁ found₁
    exact ⟨l', found', l₁.thread, kept, changed⟩
  · obtain ⟨l₁, found₁, kept⟩ := h i l found
    obtain ⟨l', found', kept'⟩ := h'.others i l₁ other found₁
    exact ⟨l', found', IsTrans.trans _ _ _ kept kept'⟩

theorem Changes.setLane {l l' : Lane M} (found : w.lanes[t]? = some l) (changed : P l.thread l'.thread) :
    w.Changes t P { w with lanes := w.lanes.setIfInBounds t l' } := by
  refine ⟨fun lane at_t => ?_, fun i lane other at_i => ⟨lane, ?_, Std.Refl.refl _⟩⟩
  · obtain rfl := Option.some.inj (found.symm.trans at_t)
    exact ⟨l', Array.getElem?_setIfInBounds_self_of_lt (Array.getElem?_eq_some_iff.mp found).1, changed⟩
  · dsimp only
    rw [Array.getElem?_setIfInBounds_ne (Ne.symm other)]
    exact at_i

variable [MemorySystem M]

theorem changes_returnLatency {inWakeup : Bool} {n : Nat} {latency : Time}
    (h : returnLatency t inWakeup w = .ok (n, latency) v) : w.Changes t (Thread.Informed n latency) v := by
  unfold returnLatency at h
  rw [get_bind] at h
  obtain ⟨l, th, found, took, rfl⟩ := onThread_eq_ok.mp h
  rw [modifyGet_eq_ok] at took
  simp only [Prod.mk.injEq] at took
  obtain ⟨⟨rfl, rfl⟩, rfl⟩ := took
  refine .setLane found ⟨rfl, rfl, rfl, fun clock same => ?_⟩
  cases inWakeup with
  | true =>
    simp only [if_true]
    rw [clock.now_addLatency_zero, same]
  | false =>
    simp only [Bool.false_eq_true, if_false]
    rw [← same, clock.now_addLatency_sub]

theorem returnLatency_of_error {inWakeup : Bool} {f : Fault} (h : returnLatency t inWakeup w = .error f v) :
    v = w := by
  unfold returnLatency at h
  rw [get_bind] at h
  cases found : w.lanes[t]? with
  | none =>
    unfold onThread onLane at h
    rw [dif_neg (by simpa using found)] at h
    cases h
    rfl
  | some l =>
    obtain ⟨th, stopped⟩ := onThread_eq_error found h
    cases stopped

theorem changes_synchronize {time : Time} (h : synchronize t time w = .ok () v) :
    w.Changes t (fun th th' => th' = { th with now := time }) v := by
  unfold synchronize at h
  obtain ⟨⟨⟩, w₁, moved, h⟩ := bind_eq_ok.mp h
  obtain ⟨l, found, rfl⟩ := modifyThread_eq_ok.mp moved
  have changed : w.Changes t (fun th th' => th' = { th with now := time })
      { w with lanes := w.lanes.setIfInBounds t { l with thread := { l.thread with now := time } } } :=
    .setLane found rfl
  rw [← modify_eq_ok.mp h]
  dsimp only
  split
  · exact ⟨changed.here, changed.others⟩
  · exact changed

theorem synchronize_ne_error {l : Lane M} {time : Time} {f : Fault} (found : w.lanes[t]? = some l) :
    synchronize t time w ≠ .error f v := by
  intro h
  unfold synchronize at h
  rcases bind_eq_error.mp h with stopped | ⟨_, _, -, h⟩
  · exact modifyThread_ne_error found stopped
  · exact modify_ne_error h

omit [MemorySystem M] in
theorem keeps_initializeThread (i : Nat) (memory : M) (predictor : Option Predictor) :
    Keeps Undisturbed (fun _ => True) (initializeThread i memory predictor) := by
  unfold initializeThread
  have rest : ∀ w : Window M, Keeps Undisturbed (fun _ => True) (do
      let thread ← Faulting.ofExcept
        (Thread.new w.config.core.windowSize w.config.window.loadHistogram predictor)
      modify fun w : Window M => { w with lanes := w.lanes.push { thread, memory } }) := by
    intro w
    refine (keeps_ofExcept fun _ _ => trivial).bind fun thread => keeps_modify fun w i l found => ?_
    refine ⟨l, ?_, Std.Refl.refl _⟩
    have inside := (Array.getElem?_eq_some_iff.mp found).1
    dsimp only
    rw [Array.getElem?_push, if_neg (by omega)]
    exact found
  refine keeps_get.bind fun w => ?_
  split
  · exact (keeps_throw trivial).bind fun _ => rest w
  · exact rest w

theorem respects_undisturbed (M : Type) [MemorySystem M] :
    SharedEngine.Respects (E := Window M) Undisturbed (Stops M) where
  execute _ _ := keepsOn_run _ _ _
  repartition _ := keeps_modify fun _ => .of_lanes rfl
  endOfStream := keepsOn_markEndOfStream
  surplus w t f stopped := .inl
    (((buffers_thread w t).bind fun _ => Except.buffers_pure _ : Except.Buffers (w.surplus t)) f stopped)
  hasEnough w t f stopped := .inl
    (((buffers_thread w t).bind fun _ => Except.buffers_pure _ : Except.Buffers (w.hasEnough t)) f stopped)
  isDrained w t f stopped := .inl
    (((buffers_thread w t).bind fun _ => Except.buffers_pure _ : Except.Buffers (w.isDrained t)) f stopped)
  outside := .inl rfl

end Window

namespace Barrier

variable {M : Type} [MemorySystem M] {t n : Nat} {time : Time} {f : Fault} {us : List OpInstance}
  {b b' : Barrier (Window M)}

theorem changes_returnLatency (h : returnLatency t b = .ok (n, time) b') :
    b.engine.Changes t (Thread.Informed n time) b'.engine := by
  unfold returnLatency at h
  rw [get_bind] at h
  obtain ⟨s, _, found, h⟩ := bind_eq_ok.mp h
  obtain ⟨-, rfl⟩ := ofExcept_eq_ok.mp found
  obtain ⟨w, told, rfl⟩ := zoom_eq_ok.mp h
  exact Window.changes_returnLatency told

theorem returnLatency_of_error (h : returnLatency t b = .error f b') : b' = b := by
  unfold returnLatency at h
  rw [get_bind] at h
  rcases bind_eq_error.mp h with stopped | ⟨s, _, found, h⟩
  · cases missing : b.slot t with
    | ok s =>
      rw [missing] at stopped
      cases stopped
    | error e =>
      rw [missing] at stopped
      cases stopped
      rfl
  · obtain ⟨-, rfl⟩ := ofExcept_eq_ok.mp found
    unfold onEngine Faulting.zoom at h
    dsimp only at h
    cases told : SharedEngine.returnLatency t s.inWakeup b.engine with
    | ok r w =>
      simp only [told] at h
      cases h
    | error e w =>
      simp only [told] at h
      cases h
      rw [Window.returnLatency_of_error told]

/-- A thread that gets micro-ops goes on undisturbed, and then is told. -/
theorem changes_push (h : push t us b = .ok (n, time) b') :
    b.engine.Changes t (fun th th' => ∃ th₁, th.Undisturbed th₁ ∧ Thread.Informed n time th₁ th') b'.engine := by
  unfold push at h
  rw [get_bind] at h
  split at h
  · obtain ⟨⟨⟩, b₁, queued, h⟩ := bind_eq_ok.mp h
    exact ((keepsEngine_onEngine (Window.keeps_push t us)).done queued).then_changes (changes_returnLatency h)
  · exact (Std.Refl.refl b.engine : b.engine.Undisturbed b.engine).then_changes (changes_returnLatency h)

theorem undisturbed_push_of_error (h : push t us b = .error f b') : b.engine.Undisturbed b'.engine := by
  unfold push at h
  rw [get_bind] at h
  split at h
  · rcases bind_eq_error.mp h with stopped | ⟨⟨⟩, b₁, queued, h⟩
    · exact ((keepsEngine_onEngine (Window.keeps_push t us)).stopped stopped).1
    · rw [returnLatency_of_error h]
      exact (keepsEngine_onEngine (Window.keeps_push t us)).done queued
  · rw [returnLatency_of_error h]
    exact Std.Refl.refl _

theorem changes_synchronize (h : synchronize t time b = .ok () b') :
    b.engine.Changes t (fun th th' => th' = { th with now := time }) b'.engine := by
  unfold synchronize at h
  rw [modify_bind] at h
  obtain ⟨w, moved, rfl⟩ := zoom_eq_ok.mp h
  exact Window.changes_synchronize moved

theorem synchronize_ne_error {l : Lane M} (found : b.engine.lanes[t]? = some l) :
    synchronize t time b ≠ .error f b' := by
  intro h
  unfold synchronize at h
  rw [modify_bind] at h
  obtain ⟨w, stopped⟩ := zoom_eq_error h
  exact Window.synchronize_ne_error found stopped

/-- The slot that is added is new to the window, and its thread has been told nothing. -/
theorem register_fresh {core : Nat} {hasClient : Bool} {memory : M} {predictor : Option Predictor}
    (h : register core hasClient (fun t => Window.initializeThread t memory predictor) b = .ok t b') :
    b.engine.lanes[t]? = none ∧ ∃ l, b'.engine.lanes[t]? = some l ∧ l.thread.now = 0 ∧ l.thread.reported = 0 := by
  unfold register at h
  rw [get_bind, modify_bind] at h
  obtain ⟨⟨⟩, b₁, prepared, h⟩ := bind_eq_ok.mp h
  obtain ⟨⟨⟩, b₂, told, h⟩ := bind_eq_ok.mp h
  obtain ⟨rfl, rfl⟩ := pure_eq_ok.mp h
  obtain ⟨w, set, rfl⟩ := onEngine_eq_ok.mp prepared
  obtain ⟨next, th, made, rfl⟩ := Window.initializeThread_eq_ok set
  obtain ⟨capacity, rfl⟩ := Thread.new_eq_ok made
  have kept := (keepsEngine_notifyActive (Window.respects_undisturbed M)).done told
  dsimp only at next
  rw [next]
  obtain ⟨l, found, same⟩ := kept b.engine.lanes.size _ Array.getElem?_push_size
  exact ⟨Array.getElem?_eq_none le_rfl, l, found, same.now, same.reported⟩

end Barrier

end CoreTiming
