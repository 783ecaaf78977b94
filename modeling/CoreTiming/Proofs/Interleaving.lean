import CoreTiming.Barrier.Calls
import CoreTiming.Proofs.Outcome

/-!
# Interleavings of host threads

Host threads and the clients of a barrier take turns at its lock.  An `Action` is what one of them does
while it holds the lock: the first or the next section of a call of a host thread, or a call that takes
effect at once.  An interleaving is a list of actions each of which is allowed where it stands.

The second half of this module says what the parts of an action do to the parking of the slots and to the
choice of the driver.
-/

namespace CoreTiming

open Faulting

/-! ## Section 1: Actions -/

namespace Barrier

/-- What an event does before the barrier is looked at again. -/
def change {E : Type} [SharedEngine E] : Event → Faulting (Barrier E) Unit
  | .start app => changeApp app fun s => { s with running := true }
  | .exit app | .stall app => changeApp app fun s => { s with running := false }
  | .resume app => changeApp app fun s => { s with inWakeup := true, running := true }
  | .migrate app core => do
    vacate app
    occupy app core
  | .enable => modify fun b => { b with enabled := true }
  | .disable =>
    modify fun b =>
      { b with enabled := false, slots := b.slots.map fun s => { s with inBarrier := false } }

/-- Whether the barrier is looked at again after an event. -/
def Event.signals : Event → Bool
  | .exit _ | .stall _ | .resume _ | .migrate _ _ => true
  | .start _ | .enable | .disable => false

theorem handle_eq {E : Type} [SharedEngine E] (event : Event) :
    (handle event : Faulting (Barrier E) Unit) =
      (do change event; if event.signals then signal) := by
  cases event <;> simp [handle, change, Event.signals]

end Barrier

namespace Session

/-- What happens to a session while one thread holds its lock. -/
inductive Action (E : Type)
  /-- A slot and its host thread are added. -/
  | register (core : Nat) (hasClient : Bool) (setUp : Nat → Faulting E Unit)
  /-- An application thread is bound to the slot of a core. -/
  | bind (core app : Nat)
  /-- Micro-ops are handed to the engine. -/
  | push (t : Nat) (us : List OpInstance)
  /-- Latency is collected. -/
  | returnLatency (t : Nat)
  /-- The time of a slot moves. -/
  | synchronize (t : Nat) (time : Time)
  /-- The times of all slots move. -/
  | beginRegion (time : Time)
  /-- Something happens to an application thread, or to the barrier as a whole. -/
  | handle (event : Barrier.Event)
  /-- The host thread of slot `t` begins a call. -/
  | start (t : Nat) (call : Barrier.HostCall)
  /-- The host thread of slot `t`, which is in a call, goes on. -/
  | step (t : Nat)

variable {E : Type} [SharedEngine E]

/-- Whether no host thread keeps the lock from one section to the next. -/
def lockFree (s : Session E) : Bool := s.hosts.all (· != .looping)

namespace Action

/-- Whether the action can happen: calls begin on idle slots, host threads go on when they are in a call,
and one that has kept the lock goes first. -/
def isAllowed (s : Session E) : Action E → Bool
  | .start t _ => s.lockFree && t < s.hosts.size && s.host t == .outside
  | .step t => (s.lockFree || s.host t == .looping) && s.host t != .outside
  | _ => s.lockFree

/-- Carries out the action. -/
def perform : Action E → Faulting (Session E) Unit
  | .register core hasClient setUp => do let _ ← Session.register core hasClient setUp
  | .bind core app => onBarrier do let _ ← Barrier.bind core app
  | .push t us => onBarrier do let _ ← Barrier.checked t (Barrier.push t us)
  | .returnLatency t => onBarrier do let _ ← Barrier.checked t (Barrier.returnLatency t)
  | .synchronize t time => onBarrier do let _ ← Barrier.checked t (Barrier.synchronize t time)
  | .beginRegion time => onBarrier (Barrier.beginRegion time)
  | .handle event => onBarrier (Barrier.handle event)
  | .start t call => Session.start t call
  | .step t => Session.step t

/-- Whether the action is a call beside the barrier: it concerns neither who runs nor who is parked. -/
def isAside : Action E → Bool
  | .bind _ _ | .push _ _ | .returnLatency _ | .synchronize _ _ | .beginRegion _ => true
  | .register _ _ _ | .handle _ | .start _ _ | .step _ => false

end Action

/-- The host thread that enters the barrier in the course of an action: one that begins to simulate with
enough micro-ops, or one that has to go on draining. -/
def entering? (s : Session E) : Action E → Option Nat
  | .start t .simulate =>
    match SharedEngine.surplus s.barrier.engine t with
    | .ok surplus => if Barrier.simulateThreshold < surplus && s.barrier.enabled then some t else none
    | .error _ => none
  | .step t =>
    match s.host t, s.barrier.slot t, SharedEngine.isDrained s.barrier.engine t with
    | .looping, .ok slot, .ok drained =>
      if s.barrier.enabled && slot.running && !drained then some t else none
    | _, _, _ => none
  | _ => none

end Session

/-! ## Section 2: Who is parked -/

namespace Barrier

variable {E : Type} {t u : Nat} {b b' b'' : Barrier E}

/-- Whether the host thread of slot `t` is parked, if there is such a slot. -/
def isParked? (b : Barrier E) (t : Nat) : Option Bool := b.slots[t]?.map (·.inBarrier)

/-- The same slots are parked, and the driver is the same. -/
structure SameParking (b b' : Barrier E) : Prop where
  /-- No slot has come or gone. -/
  size : b'.slots.size = b.slots.size
  /-- Whoever is parked was parked. -/
  parked : ∀ t, b'.isParked? t = b.isParked? t
  /-- The driver is the same. -/
  driver : b'.driver = b.driver

theorem SameParking.refl (b : Barrier E) : SameParking b b := ⟨rfl, fun _ => rfl, rfl⟩

theorem isParked?_modifySlot (t u : Nat) (f : Slot → Slot) (b : Barrier E) :
    (b.modifySlot t f).isParked? u =
      if t = u then b.slots[u]?.map fun s => (f s).inBarrier else b.isParked? u := by
  simp only [isParked?, modifySlot, Array.getElem?_modify]
  split
  · rw [Option.map_map]
    rfl
  · rfl

/-- What can be seen of a barrier: whether the driver synchronizes across cores, who the driver is, and
what `view` shows of each slot. -/
def seen {γ : Type} (view : Slot → γ) (b : Barrier E) : Bool × Option Nat × Array γ :=
  (b.syncing, b.driver, b.slots.map view)

theorem seen_modifySlot {γ : Type} {view : Slot → γ} {f : Slot → Slot} (same : ∀ s, view (f s) = view s)
    (t : Nat) (b : Barrier E) : seen view (b.modifySlot t f) = seen view b := by
  simp only [seen, modifySlot, Prod.mk.injEq, true_and]
  apply Array.ext_getElem?
  intro u
  rw [Array.getElem?_map, Array.getElem?_map, Array.getElem?_modify]
  split
  · rw [Option.map_map, show view ∘ f = view from funext same]
  · rfl

theorem SameParking.of_seen (h : seen (·.inBarrier) b' = seen (·.inBarrier) b) : SameParking b b' := by
  simp only [seen, Prod.mk.injEq] at h
  obtain ⟨-, driver, slots⟩ := h
  refine ⟨?_, fun t => ?_, driver⟩
  · simpa using congrArg Array.size slots
  · simpa [isParked?] using congrArg (fun flags => flags[t]?) slots

theorem isParked?_wake_self (t : Nat) (b : Barrier E) (h : b.isParked? t ≠ none) :
    (b.wake t).isParked? t = some false := by
  rw [wake, isParked?_modifySlot, if_pos rfl]
  unfold isParked? at h
  cases found : b.slots[t]? with
  | none => simp [found] at h
  | some s => rfl

theorem isParked?_wake_ne (h : t ≠ u) (b : Barrier E) : (b.wake t).isParked? u = b.isParked? u := by
  rw [wake, isParked?_modifySlot, if_neg h]

end Barrier

/-! ## Section 3: The parts of entering -/

namespace Barrier

variable {E : Type} [SharedEngine E] {t u : Nat} {b b' : Barrier E}

/-- The barrier once the host thread of slot `t` has parked. -/
def parking (t : Nat) (b : Barrier E) : Barrier E := b.modifySlot t fun s => { s with inBarrier := true }

/-- The host thread of slot `t` parks, and releases somebody if that completes the barrier. -/
def park (t : Nat) : Faulting (Barrier E) Unit := do
  modify (parking t)
  if (← get).isReached then
    if ← release false (some t) then modify (wake t)

theorem enter_eq (t : Nat) (draining : Bool) :
    (enter t draining : Faulting (Barrier E) Host) =
      (do
        if !(← get).enabled then pure (.afterRound draining)
        else
          park t
          if (← Faulting.ofExcept ((← get).slot t)).inBarrier then pure (.parked draining)
          else leave t draining) := by
  unfold enter park parking
  funext b
  simp only [get_bind]
  split
  · rfl
  · simp only [bind_assoc, modify_bind, get_bind]
    split
    · simp only [bind_assoc]
      refine congrFun (bind_congr fun me => ?_) _
      cases me <;> rfl
    · rfl

end Barrier

/-! ## Section 4: Releasing -/

namespace Barrier

variable {E : Type} [SharedEngine E] {releaseAll : Bool} {caller : Option Nat} {b b' b'' : Barrier E}
  {r r' r'' : Release} {t u : Nat}

omit [SharedEngine E] in
theorem slot_eq_ok {s : Slot} : b.slot t = .ok s ↔ b.slots[t]? = some s := by
  unfold slot
  cases b.slots[t]? <;> simp

/-- What a release makes of the parking of the slots and of the driver. -/
structure Releases (releaseAll : Bool) (caller : Option Nat) (b : Barrier E) (r : Release)
    (b' : Barrier E) (r' : Release) : Prop where
  /-- No slot comes or goes. -/
  size : b'.slots.size = b.slots.size
  /-- Nobody is parked who was not. -/
  parked : ∀ u, b'.isParked? u = some true → b.isParked? u = some true
  /-- The caller is left to clear its own flag. -/
  callers : ∀ u, caller = some u → b'.isParked? u = b.isParked? u
  /-- Once selected, the caller stays so. -/
  keeps : r.selectsCaller = true → r'.selectsCaller = true
  /-- A caller that is selected is parked. -/
  tells : r'.selectsCaller = true → r.selectsCaller = true ∨
    ∃ t, caller = some t ∧ b.isParked? t = some true
  /-- Unless all that lack micro-ops are released, the driver is whoever was selected last: a parked slot,
  which is told so if it is the caller. -/
  driver : b'.driver = b.driver ∨ releaseAll = false ∧ ∃ t, b.isParked? t = some true ∧
    b'.driver = some t ∧ (caller = some t → r'.selectsCaller = true)

omit [SharedEngine E] in
theorem Releases.refl (h : r'.selectsCaller = r.selectsCaller) :
    Releases releaseAll caller b r b r' :=
  ⟨rfl, fun _ h => h, fun _ _ => rfl, fun h' => h.trans h', fun h' => .inl (h.symm.trans h'), .inl rfl⟩

omit [SharedEngine E] in
theorem Releases.trans (h : Releases releaseAll caller b r b' r')
    (h' : Releases releaseAll caller b' r' b'' r'') : Releases releaseAll caller b r b'' r'' where
  size := h'.size.trans h.size
  parked u hu := h.parked u (h'.parked u hu)
  callers u hu := (h'.callers u hu).trans (h.callers u hu)
  keeps hr := h'.keeps (h.keeps hr)
  tells hr := by
    rcases h'.tells hr with before | ⟨t, me, parked⟩
    · exact h.tells before
    · exact .inr ⟨t, me, h.parked t parked⟩
  driver := by
    rcases h'.driver with same | ⟨one, t, parked, driver, told⟩
    · rw [same]
      rcases h.driver with same | ⟨one, t, parked, driver, told⟩
      · exact .inl same
      · exact .inr ⟨one, t, parked, driver, fun me => h'.keeps (told me)⟩
    · exact .inr ⟨one, t, h.parked t parked, driver, told⟩

omit [SharedEngine E] in
theorem releases_select (parked : b.isParked? t = some true)
    (h : select releaseAll caller t r b = .ok r' b') : Releases releaseAll caller b r b' r' := by
  -- the slot is woken unless it is the caller
  have woken : ∀ u, caller ≠ some t → (b.wake t).isParked? u = some true → b.isParked? u = some true := by
    intro u _ hu
    by_cases same : t = u
    · rwa [← same]
    · rwa [isParked?_wake_ne same] at hu
  have others : ∀ u, caller ≠ some t → caller = some u → (b.wake t).isParked? u = b.isParked? u := by
    intro u other me
    refine isParked?_wake_ne ?_ b
    rintro rfl
    exact other me
  have size : (b.wake t).slots.size = b.slots.size := by simp [wake, modifySlot]
  unfold select at h
  by_cases me : caller = some t
  · simp only [me, ne_eq, not_true_eq_false, if_true, if_false] at h
    cases releaseAll with
    | true =>
      obtain ⟨rfl, rfl⟩ := pure_eq_ok.mp h
      exact ⟨rfl, fun _ h => h, fun _ _ => rfl, fun _ => rfl, fun _ => .inr ⟨t, me, parked⟩, .inl rfl⟩
    | false =>
      obtain ⟨rfl, rfl⟩ := pure_eq_ok.mp h
      exact ⟨rfl, fun _ h => h, fun _ _ => rfl, fun _ => rfl, fun _ => .inr ⟨t, me, parked⟩,
        .inr ⟨rfl, t, parked, rfl, fun _ => rfl⟩⟩
  · simp only [me, ne_eq, not_false_eq_true, if_true, if_false, modify_bind] at h
    cases releaseAll with
    | true =>
      obtain ⟨rfl, rfl⟩ := pure_eq_ok.mp h
      exact ⟨size, fun u => woken u me, fun u => others u me, fun h => h, .inl, .inl rfl⟩
    | false =>
      obtain ⟨rfl, rfl⟩ := pure_eq_ok.mp h
      exact ⟨size, fun u => woken u me, fun u => others u me, fun h => h, .inl,
        .inr ⟨rfl, t, parked, rfl, fun same => absurd same me⟩⟩

omit [SharedEngine E] in
/-- How many slots are active does not matter for who is selected. -/
theorem Releases.of_counted {active : Nat}
    (h : Releases releaseAll caller b { r with active } b' r') :
    Releases releaseAll caller b r b' r' :=
  ⟨h.size, h.parked, h.callers, h.keeps, h.tells, h.driver⟩

/-- What becomes of slot `t` when those that lack micro-ops are selected, and `rest` is still to come. -/
inductive NeedyStep (releaseAll : Bool) (caller : Option Nat) (t : Nat) (rest : List Nat) (r : Release)
    (b : Barrier E) (r' : Release) (b' : Barrier E) : Prop
  /-- It is not parked, and counts if it runs. -/
  | out {s : Slot} (found : b.slots[t]? = some s) (free : s.inBarrier = false)
      (others : releaseNeedy releaseAll caller rest { r with active := r.active + (if s.running then 1 else 0) } b =
        .ok r' b') : NeedyStep releaseAll caller t rest r b r' b'
  /-- It has enough micro-ops. -/
  | supplied (others : releaseNeedy releaseAll caller rest r b = .ok r' b') :
      NeedyStep releaseAll caller t rest r b r' b'
  /-- It is selected, and perhaps others after it. -/
  | selected {s : Slot} {r₁ : Release} {b₁ : Barrier E} (found : b.slots[t]? = some s) (parked : s.inBarrier = true)
      (first : select releaseAll caller t { r with active := r.active + (if s.running then 1 else 0) } b = .ok r₁ b₁)
      (others : (r' = r₁ ∧ b' = b₁) ∨ releaseNeedy releaseAll caller rest r₁ b₁ = .ok r' b') :
      NeedyStep releaseAll caller t rest r b r' b'

theorem needyStep_of_releaseNeedy {rest : List Nat} (h : releaseNeedy releaseAll caller (t :: rest) r b = .ok r' b') :
    NeedyStep releaseAll caller t rest r b r' b' := by
  unfold releaseNeedy at h
  rw [get_bind] at h
  simp only [bind_eq_ok, ofExcept_eq_ok] at h
  obtain ⟨s, _, ⟨found, rfl⟩, h⟩ := h
  rw [slot_eq_ok] at found
  split at h
  · rename_i free
    exact .out found (by simpa using free) h
  · rename_i parked
    obtain ⟨enough, _, answered, h⟩ := bind_eq_ok.mp h
    obtain ⟨-, rfl⟩ := ofExcept_eq_ok.mp answered
    split at h
    · exact .supplied h
    · obtain ⟨r₁, b₁, first, h⟩ := bind_eq_ok.mp h
      refine .selected found (by simpa using parked) first ?_
      split at h
      · exact .inr h
      · obtain ⟨rfl, rfl⟩ := pure_eq_ok.mp h
        exact .inl ⟨rfl, rfl⟩

/-- What becomes of slot `t` when those below a limit are selected, and `rest` is still to come. -/
inductive BelowStep (limit : Nat) (releaseAll : Bool) (caller : Option Nat) (t : Nat) (rest : List Nat) (r : Release)
    (b : Barrier E) (r' : Release) (b' : Barrier E) : Prop
  /-- It does not run, or is not parked. -/
  | out {s : Slot} (found : b.slots[t]? = some s) (away : (s.inBarrier && s.running) = false)
      (others : releaseBelow limit releaseAll caller rest r b = .ok r' b') :
      BelowStep limit releaseAll caller t rest r b r' b'
  /-- It has so many micro-ops. -/
  | supplied {surplus : Nat} (answered : SharedEngine.surplus b.engine t = .ok surplus) (plenty : limit ≤ surplus)
      (others : releaseBelow limit releaseAll caller rest r b = .ok r' b') :
      BelowStep limit releaseAll caller t rest r b r' b'
  /-- It is selected, and perhaps others after it. -/
  | selected {s : Slot} {r₁ : Release} {b₁ : Barrier E} (found : b.slots[t]? = some s) (parked : s.inBarrier = true)
      (running : s.running = true)
      (first : select releaseAll caller t { r with active := r.active + 1 } b = .ok r₁ b₁)
      (others : (r' = r₁ ∧ b' = b₁) ∨ releaseBelow limit releaseAll caller rest r₁ b₁ = .ok r' b') :
      BelowStep limit releaseAll caller t rest r b r' b'

theorem belowStep_of_releaseBelow {limit : Nat} {rest : List Nat}
    (h : releaseBelow limit releaseAll caller (t :: rest) r b = .ok r' b') :
    BelowStep limit releaseAll caller t rest r b r' b' := by
  unfold releaseBelow at h
  rw [get_bind] at h
  simp only [bind_eq_ok, ofExcept_eq_ok] at h
  obtain ⟨s, _, ⟨found, rfl⟩, h⟩ := h
  rw [slot_eq_ok] at found
  split at h
  · rename_i away
    exact .out found ((Bool.not_eq_true' _).mp away) h
  · rename_i here
    obtain ⟨parked, running⟩ : s.inBarrier = true ∧ s.running = true := by simpa using here
    obtain ⟨surplus, _, asked, h⟩ := bind_eq_ok.mp h
    obtain ⟨answered, rfl⟩ := ofExcept_eq_ok.mp asked
    split at h
    · rename_i plenty
      exact .supplied answered plenty h
    · obtain ⟨r₁, b₁, first, h⟩ := bind_eq_ok.mp h
      refine .selected found parked running first ?_
      split at h
      · exact .inr h
      · obtain ⟨rfl, rfl⟩ := pure_eq_ok.mp h
        exact .inl ⟨rfl, rfl⟩

omit [SharedEngine E] in
theorem isParked?_of_found {s : Slot} (found : b.slots[t]? = some s) : b.isParked? t = some s.inBarrier := by
  rw [isParked?, found, Option.map_some]

theorem releases_needy {ts : List Nat} (h : releaseNeedy releaseAll caller ts r b = .ok r' b') :
    Releases releaseAll caller b r b' r' := by
  induction ts generalizing r b with
  | nil =>
    obtain ⟨rfl, rfl⟩ := pure_eq_ok.mp h
    exact .refl rfl
  | cons t rest ih =>
    cases needyStep_of_releaseNeedy h with
    | out _ _ others => exact (ih others).of_counted
    | supplied others => exact ih others
    | selected found parked first others =>
      have first := (releases_select (parked ▸ isParked?_of_found found) first).of_counted
      rcases others with ⟨rfl, rfl⟩ | others
      · exact first
      · exact first.trans (ih others)

theorem releases_below {limit : Nat} {ts : List Nat}
    (h : releaseBelow limit releaseAll caller ts r b = .ok r' b') :
    Releases releaseAll caller b r b' r' := by
  induction ts generalizing r b with
  | nil =>
    obtain ⟨rfl, rfl⟩ := pure_eq_ok.mp h
    exact .refl rfl
  | cons t rest ih =>
    cases belowStep_of_releaseBelow h with
    | out _ _ others => exact ih others
    | supplied _ _ others => exact ih others
    | selected found parked _ first others =>
      have first := (releases_select (parked ▸ isParked?_of_found found) first).of_counted
      rcases others with ⟨rfl, rfl⟩ | others
      · exact first
      · exact first.trans (ih others)

/-- As long as nobody is active and somebody waits, the slots below a limit are released, and then those below twice
that. -/
theorem releaseLeast_cases {rounds limit : Nat}
    (h : releaseLeast releaseAll caller (rounds + 1) limit r b = .ok r' b') :
    ((r.active ≠ 0 ∨ b.slots.any (fun s => s.inBarrier && s.running) = false) ∧ r' = r ∧ b' = b) ∨
      (r.active = 0 ∧ b.slots.any (fun s => s.inBarrier && s.running) = true ∧ ∃ r₁ b₁,
        releaseBelow limit releaseAll caller (List.range b.slots.size) r b = .ok r₁ b₁ ∧
        releaseLeast releaseAll caller rounds (min (2 * limit) Word.max) r₁ b₁ = .ok r' b') := by
  unfold releaseLeast at h
  rw [get_bind] at h
  split at h
  · rename_i ends
    obtain ⟨rfl, rfl⟩ := pure_eq_ok.mp h
    exact .inl ⟨by simpa only [Bool.or_eq_true, decide_eq_true_eq, Bool.not_eq_true'] using ends, rfl, rfl⟩
  · rename_i waiting
    simp only [Bool.or_eq_true, decide_eq_true_eq, Bool.not_eq_true', not_or, Decidable.not_not, Bool.not_eq_false] at waiting
    obtain ⟨r₁, b₁, below, h⟩ := bind_eq_ok.mp h
    exact .inr ⟨waiting.1, waiting.2, r₁, b₁, below, h⟩

/-- Those that lack micro-ops are released, and then those that have the least. -/
theorem release_cases {me : Bool} (h : release releaseAll caller b = .ok me b') :
    ∃ r₁ b₁ r₂, releaseNeedy releaseAll caller (List.range b.slots.size) {} { b with driver := caller } = .ok r₁ b₁ ∧
      releaseLeast releaseAll caller releaseRounds 1 r₁ b₁ = .ok r₂ b' ∧ me = r₂.selectsCaller := by
  unfold release at h
  rw [modify_bind, get_bind] at h
  obtain ⟨r₁, b₁, needy, h⟩ := bind_eq_ok.mp h
  obtain ⟨r₂, b₂, least, h⟩ := bind_eq_ok.mp h
  obtain ⟨rfl, rfl⟩ := pure_eq_ok.mp h
  exact ⟨r₁, b₁, r₂, needy, least, rfl⟩

theorem releases_least {rounds limit : Nat}
    (h : releaseLeast releaseAll caller rounds limit r b = .ok r' b') :
    Releases releaseAll caller b r b' r' := by
  induction rounds generalizing limit r b with
  | zero =>
    obtain ⟨rfl, rfl⟩ := pure_eq_ok.mp h
    exact .refl rfl
  | succ rounds ih =>
    rcases releaseLeast_cases h with ⟨-, rfl, rfl⟩ | ⟨-, -, r₁, b₁, below, rest⟩
    · exact .refl rfl
    · exact (releases_below below).trans (ih rest)

theorem releases_release {me : Bool} (h : release releaseAll caller b = .ok me b') :
    ∃ r', r'.selectsCaller = me ∧ Releases releaseAll caller { b with driver := caller } {} b' r' := by
  obtain ⟨r₁, b₁, r₂, needy, least, rfl⟩ := release_cases h
  exact ⟨r₂, rfl, (releases_needy needy).trans (releases_least least)⟩

end Barrier

/-! ## Section 5: Operations beside the barrier -/

namespace Barrier

variable {E : Type} [SharedEngine E] {α γ : Type} {view : Slot → γ} {b b' : Barrier E} {t : Nat}

theorem onEngine_eq_ok {x : Faulting E α} {a : α} :
    onEngine x b = .ok a b' ↔ ∃ engine, x b.engine = .ok a engine ∧ b' = { b with engine } := by
  unfold onEngine
  rw [zoom_eq_ok]
  constructor
  · rintro ⟨engine, ran, rfl⟩
    exact ⟨engine, ran, rfl⟩
  · rintro ⟨engine, ran, rfl⟩
    exact ⟨engine, ran, rfl⟩

theorem preserves_onEngine {x : Faulting E α} : Preserves (seen view) (onEngine x) := by
  intro b a b' h
  obtain ⟨engine, -, rfl⟩ := onEngine_eq_ok.mp h
  rfl

omit [SharedEngine E] in
theorem preserves_modifySlot {f : Slot → Slot} (same : ∀ s, view (f s) = view s) (t : Nat) :
    Preserves (seen view) (modify (modifySlot t f) : Faulting (Barrier E) PUnit) :=
  preserves_modify fun b => seen_modifySlot same t b

theorem preserves_notifyActive :
    Preserves (seen view) (notifyActive : Faulting (Barrier E) Unit) :=
  preserves_get.bind fun _ => preserves_onEngine

theorem preserves_changeApp {app : Nat} {f : Slot → Slot} (same : ∀ s, view (f s) = view s) :
    Preserves (seen view) (changeApp app f : Faulting (Barrier E) Unit) := by
  refine preserves_get.bind fun b => ?_
  cases b.findApp? app with
  | some t => exact (preserves_modifySlot same t).bind fun _ => preserves_notifyActive
  | none => exact preserves_pure _

theorem preserves_occupy {app core : Nat}
    (same : ∀ s, view { s with inWakeup := true, running := true, app := some app } = view s) :
    Preserves (seen view) (occupy app core : Faulting (Barrier E) Unit) := by
  refine preserves_get.bind fun b => ?_
  cases b.findCore? core with
  | some t => exact (preserves_modifySlot same t).bind fun _ => preserves_notifyActive
  | none => exact preserves_pure _

omit [SharedEngine E] in
theorem preserves_bind {core app : Nat} (same : ∀ s, view { s with app := some app } = view s) :
    Preserves (seen view) (Barrier.bind core app : Faulting (Barrier E) (Option Nat)) := by
  refine preserves_get.bind fun b => ?_
  cases b.findCore? core with
  | some t => exact (preserves_modifySlot same t).bind fun _ => preserves_pure _
  | none => exact preserves_pure _

omit [SharedEngine E] in
theorem preserves_checked {x : Faulting (Barrier E) α} (hx : Preserves (seen view) x) :
    Preserves (seen view) (checked t x) := by
  refine preserves_get.bind fun b => ?_
  split
  · exact hx.map
  · exact preserves_pure _

theorem preserves_returnLatency :
    Preserves (seen view) (returnLatency t : Faulting (Barrier E) (Nat × Time)) :=
  preserves_get.bind fun _ => (preserves_ofExcept _).bind fun _ => preserves_onEngine

theorem preserves_push {us : List OpInstance} :
    Preserves (seen view) (push t us : Faulting (Barrier E) (Nat × Time)) := by
  refine preserves_get.bind fun b => ?_
  split
  · exact preserves_onEngine.bind fun _ => preserves_returnLatency
  · exact preserves_returnLatency

theorem preserves_synchronize {time : Time} (same : ∀ s, view { s with inWakeup := false } = view s) :
    Preserves (seen view) (synchronize t time : Faulting (Barrier E) Unit) :=
  (preserves_modifySlot same t).bind fun _ => preserves_onEngine

theorem preserves_beginRegion {time : Time} (same : ∀ s, view { s with inWakeup := false } = view s) :
    Preserves (seen view) (beginRegion time : Faulting (Barrier E) Unit) :=
  preserves_get.bind fun _ => .forM (fun _ => preserves_synchronize same) _

end Barrier

namespace Session

variable {E : Type} [SharedEngine E] {s s' : Session E}

theorem onBarrier_eq_ok {α : Type} {x : Faulting (Barrier E) α} {a : α} :
    onBarrier x s = .ok a s' ↔ ∃ barrier, x s.barrier = .ok a barrier ∧ s' = { s with barrier } := by
  unfold onBarrier
  rw [zoom_eq_ok]
  constructor
  · rintro ⟨barrier, ran, rfl⟩
    exact ⟨barrier, ran, rfl⟩
  · rintro ⟨barrier, ran, rfl⟩
    exact ⟨barrier, ran, rfl⟩

/-- A call beside the barrier leaves its hosts, its driver and the states of its slots alone. -/
theorem perform_aside {γ : Type} (view : Slot → γ) {a : Action E} (aside : a.isAside = true)
    (ignores : ∀ s app inWakeup, view { s with app, inWakeup } = view s)
    (h : a.perform s = .ok () s') : ∃ b, s' = { s with barrier := b } ∧ b.seen view = s.barrier.seen view := by
  have beside : ∃ x : Faulting (Barrier E) Unit, a.perform = onBarrier x ∧ Preserves (Barrier.seen view) x := by
    cases a with
    | bind core app =>
      exact ⟨_, rfl, (Barrier.preserves_bind fun s => ignores s (some app) s.inWakeup).bind fun _ =>
        preserves_pure _⟩
    | push t us => exact ⟨_, rfl, (Barrier.preserves_checked Barrier.preserves_push).bind fun _ => preserves_pure _⟩
    | returnLatency t =>
      exact ⟨_, rfl, (Barrier.preserves_checked Barrier.preserves_returnLatency).bind fun _ => preserves_pure _⟩
    | synchronize t time =>
      exact ⟨_, rfl, (Barrier.preserves_checked
        (Barrier.preserves_synchronize fun s => ignores s s.app false)).bind fun _ => preserves_pure _⟩
    | beginRegion time => exact ⟨_, rfl, Barrier.preserves_beginRegion fun s => ignores s s.app false⟩
    | register core hasClient setUp => cases aside
    | handle event => cases aside
    | start t call => cases aside
    | step t => cases aside
  obtain ⟨x, performs, preserves⟩ := beside
  rw [performs] at h
  obtain ⟨b, ran, rfl⟩ := onBarrier_eq_ok.mp h
  exact ⟨b, rfl, preserves ran⟩

/-- A new slot comes with a host thread that is in no call, like one that does not exist. -/
theorem register_eq_ok {γ : Type} (view : Slot → γ) {core slot : Nat} {hasClient : Bool}
    {setUp : Nat → Faulting E Unit} (h : Session.register core hasClient setUp s = .ok slot s') :
    s'.hosts.size = s.hosts.size + 1 ∧ (∀ t, s'.host t = s.host t) ∧
      s'.barrier.seen view =
        { s.barrier with slots := s.barrier.slots.push { core, hasClient } }.seen view := by
  unfold Session.register at h
  obtain ⟨t, s₁, ran, h⟩ := bind_eq_ok.mp h
  rw [modify_bind] at h
  obtain ⟨rfl, rfl⟩ := pure_eq_ok.mp h
  obtain ⟨b, registered, rfl⟩ := onBarrier_eq_ok.mp ran
  unfold Barrier.register at registered
  rw [get_bind, modify_bind] at registered
  obtain ⟨⟨⟩, b₁, prepared, registered⟩ := bind_eq_ok.mp registered
  obtain ⟨⟨⟩, b₂, notified, registered⟩ := bind_eq_ok.mp registered
  obtain ⟨rfl, rfl⟩ := pure_eq_ok.mp registered
  refine ⟨Array.size_push _, fun t => ?_,
    (Barrier.preserves_notifyActive notified).trans (Barrier.preserves_onEngine prepared)⟩
  simp only [Session.host, Array.getD_eq_getD_getElem?, Array.getElem?_push]
  split
  · rename_i last
    simp [last]
  · rfl

end Session

/-! ## Section 6: Operations of host threads -/

namespace Barrier

variable {E : Type} [SharedEngine E] {b b' : Barrier E} {t : Nat}

/-- A barrier that has been reached is released. -/
theorem signal_cases (h : signal b = .ok () b') :
    (b.isReached = true ∧ ∃ me, release false none b = .ok me b') ∨ (b.isReached = false ∧ b' = b) := by
  unfold signal at h
  rw [get_bind] at h
  split at h
  · rename_i reached
    obtain ⟨me, b₁, released, h⟩ := bind_eq_ok.mp h
    obtain ⟨-, rfl⟩ := pure_eq_ok.mp h
    exact .inl ⟨reached, me, released⟩
  · rename_i unreached
    exact .inr ⟨Bool.eq_false_iff.mpr unreached, (pure_eq_ok.mp h).2.symm⟩

/-- Whoever completes the barrier releases somebody, and takes back its flag if that is itself. -/
theorem park_cases (h : park t b = .ok () b') :
    ((b.parking t).isReached = true ∧ ∃ me b₁, release false (some t) (b.parking t) = .ok me b₁ ∧
      b' = if me then b₁.wake t else b₁) ∨ ((b.parking t).isReached = false ∧ b' = b.parking t) := by
  unfold park at h
  rw [modify_bind, get_bind] at h
  split at h
  · rename_i reached
    obtain ⟨me, b₁, released, h⟩ := bind_eq_ok.mp h
    refine .inl ⟨reached, me, b₁, released, ?_⟩
    cases me with
    | true => exact (modify_eq_ok.mp h).symm
    | false => exact (pure_eq_ok.mp h).2.symm
  · rename_i unreached
    exact .inr ⟨Bool.eq_false_iff.mpr unreached, (pure_eq_ok.mp h).2.symm⟩

/-- What a host thread does that is about to enter the barrier. -/
inductive Entrance (t : Nat) (draining : Bool) (b : Barrier E) (host : Host) (b' : Barrier E) : Prop
  /-- The barrier is not in force. -/
  | passes (disabled : b.enabled = false) (goesOn : host = .afterRound draining) (same : b' = b) :
      Entrance t draining b host b'
  /-- It parks. -/
  | waits (enabled : b.enabled = true) (parks : park t b = .ok () b') (parked : b'.isParked? t = some true)
      (stands : host = .parked draining) : Entrance t draining b host b'
  /-- It parks, is woken at once, and leaves. -/
  | leaves {b₁ : Barrier E} (enabled : b.enabled = true) (parks : park t b = .ok () b₁)
      (woken : b₁.isParked? t = some false) (left : leave t draining b₁ = .ok host b') : Entrance t draining b host b'

theorem entrance_of_enter {draining : Bool} {host : Host} (h : enter t draining b = .ok host b') :
    Entrance t draining b host b' := by
  rw [enter_eq, get_bind] at h
  split at h
  · rename_i disabled
    obtain ⟨rfl, rfl⟩ := pure_eq_ok.mp h
    exact .passes (by simpa using disabled) rfl rfl
  · rename_i enabled
    obtain ⟨⟨⟩, b₁, parks, h⟩ := bind_eq_ok.mp h
    rw [get_bind] at h
    obtain ⟨s, _, looked, h⟩ := bind_eq_ok.mp h
    obtain ⟨found, rfl⟩ := ofExcept_eq_ok.mp looked
    have stands := isParked?_of_found (slot_eq_ok.mp found)
    split at h
    · rename_i parked
      obtain ⟨rfl, rfl⟩ := pure_eq_ok.mp h
      exact .waits (by simpa using enabled) parks (parked ▸ stands) rfl
    · rename_i woken
      exact .leaves (by simpa using enabled) parks (Bool.eq_false_iff.mpr woken ▸ stands) h

/-- A parked host thread waits on, or leaves the barrier once it has been woken. -/
theorem parked_cases {draining : Bool} {host : Host} (h : proceed t (.parked draining) b = .ok host b') :
    (b.isParked? t = some true ∧ host = .parked draining ∧ b' = b) ∨
      (b.isParked? t = some false ∧ leave t draining b = .ok host b') := by
  simp only [proceed, get_bind] at h
  obtain ⟨s, _, looked, h⟩ := bind_eq_ok.mp h
  obtain ⟨found, rfl⟩ := ofExcept_eq_ok.mp looked
  have stands := isParked?_of_found (slot_eq_ok.mp found)
  split at h
  · rename_i parked
    obtain ⟨rfl, rfl⟩ := pure_eq_ok.mp h
    exact .inl ⟨parked ▸ stands, rfl, rfl⟩
  · rename_i woken
    exact .inr ⟨Bool.eq_false_iff.mpr woken ▸ stands, h⟩

/-- A host thread that has enough micro-ops enters the barrier. -/
theorem simulate_cases {host : Host} (h : begin t .simulate b = .ok host b') :
    ∃ surplus, SharedEngine.surplus b.engine t = .ok surplus ∧
      ((simulateThreshold < surplus ∧ enter t false b = .ok host b') ∨
        (¬simulateThreshold < surplus ∧ host = .outside ∧ b' = b)) := by
  simp only [begin, get_bind] at h
  obtain ⟨surplus, _, asked, h⟩ := bind_eq_ok.mp h
  obtain ⟨answered, rfl⟩ := ofExcept_eq_ok.mp asked
  refine ⟨surplus, answered, ?_⟩
  split at h
  · rename_i many
    exact .inl ⟨many, h⟩
  · rename_i few
    obtain ⟨rfl, rfl⟩ := pure_eq_ok.mp h
    exact .inr ⟨few, rfl, rfl⟩

theorem finish_eq_ok {host : Host} (h : begin t .finish b = .ok host b') :
    onEngine (SharedEngine.markEndOfStream t) b = .ok () b' ∧ host = .looping := by
  obtain ⟨⟨⟩, b₁, marked, h⟩ := bind_eq_ok.mp h
  obtain ⟨rfl, rfl⟩ := pure_eq_ok.mp h
  exact ⟨marked, rfl⟩

/-- Whether the host thread of slot `t`, if it leaves the barrier now, drives the engine. -/
def picks (b : Barrier E) (t : Nat) : Bool := b.enabled && b.driver == some t

theorem leave_eq (t : Nat) (draining : Bool) (b : Barrier E) :
    leave t draining b =
      if b.picks t then drive t draining b else .ok (.afterRound draining) b := by
  unfold leave picks
  rw [get_bind]
  split <;> rfl

theorem finishDrive_cases {draining : Bool} {host : Host} (h : finishDrive t draining b = .ok host b') :
    host = .afterRound draining ∧ ∃ me, release true (some t) { b with syncing := false } = .ok me b' := by
  unfold finishDrive at h
  rw [modify_bind] at h
  obtain ⟨me, b₁, released, h⟩ := bind_eq_ok.mp h
  obtain ⟨rfl, rfl⟩ := pure_eq_ok.mp h
  exact ⟨rfl, me, released⟩

theorem finishDrive_eq_ok {draining : Bool} {host : Host} (h : finishDrive t draining b = .ok host b') :
    host = .afterRound draining ∧ b'.slots.size = b.slots.size ∧ b'.driver = some t := by
  obtain ⟨rfl, me, released⟩ := finishDrive_cases h
  obtain ⟨r', -, releases⟩ := releases_release released
  refine ⟨rfl, releases.size, ?_⟩
  rcases releases.driver with same | ⟨one, -⟩
  · exact same
  · cases one

/-- The engine executes.  Then the host thread synchronizes its client if there is one, and ends the round at once
if there is none. -/
theorem drive_cases {draining : Bool} {host : Host} (h : drive t draining b = .ok host b') :
    ∃ b₁, onEngine (SharedEngine.execute t b.slots) b = .ok () b₁ ∧
      ((host = .syncing draining ∧ b' = { b₁ with driver := none, syncing := true }) ∨
        finishDrive t draining { b₁ with driver := none } = .ok host b') := by
  unfold drive at h
  rw [get_bind] at h
  obtain ⟨⟨⟩, b₁, ran, h⟩ := bind_eq_ok.mp h
  rw [modify_bind, get_bind] at h
  obtain ⟨s, _, found, h⟩ := bind_eq_ok.mp h
  obtain ⟨-, rfl⟩ := ofExcept_eq_ok.mp found
  refine ⟨b₁, ran, ?_⟩
  split at h
  · rw [modify_bind] at h
    obtain ⟨rfl, rfl⟩ := pure_eq_ok.mp h
    exact .inl ⟨rfl, rfl⟩
  · exact .inr h

/-- Driving leaves the driver unnamed, or named after itself. -/
theorem drive_eq_ok {draining : Bool} {host : Host} (h : drive t draining b = .ok host b') :
    (host = .afterRound draining ∨ host = .syncing draining) ∧ b'.slots.size = b.slots.size ∧
      ∀ u, b'.driver = some u → u = t := by
  obtain ⟨b₁, ran, ends⟩ := drive_cases h
  have size := (SameParking.of_seen (preserves_onEngine ran)).size
  rcases ends with ⟨rfl, rfl⟩ | finishes
  · exact ⟨.inr rfl, size, fun u named => by cases named⟩
  · obtain ⟨rfl, size', driver⟩ := finishDrive_eq_ok finishes
    refine ⟨.inl rfl, size'.trans size, fun u named => ?_⟩
    rw [driver] at named
    exact (Option.some.inj named).symm

end Barrier

end CoreTiming
