import CoreTiming.Proofs.Selection

/-!
# The barrier never stands still

Whoever parks waits for somebody else to go on.  So while a running slot is parked, some running slot must
not be: it will come to the barrier in the end and complete it.  A barrier in this state is `Moving`.

A release from a barrier that has been reached leaves it moving, because it lets a running slot go if there
is one: the limit doubles until the slot with the fewest micro-ops is below it.  A barrier that has not been
reached is moving anyway.  So every operation after which the barrier is looked at again leaves it moving,
and the only one that can do otherwise is the start of an application thread: it makes a slot run whose host
thread may be parked, and does not look at the barrier (`running_slot_left_unless_stranded`,
`started_slot_stranded`).
-/

namespace CoreTiming

open Faulting

/-! ## Section 1: Moving barriers -/

namespace Barrier

variable {E : Type} {b b' : Barrier E} {t : Nat} {caller : Option Nat} {me : Bool}

/-- Whether some running slot is parked, or is not. -/
def runs (parked : Bool) (b : Barrier E) : Bool := b.slots.any fun s => s.running && s.inBarrier == parked

/-- If a running slot is parked, then some running slot is not. -/
def Moving (b : Barrier E) : Prop := b.runs true = true → b.runs false = true

/-- The barrier is moving unless the driver synchronizes across cores. -/
def Settled (b : Barrier E) : Prop := b.syncing = false → b.Moving

theorem runs_eq_true {parked : Bool} :
    b.runs parked = true ↔
      ∃ (t : Nat) (s : Slot), b.slots[t]? = some s ∧ s.running = true ∧ s.inBarrier = parked := by
  simp only [runs, Array.any_eq_true, Bool.and_eq_true, beq_iff_eq]
  constructor
  · rintro ⟨t, inside, running, parked⟩
    exact ⟨t, _, Array.getElem?_eq_getElem inside, running, parked⟩
  · rintro ⟨t, s, found, running, parked⟩
    obtain ⟨inside, rfl⟩ := Array.getElem?_eq_some_iff.mp found
    exact ⟨t, inside, running, parked⟩

/-- What a slot is to the barrier: whether it runs, and whether it is parked. -/
def stance (s : Slot) : Bool × Bool := (s.running, s.inBarrier)

theorem runs_eq_of_stances {parked : Bool} (same : b'.slots.map stance = b.slots.map stance) :
    b'.runs parked = b.runs parked := by
  have counted (b : Barrier E) :
      b.runs parked = (b.slots.map stance).any fun p => p.1 && p.2 == parked := by
    simp [runs, stance, Function.comp_def]
  rw [counted, counted, same]

theorem Settled.of_seen (settled : b.Settled) (same : b'.seen stance = b.seen stance) : b'.Settled := by
  simp only [seen, Prod.mk.injEq] at same
  obtain ⟨syncing, -, slots⟩ := same
  unfold Settled Moving
  rw [syncing, runs_eq_of_stances slots, runs_eq_of_stances slots]
  exact settled

/-- A barrier that has not been reached is moving. -/
theorem settled_of_not_reached (h : b.isReached = false) : b.Settled := by
  intro idle waits
  obtain ⟨t, s, found, running, parked⟩ := runs_eq_true.mp waits
  have somebody : b.slots.any (·.inBarrier) = true :=
    Array.any_eq_true.mpr ⟨t, (Array.getElem?_eq_some_iff.mp found).1, by
      rw [(Array.getElem?_eq_some_iff.mp found).2]
      exact parked⟩
  simp only [isReached, idle, somebody, Bool.not_false, Bool.true_and, Bool.and_true] at h
  obtain ⟨u, inside, out⟩ := Array.all_eq_false.mp h
  refine runs_eq_true.mpr ⟨u, _, Array.getElem?_eq_getElem inside, ?_⟩
  simpa using out

/-! ## Section 2: Releases -/

/-- Some running slot can go on: it is not parked, or it is the caller, which is told so. -/
def Frees (caller : Option Nat) (me : Bool) (b : Barrier E) : Prop :=
  ∃ t s, b.slots[t]? = some s ∧ s.running = true ∧
    (s.inBarrier = false ∨ caller = some t ∧ me = true)

/-- If a release counts somebody as active, then a running slot can go on. -/
def Counts (caller : Option Nat) (r : Release) (b : Barrier E) : Prop :=
  r.active ≠ 0 → b.Frees caller r.selectsCaller

theorem getElem?_wake (t u : Nat) (b : Barrier E) : (b.wake t).slots[u]? =
    if t = u then b.slots[u]?.map fun s => { s with inBarrier := false } else b.slots[u]? :=
  Array.getElem?_modify

theorem Frees.wake (frees : b.Frees caller me) (t : Nat) : (b.wake t).Frees caller me := by
  obtain ⟨u, s, found, running, free⟩ := frees
  by_cases same : t = u
  · exact ⟨u, { s with inBarrier := false }, by simp [getElem?_wake, same, found], running, .inl rfl⟩
  · exact ⟨u, s, by simp [getElem?_wake, same, found], running, free⟩

/-- A slot that is woken and runs can go on. -/
theorem frees_wake {s : Slot} (found : b.slots[t]? = some s) (running : s.running = true) :
    (b.wake t).Frees caller me :=
  ⟨t, { s with inBarrier := false }, by simp [getElem?_wake, found], running, .inl rfl⟩

/-- A caller that has been told clears its own flag. -/
theorem Frees.wake_caller (frees : b.Frees (some t) true) : (b.wake t).runs false = true := by
  obtain ⟨u, s, found, running, free⟩ := frees
  rw [runs_eq_true]
  by_cases same : t = u
  · exact ⟨u, { s with inBarrier := false }, by simp [getElem?_wake, same, found], running, rfl⟩
  · rcases free with out | ⟨named, -⟩
    · exact ⟨u, s, by simp [getElem?_wake, same, found], running, out⟩
    · exact absurd (Option.some.inj named) same

theorem runs_true_wake (nobody : b.runs true = false) (t : Nat) : (b.wake t).runs true = false := by
  rw [← Bool.not_eq_true, runs_eq_true] at nobody ⊢
  rintro ⟨u, s, found, running, parked⟩
  rw [getElem?_wake] at found
  split at found
  · obtain ⟨s', -, rfl⟩ := Option.map_eq_some_iff.mp found
    cases parked
  · exact nobody ⟨u, s, found, running, parked⟩

variable [SharedEngine E] {releaseAll : Bool} {r r' : Release} {limit rounds : Nat}

/-- What a release leaves alone. -/
def backdrop (b : Barrier E) : Bool × E × Array Bool := (b.syncing, b.engine, b.slots.map (·.running))

omit [SharedEngine E] in
theorem select_eq_ok (h : select releaseAll caller t r b = .ok r' b') :
    r' = (if caller = some t then { r with selectsCaller := true } else r) ∧
      ∃ driver, b' = { (if caller = some t then b else b.wake t) with driver } := by
  unfold select at h
  by_cases me : caller = some t
  all_goals
    simp only [me, ne_eq, not_true_eq_false, not_false_eq_true, if_true, if_false, modify_bind] at h
    cases releaseAll
    all_goals
      obtain ⟨rfl, rfl⟩ := pure_eq_ok.mp h
      simp only [me, if_true, if_false, true_and]
      exact ⟨_, rfl⟩

omit [SharedEngine E] in
theorem active_select (h : select releaseAll caller t r b = .ok r' b') : r'.active = r.active := by
  obtain ⟨rfl, -⟩ := select_eq_ok h
  split <;> rfl

omit [SharedEngine E] in
theorem backdrop_wake (t : Nat) (b : Barrier E) : (b.wake t).backdrop = b.backdrop := by
  have same : seen (·.running) (b.wake t) = seen (·.running) b := by
    refine seen_modifySlot ?_ t b
    exact fun _ => rfl
  simp only [seen, Prod.mk.injEq] at same
  simp only [backdrop, same.2.2]
  rfl

omit [SharedEngine E] in
theorem preserves_select : Preserves backdrop (select releaseAll caller t r : Faulting (Barrier E) Release) := by
  intro b r' b' h
  obtain ⟨-, driver, rfl⟩ := select_eq_ok h
  split
  · rfl
  · exact backdrop_wake t b

theorem preserves_releaseNeedy (ts : List Nat) :
    Preserves backdrop (releaseNeedy releaseAll caller ts r : Faulting (Barrier E) Release) := by
  induction ts generalizing r with
  | nil => exact preserves_pure _
  | cons t rest ih =>
    refine preserves_get.bind fun b => (preserves_ofExcept _).bind fun s => ?_
    dsimp only
    split
    · exact ih
    · refine (preserves_ofExcept _).bind fun enough => ?_
      split
      · exact ih
      · refine preserves_select.bind fun r' => ?_
        split
        · exact ih
        · exact preserves_pure _

theorem preserves_releaseBelow (ts : List Nat) :
    Preserves backdrop (releaseBelow limit releaseAll caller ts r : Faulting (Barrier E) Release) := by
  induction ts generalizing r with
  | nil => exact preserves_pure _
  | cons t rest ih =>
    refine preserves_get.bind fun b => (preserves_ofExcept _).bind fun s => ?_
    split
    · exact ih
    · refine (preserves_ofExcept _).bind fun surplus => ?_
      split
      · exact ih
      · refine preserves_select.bind fun r' => ?_
        split
        · exact ih
        · exact preserves_pure _

theorem preserves_releaseLeast :
    Preserves backdrop (releaseLeast releaseAll caller rounds limit r : Faulting (Barrier E) Release) := by
  induction rounds generalizing limit r with
  | zero => exact preserves_pure _
  | succ rounds ih =>
    refine preserves_get.bind fun b => ?_
    split
    · exact preserves_pure _
    · exact (preserves_releaseBelow _).bind fun r' => ih

theorem preserves_release :
    Preserves backdrop (release releaseAll caller : Faulting (Barrier E) Bool) := by
  refine Preserves.bind (preserves_modify fun b => rfl) fun _ => preserves_get.bind fun b => ?_
  exact (preserves_releaseNeedy _).bind fun r => preserves_releaseLeast.bind fun r' => preserves_pure _

omit [SharedEngine E] in
theorem Counts.select (counts : b.Counts caller r)
    (h : select releaseAll caller t r b = .ok r' b') : b'.Counts caller r' := by
  obtain ⟨rfl, driver, rfl⟩ := select_eq_ok h
  intro active
  by_cases me : caller = some t
  · rw [if_pos me] at active ⊢
    obtain ⟨u, s, found, running, free⟩ := counts active
    refine ⟨u, s, by simpa [me] using found, running, ?_⟩
    rcases free with out | ⟨named, -⟩
    · exact .inl out
    · exact .inr ⟨named, rfl⟩
  · rw [if_neg me] at active ⊢
    simp only [me, if_false]
    exact Frees.wake (counts active) t

omit [SharedEngine E] in
/-- Selecting a slot that runs lets a running slot go on. -/
theorem counts_of_select {s : Slot} (found : b.slots[t]? = some s) (running : s.running = true)
    (h : select releaseAll caller t r b = .ok r' b') : b'.Counts caller r' := by
  obtain ⟨rfl, driver, rfl⟩ := select_eq_ok h
  intro _
  by_cases me : caller = some t
  · simp only [me, if_true]
    exact ⟨t, s, found, running, .inr ⟨rfl, rfl⟩⟩
  · simp only [me, if_false]
    exact frees_wake found running

theorem counts_releaseNeedy {ts : List Nat} (counts : b.Counts caller r)
    (h : releaseNeedy releaseAll caller ts r b = .ok r' b') : b'.Counts caller r' := by
  induction ts generalizing r b with
  | nil =>
    obtain ⟨rfl, rfl⟩ := pure_eq_ok.mp h
    exact counts
  | cons t rest ih =>
    cases needyStep_of_releaseNeedy h with
    | @out s found free others =>
      refine ih (fun active => ?_) others
      cases running : s.running with
      | true => exact ⟨t, s, found, running, .inl free⟩
      | false => exact counts (by simpa [running] using active)
    | supplied others => exact ih counts others
    | @selected s r₁ b₁ found _ first others =>
      have counts₁ : b₁.Counts caller r₁ := by
        cases running : s.running with
        | true => exact counts_of_select found running first
        | false =>
          refine Counts.select ?_ first
          exact fun active => counts (by simpa [running] using active)
      rcases others with ⟨rfl, rfl⟩ | others
      · exact counts₁
      · exact ih counts₁ others

/-- If nobody is active when the slots below a limit have been released, then nobody was below it. -/
theorem counts_releaseBelow {ts : List Nat} (counts : b.Counts caller r)
    (h : releaseBelow limit releaseAll caller ts r b = .ok r' b') :
    b'.Counts caller r' ∧ (r'.active = 0 → r.active = 0 ∧ ∀ t ∈ ts, ∀ s, b.slots[t]? = some s →
      s.running = true → s.inBarrier = true →
        ∃ surplus, SharedEngine.surplus b.engine t = .ok surplus ∧ limit ≤ surplus) := by
  induction ts generalizing r b with
  | nil =>
    obtain ⟨rfl, rfl⟩ := pure_eq_ok.mp h
    exact ⟨counts, fun none => ⟨none, nofun⟩⟩
  | cons t rest ih =>
    cases belowStep_of_releaseBelow h with
    | @out s found away h =>
      obtain ⟨counts', others⟩ := ih counts h
      refine ⟨counts', fun none => ⟨(others none).1, fun u mem s' found' running parked => ?_⟩⟩
      rcases List.mem_cons.mp mem with rfl | mem
      · rw [found] at found'
        cases found'
        simp [running, parked] at away
      · exact (others none).2 u mem s' found' running parked
    | @supplied surplus answered plenty h =>
      obtain ⟨counts', others⟩ := ih counts h
      refine ⟨counts', fun none => ⟨(others none).1, fun u mem s' found' running parked => ?_⟩⟩
      rcases List.mem_cons.mp mem with rfl | mem
      · exact ⟨surplus, answered, plenty⟩
      · exact (others none).2 u mem s' found' running parked
    | @selected s r₁ b₁ found _ running first others =>
      have counts₁ := counts_of_select found running first
      have somebody : r₁.active ≠ 0 := by simp [active_select first]
      rcases others with ⟨rfl, rfl⟩ | others
      · exact ⟨counts₁, fun none => absurd none somebody⟩
      · obtain ⟨counts', others⟩ := ih counts₁ others
        exact ⟨counts', fun none => absurd (others none).1 somebody⟩

/-- No slot has as many micro-ops buffered as a word can count. -/
def Scarce (e : E) : Prop := ∀ t surplus, SharedEngine.surplus e t = .ok surplus → surplus < Word.max

omit [SharedEngine E] in
theorem runs_true_eq (b : Barrier E) : b.runs true = b.slots.any fun s => s.inBarrier && s.running := by
  simp [runs, Bool.and_comm]

/-- The limit gets beyond every surplus, so in the end somebody is active unless nobody waits. -/
theorem counts_releaseLeast (rounds : Nat) (scarce : Scarce b.engine) (counts : b.Counts caller r)
    (reaches : Word.max ≤ limit <<< rounds)
    (h : releaseLeast releaseAll caller (rounds + 1) limit r b = .ok r' b') :
    b'.Counts caller r' ∧ (r'.active = 0 → b'.runs true = false) := by
  induction rounds generalizing limit r b with
  | zero =>
    rcases releaseLeast_cases h with ⟨ends, rfl, rfl⟩ | ⟨-, waiting, r₁, b₁, below, h⟩
    · exact ⟨counts, fun none => runs_true_eq _ ▸ ends.resolve_left (not_not_intro none)⟩
    · obtain ⟨rfl, rfl⟩ := pure_eq_ok.mp h
      obtain ⟨counts', others⟩ := counts_releaseBelow counts below
      refine ⟨counts', fun none => ?_⟩
      -- somebody waits, and is below the limit like everybody
      obtain ⟨t, s, found, running, parked⟩ := runs_eq_true.mp ((runs_true_eq b).trans waiting)
      have mem : t ∈ List.range b.slots.size := List.mem_range.mpr (Array.getElem?_eq_some_iff.mp found).1
      obtain ⟨surplus, answered, plenty⟩ := (others none).2 t mem s found running parked
      have := scarce t surplus answered
      omega
  | succ rounds ih =>
    rcases releaseLeast_cases h with ⟨ends, rfl, rfl⟩ | ⟨-, -, r₁, b₁, below, h⟩
    · exact ⟨counts, fun none => runs_true_eq _ ▸ ends.resolve_left (not_not_intro none)⟩
    · have same := preserves_releaseBelow _ below
      simp only [backdrop, Prod.mk.injEq] at same
      rw [← same.2.1] at scarce
      refine ih scarce (counts_releaseBelow counts below).1 ?_ h
      -- the doubled limit is cut off above every surplus
      rw [Nat.shiftLeft_succ_inside] at reaches
      rcases Nat.le_total (2 * limit) Word.max with low | high
      · rwa [Nat.min_eq_left low]
      · rw [Nat.min_eq_right high]
        exact Nat.le_shiftLeft

/-- A release lets a running slot go on, or else nobody who runs is parked. -/
theorem frees_release (scarce : Scarce b.engine) (h : release releaseAll caller b = .ok me b') :
    b'.Frees caller me ∨ b'.runs true = false := by
  obtain ⟨r₁, b₁, r₂, needy, least, rfl⟩ := release_cases h
  have same := preserves_releaseNeedy _ needy
  simp only [backdrop, Prod.mk.injEq] at same
  have counts : b₁.Counts caller r₁ := counts_releaseNeedy (fun active => absurd rfl active) needy
  obtain ⟨counts', nobody⟩ :=
    counts_releaseLeast 64 (same.2.1 ▸ scarce) counts (by decide) least
  by_cases none : r₂.active = 0
  · exact .inr (nobody none)
  · exact .inl (counts' none)

/-! ## Section 3: Sections of host threads -/

/-- A release that nobody inside the barrier performs leaves the barrier moving. -/
theorem settled_of_release (scarce : Scarce b.engine) (h : release releaseAll caller b = .ok me b')
    (out : ∀ t, caller = some t → b.isParked? t ≠ some true) : b'.Settled := by
  intro _ waits
  rcases frees_release scarce h with ⟨t, s, found, running, free⟩ | nobody
  · refine runs_eq_true.mpr ⟨t, s, found, running, ?_⟩
    rcases free with free | ⟨named, -⟩
    · exact free
    · -- the flag of the caller is left alone
      obtain ⟨r', -, releases⟩ := releases_release h
      have same := releases.callers t named
      have clear := out t named
      rw [show b.isParked? t = b'.isParked? t from same.symm] at clear
      simpa [isParked?, found] using clear
  · rw [nobody] at waits
    cases waits

theorem settled_signal (scarce : Scarce b'.engine) (h : signal b = .ok () b') : b'.Settled := by
  rcases signal_cases h with ⟨-, me, released⟩ | ⟨unreached, rfl⟩
  · have same := preserves_release released
    simp only [backdrop, Prod.mk.injEq] at same
    exact settled_of_release (same.2.1 ▸ scarce) released nofun
  · exact settled_of_not_reached unreached

theorem settled_park (scarce : Scarce b.engine) (h : park t b = .ok () b') : b'.Settled := by
  rcases park_cases h with ⟨-, me, b₁, released, rfl⟩ | ⟨unreached, rfl⟩
  · have freed := frees_release (b := b.parking t) scarce released
    intro _ waits
    cases me with
    | true =>
      rcases freed with frees | nobody
      · exact frees.wake_caller
      · rw [if_pos rfl, runs_true_wake nobody t] at waits
        cases waits
    | false =>
      rcases freed with ⟨u, s, found, running, free⟩ | nobody
      · refine runs_eq_true.mpr ⟨u, s, found, running, ?_⟩
        rcases free with free | ⟨-, told⟩
        · exact free
        · cases told
      · exact absurd waits (Bool.eq_false_iff.mp nobody)
  · exact settled_of_not_reached unreached

omit [SharedEngine E] in
theorem sameParking_of_stances (same : b'.seen stance = b.seen stance) : SameParking b b' := by
  refine .of_seen ?_
  have shown (b : Barrier E) : b.slots.map (·.inBarrier) = (b.slots.map stance).map (·.2) := by
    simp [stance, Function.comp_def]
  simp only [seen, Prod.mk.injEq] at same ⊢
  rw [shown, shown, same.2.2]
  exact ⟨same.1, same.2.1, rfl⟩

/-- A release parks nobody. -/
theorem parked_of_release {u : Nat} (h : release releaseAll caller b = .ok me b')
    (parked : b'.isParked? u = some true) : b.isParked? u = some true := by
  obtain ⟨r', -, releases⟩ := releases_release h
  exact releases.parked u parked

theorem parked_of_signal {u : Nat} (h : signal b = .ok () b') (parked : b'.isParked? u = some true) :
    b.isParked? u = some true := by
  rcases signal_cases h with ⟨-, me, released⟩ | ⟨-, rfl⟩
  · exact parked_of_release released parked
  · exact parked

theorem parked_of_park {u : Nat} (other : u ≠ t) (h : park t b = .ok () b')
    (parked : b'.isParked? u = some true) : b.isParked? u = some true := by
  have before (parked : (b.parking t).isParked? u = some true) : b.isParked? u = some true := by
    rwa [isParked?_parking, if_neg (Ne.symm other)] at parked
  rcases park_cases h with ⟨-, me, b₁, released, rfl⟩ | ⟨-, rfl⟩
  · refine before (parked_of_release released ?_)
    cases me with
    | true => rwa [if_pos rfl, isParked?_wake_ne (Ne.symm other)] at parked
    | false => exact parked
  · exact before parked

/-- Where a section of the host thread of slot `t` leaves it and the barrier. -/
structure Lands (t : Nat) (b : Barrier E) (host : Host) (b' : Barrier E) : Prop where
  /-- It is parked only if it waits in the barrier. -/
  waits : b'.isParked? t = some true → ∃ draining, host = .parked draining
  /-- It parks nobody else. -/
  others : ∀ u, u ≠ t → b'.isParked? u = some true → b.isParked? u = some true
  /-- The barrier goes on moving. -/
  settled : b.Settled → b'.Settled

variable {host : Host} {draining : Bool}

omit [SharedEngine E] in
/-- Nothing has happened. -/
theorem Lands.refl (waits : b.isParked? t = some true → ∃ draining, host = .parked draining) :
    Lands t b host b := ⟨waits, fun _ _ parked => parked, id⟩

/-- The end of a round parks nobody, and leaves the barrier moving. -/
theorem finishDrive_settles (h : finishDrive t draining b = .ok host b') :
    b'.engine = b.engine ∧ (∀ u, b'.isParked? u = some true → b.isParked? u = some true) ∧
      (Scarce b.engine → b.isParked? t ≠ some true → b'.Settled) := by
  obtain ⟨-, me, released⟩ := finishDrive_cases h
  have same := preserves_release released
  simp only [backdrop, Prod.mk.injEq] at same
  refine ⟨same.2.1, fun u parked => parked_of_release (b := { b with syncing := false }) released parked,
    fun scarce out => settled_of_release (b := { b with syncing := false }) scarce released fun u named => ?_⟩
  rw [← Option.some.inj named]
  exact out

theorem lands_finishDrive (scarce : Scarce b.engine) (out : b.isParked? t ≠ some true)
    (h : finishDrive t draining b = .ok host b') : Lands t b host b' := by
  obtain ⟨-, parked, settled⟩ := finishDrive_settles h
  exact ⟨fun waits => absurd (parked t waits) out, fun u _ => parked u, fun _ => settled scarce out⟩

theorem lands_leave (scarce : Scarce b'.engine) (out : b.isParked? t ≠ some true)
    (h : leave t draining b = .ok host b') : Lands t b host b' := by
  rw [leave_eq] at h
  split at h
  · obtain ⟨b₁, ran, ends⟩ := drive_cases h
    have same := SameParking.of_seen (preserves_onEngine ran)
    rw [← same.parked] at out
    rcases ends with ⟨-, rfl⟩ | finishes
    · exact ⟨fun waits => absurd waits out, fun u _ parked => (same.parked u).symm.trans parked,
        fun _ => nofun⟩
    · obtain ⟨engine, parked, settled⟩ := finishDrive_settles finishes
      exact ⟨fun waits => absurd (parked t waits) out,
        fun u _ waits => (same.parked u).symm.trans (parked u waits),
        fun _ => settled (engine ▸ scarce) out⟩
  · cases h
    exact .refl fun parked => absurd parked out

theorem lands_enter (before : Scarce b.engine) (after : Scarce b'.engine) (out : b.isParked? t ≠ some true)
    (h : enter t draining b = .ok host b') : Lands t b host b' := by
  cases entrance_of_enter h with
  | passes _ _ same =>
    subst same
    exact .refl fun parked => absurd parked out
  | waits _ parks _ stands =>
    exact ⟨fun _ => ⟨draining, stands⟩, fun u other => parked_of_park other parks, fun _ => settled_park before parks⟩
  | leaves _ parks woken left =>
    have left := lands_leave after (by simp [woken]) left
    exact ⟨left.waits, fun u other parked => parked_of_park other parks (left.others u other parked),
      fun _ => left.settled (settled_park before parks)⟩

theorem lands_drainOrEnd (before : Scarce b.engine) (after : Scarce b'.engine)
    (out : b.isParked? t ≠ some true) (h : drainOrEnd t b = .ok host b') : Lands t b host b' := by
  cases drainStep_of_drainOrEnd h with
  | drains _ _ _ entered => exact lands_enter before after out entered
  | ends _ _ _ quits signals =>
    have same := SameParking.of_seen (preserves_quit (fun _ => rfl) t quits)
    have parked (u : Nat) (waits : b'.isParked? u = some true) : b.isParked? u = some true :=
      (same.parked u).symm.trans (parked_of_signal signals waits)
    exact ⟨fun waits => absurd (parked t waits) out, fun u _ => parked u, fun _ => settled_signal after signals⟩

theorem lands_begin {call : HostCall} (before : Scarce b.engine) (after : Scarce b'.engine)
    (out : b.isParked? t ≠ some true) (h : begin t call b = .ok host b') : Lands t b host b' := by
  cases call with
  | simulate =>
    obtain ⟨surplus, -, ⟨-, entered⟩ | ⟨-, -, rfl⟩⟩ := simulate_cases h
    · exact lands_enter before after out entered
    · exact .refl fun parked => absurd parked out
  | finish =>
    obtain ⟨marked, -⟩ := finish_eq_ok h
    have seen : b'.seen stance = b.seen stance := preserves_onEngine marked
    have same := sameParking_of_stances seen
    rw [← same.parked] at out
    exact ⟨fun parked => absurd parked out, fun u _ parked => (same.parked u).symm.trans parked,
      fun settled => settled.of_seen seen⟩

/-- Every section of a host thread that is parked only if it waits in the barrier. -/
theorem lands_proceed {stood : Host} (before : Scarce b.engine) (after : Scarce b'.engine)
    (waits : b.isParked? t = some true → ∃ draining, stood = .parked draining)
    (h : proceed t stood b = .ok host b') : Lands t b host b' := by
  have out (elsewhere : ∀ draining, stood ≠ .parked draining) : b.isParked? t ≠ some true := by
    intro parked
    obtain ⟨draining, stands⟩ := waits parked
    exact elsewhere draining stands
  cases stood with
  | outside =>
    obtain ⟨rfl, rfl⟩ := pure_eq_ok.mp h
    exact .refl waits
  | parked draining =>
    rcases parked_cases h with ⟨-, rfl, rfl⟩ | ⟨woken, left⟩
    · exact .refl waits
    · exact lands_leave after (by simp [woken]) left
  | syncing draining => exact lands_finishDrive before (out (by simp)) h
  | looping => exact lands_drainOrEnd before after (out (by simp)) h

/-! ## Section 4: Events -/

omit [SharedEngine E] in
/-- Nobody is parked, so nobody waits. -/
theorem settled_of_nobody (nobody : ∀ s ∈ b.slots, s.inBarrier = false) : b.Settled := by
  intro _ waits
  obtain ⟨t, s, found, -, parked⟩ := runs_eq_true.mp waits
  rw [nobody s (Array.mem_of_getElem? found)] at parked
  cases parked

/-- Whether an application thread starts on a slot whose host thread is parked, while no other running slot
can go on and nobody synchronizes across cores. -/
def strands (b : Barrier E) : Event → Bool
  | .start app =>
    match b.findApp? app with
    | some t => b.isParked? t == some true && !b.runs false && !b.syncing
    | none => false
  | _ => false

/-- An application thread that starts makes a slot run.  Either its host thread is not parked, or somebody
else can go on. -/
theorem settled_start {app : Nat} (settled : b.Settled) (safe : b.strands (.start app) = false)
    (h : change (.start app) b = .ok () b') : b'.Settled := by
  simp only [change, changeApp, get_bind] at h
  unfold strands at safe
  cases found : b.findApp? app with
  | none =>
    rw [found] at h
    obtain ⟨-, rfl⟩ := pure_eq_ok.mp h
    exact settled
  | some t =>
    simp only [found, modify_bind] at h
    simp only [found] at safe
    have seen : b'.seen stance = (b.modifySlot t fun s => { s with running := true }).seen stance :=
      preserves_notifyActive h
    refine Settled.of_seen (fun idle _ => ?_) seen
    rw [runs_eq_true]
    obtain ⟨s, slot⟩ : ∃ s, b.slots[t]? = some s := by
      obtain ⟨inside, -⟩ := Array.findIdx?_eq_some_iff_getElem.mp found
      exact ⟨_, Array.getElem?_eq_getElem inside⟩
    cases parked : s.inBarrier with
    | false => exact ⟨t, { s with running := true }, by simp [modifySlot, Array.getElem?_modify, slot], rfl, parked⟩
    | true =>
      have idle : b.syncing = false := idle
      have free : b.runs false = true := by simpa [isParked?, slot, parked, idle] using safe
      obtain ⟨u, s', slot', running, out⟩ := runs_eq_true.mp free
      have other : t ≠ u := by
        rintro rfl
        rw [slot] at slot'
        cases slot'
        cases parked.symm.trans out
      exact ⟨u, s', by simp [modifySlot, Array.getElem?_modify, other, slot'], running, out⟩

theorem settled_handle {event : Event} (scarce : Scarce b'.engine) (settled : b.Settled)
    (safe : b.strands event = false) (h : handle event b = .ok () b') : b'.Settled := by
  rw [handle_eq] at h
  obtain ⟨⟨⟩, b₁, changed, h⟩ := bind_eq_ok.mp h
  split at h
  · exact settled_signal scarce h
  · rename_i unlooked
    obtain ⟨-, rfl⟩ := pure_eq_ok.mp h
    cases event with
    | start app => exact settled_start settled safe changed
    | enable =>
      rw [change, modify_eq_ok] at changed
      subst changed
      exact settled
    | disable =>
      rw [change, modify_eq_ok] at changed
      subst changed
      refine settled_of_nobody fun s mem => ?_
      obtain ⟨s', -, rfl⟩ := Array.mem_map.mp mem
      rfl
    | exit app => exact absurd rfl unlooked
    | stall app => exact absurd rfl unlooked
    | resume app => exact absurd rfl unlooked
    | migrate app core => exact absurd rfl unlooked

theorem parked_of_handle {event : Event} {u : Nat} (h : handle event b = .ok () b')
    (parked : b'.isParked? u = some true) : b.isParked? u = some true := by
  rw [handle_eq] at h
  obtain ⟨⟨⟩, b₁, changed, h⟩ := bind_eq_ok.mp h
  have still : b₁.isParked? u = some true := by
    split at h
    · exact parked_of_signal h parked
    · obtain ⟨-, rfl⟩ := pure_eq_ok.mp h
      exact parked
  rcases (change_eq_ok changed).2.2 u with same | letGo
  · rw [← same]
    exact still
  · -- whoever is let go was parked
    cases event with
    | migrate app core =>
      simp only [letsGo, Bool.and_eq_true, beq_iff_eq] at letGo
      exact letGo.2
    | disable => simpa [letsGo] using letGo
    | _ => cases letGo

end Barrier

/-! ## Section 5: Sessions -/

namespace Session

variable {E : Type} [SharedEngine E] {s s' : Session E} {a : Action E} {t : Nat}

/-- Whether an action starts an application thread on a slot whose host thread is parked, while no other
running slot can go on and nobody synchronizes across cores. -/
def strands (s : Session E) : Action E → Bool
  | .handle event => s.barrier.strands event
  | _ => false

/-- Whoever is parked waits inside, and the barrier is moving. -/
structure Attended (s : Session E) : Prop where
  /-- Whoever is parked waits inside. -/
  waits : ∀ t, s.barrier.isParked? t = some true → ∃ draining, s.host t = .parked draining
  /-- The barrier is moving. -/
  settled : s.barrier.Settled

omit [SharedEngine E] in
/-- A section of a host thread. -/
theorem Attended.of_lands {host : Host} {b : Barrier E} (attended : Attended s) (inside : t < s.hosts.size)
    (lands : s.barrier.Lands t host b) :
    Attended (Session.setHost t host { s with barrier := b }) := by
  refine ⟨fun u parked => ?_, lands.settled attended.settled⟩
  rw [host_setHost]
  by_cases same : t = u
  · subst same
    rw [if_pos ⟨rfl, inside⟩]
    exact lands.waits parked
  · rw [if_neg (fun both => same both.1)]
    exact attended.waits u (lands.others u (Ne.symm same) parked)

theorem Attended.register {core slot : Nat} {hasClient : Bool} {setUp : Nat → Faulting E Unit}
    (attended : Attended s) (h : Session.register core hasClient setUp s = .ok slot s') : Attended s' := by
  obtain ⟨-, hosts, seen⟩ := register_eq_ok Barrier.stance h
  refine ⟨fun t parked => ?_, Barrier.Settled.of_seen (fun idle waits => ?_) seen⟩
  · rw [hosts]
    rw [(Barrier.sameParking_of_stances seen).parked] at parked
    refine attended.waits t ?_
    simp only [Barrier.isParked?, Array.getElem?_push] at parked
    split at parked
    · cases parked
    · exact parked
  · -- the new slot does not run
    have same (parked : Bool) : Barrier.runs parked
        { s.barrier with slots := s.barrier.slots.push { core := core, hasClient := hasClient } } =
          s.barrier.runs parked := by
      simp [Barrier.runs]
    rw [same] at waits ⊢
    exact attended.settled idle waits

theorem Attended.perform (attended : Attended s) (before : Barrier.Scarce s.barrier.engine)
    (after : Barrier.Scarce s'.barrier.engine) (safe : s.strands a = false) (allowed : a.isAllowed s = true)
    (h : a.perform s = .ok () s') : Attended s' := by
  have inside {u : Nat} {draining : Host} (stands : s.host u = draining) (called : draining ≠ .outside) :
      u < s.hosts.size := by
    by_cases inside : u < s.hosts.size
    · exact inside
    · have absent : s.host u = .outside := by simp [Session.host, inside]
      exact absurd (stands.symm.trans absent) called
  cases a with
  | register core hasClient setUp =>
    obtain ⟨slot, s₁, registered, h⟩ := bind_eq_ok.mp h
    obtain ⟨-, rfl⟩ := pure_eq_ok.mp h
    exact attended.register registered
  | handle event =>
    obtain ⟨b, handled, rfl⟩ := onBarrier_eq_ok.mp h
    exact ⟨fun t parked => attended.waits t (Barrier.parked_of_handle handled parked),
      Barrier.settled_handle after attended.settled safe handled⟩
  | start t call =>
    obtain ⟨host, b, began, rfl⟩ := perform_start_eq_ok h
    simp only [Action.isAllowed, Bool.and_eq_true, decide_eq_true_eq, beq_iff_eq] at allowed
    obtain ⟨⟨-, there⟩, idle⟩ := allowed
    refine attended.of_lands there (Barrier.lands_begin before after (fun parked => ?_) began)
    obtain ⟨draining, stands⟩ := attended.waits t parked
    cases idle.symm.trans stands
  | step t =>
    obtain ⟨host, b, proceeded, rfl⟩ := perform_step_eq_ok h
    simp only [Action.isAllowed, Bool.and_eq_true, bne_iff_ne] at allowed
    exact attended.of_lands (inside rfl allowed.2)
      (Barrier.lands_proceed before after (attended.waits t) proceeded)
  | _ =>
    obtain ⟨b, rfl, seen⟩ := perform_aside Barrier.stance rfl (fun _ _ _ => rfl) h
    refine ⟨fun t parked => attended.waits t ?_, attended.settled.of_seen seen⟩
    rwa [(Barrier.sameParking_of_stances seen).parked] at parked

end Session

/-! ## Section 6: Courses -/

namespace Course

variable {E : Type} [SharedEngine E] {c c' : Course E}

/-- While a running slot is parked, some running slot is not, so that the barrier can be completed: in every
interleaving in which no application thread is started on a slot whose host thread is parked while all
other running slots are parked, too.  This holds at every moment when nobody synchronizes across cores, as
long as the surpluses of the slots stay below the largest word. -/
theorem running_slot_left_unless_stranded {engine : E} {as : List (Session.Action E)}
    (made : Course.of engine as = some c)
    (scarce : ∀ bs c, bs <+: as → Course.of engine bs = some c → Barrier.Scarce c.session.barrier.engine)
    (safe : ∀ bs a c, bs ++ [a] <+: as → Course.of engine bs = some c → c.session.strands a = false)
    (idle : c.session.barrier.syncing = false) (waits : c.session.barrier.runs true = true) :
    c.session.barrier.runs false = true := by
  have attended : as <+: as → c.session.Attended := by
    refine induction_of (P := fun bs c => bs <+: as → c.session.Attended) (fun _ => ?_)
      (fun bs c a c' before ih next part => ?_) made
    · exact ⟨fun _ parked => (by cases parked), fun _ waits => (by simp [Barrier.runs] at waits)⟩
    · have upTo : bs <+: as := (List.prefix_append bs [a]).trans part
      exact (ih upTo).perform (scarce bs c upTo before) (scarce _ c' part (of_concat before next))
        (safe bs a c part before) (isAllowed_of_after next) (after_eq_some next).1
  exact (attended List.prefix_rfl).settled idle waits

/-- Whether `p` holds all along an interleaving, of the course so far and the action that comes next. -/
def allAlong (p : Course PlannedEngine → Option (Session.Action PlannedEngine) → Bool)
    (as : List (Session.Action PlannedEngine)) : Bool :=
  (List.range (as.length + 1)).all fun n => (Course.of {} (as.take n)).all fun c => p c as[n]?

theorem of_allAlong {p : Course PlannedEngine → Option (Session.Action PlannedEngine) → Bool}
    {as bs : List (Session.Action PlannedEngine)} {c : Course PlannedEngine} (h : allAlong p as = true)
    (part : bs <+: as) (made : Course.of {} bs = some c) : p c as[bs.length]? = true := by
  have upTo : bs.length ∈ List.range (as.length + 1) :=
    List.mem_range.mpr (Nat.lt_succ_of_le part.length_le)
  have checked := List.all_eq_true.mp h bs.length upTo
  rwa [← List.prefix_iff_eq_take.mp part, made, Option.all_some] at checked

/-- Whether all surpluses of a planned engine are small. -/
def isScarce (e : PlannedEngine) : Bool := e.slots.all (·.surplus < Word.max)

theorem scarce_of_isScarce {e : PlannedEngine} (h : isScarce e = true) : Barrier.Scarce e := by
  intro t surplus answered
  simp only [SharedEngine.surplus, PlannedEngine.supply] at answered
  cases found : e.slots[t]? with
  | none =>
    rw [found] at answered
    cases answered
  | some supply =>
    rw [found] at answered
    cases answered
    obtain ⟨inside, rfl⟩ := Array.getElem?_eq_some_iff.mp found
    simpa using Array.all_eq_true.mp h t inside

/-- The first of two hosts has driven a round, which has released the second one, and is parked again. -/
def parkedAfterRound : List (Session.Action PlannedEngine) :=
  twoHosts ++ [.step 0, .push 0 (List.replicate 130 { op := {} }), .start 0 .simulate]

/-- While the first of two hosts is parked, the second one can go on. -/
theorem running_slot_left_after_round : ∃ c : Course PlannedEngine,
    Course.of {} parkedAfterRound = some c ∧ c.session.barrier.syncing = false ∧
      c.session.barrier.runs true = true ∧ c.session.barrier.runs false = true := by
  have small : allAlong (fun c _ => isScarce c.session.barrier.engine) parkedAfterRound = true := by
    decide +kernel
  have orderly : allAlong (fun c next => next.all fun a => !c.session.strands a) parkedAfterRound = true := by
    decide +kernel
  have computed : (Course.of {} parkedAfterRound).any (fun c =>
      !c.session.barrier.syncing && c.session.barrier.runs true) = true := by decide +kernel
  obtain ⟨c, made, computed⟩ := (Option.any_eq_true _ _).mp computed
  rw [Bool.and_eq_true, Bool.not_eq_true'] at computed
  obtain ⟨idle, waits⟩ := computed
  refine ⟨c, made, idle, waits, running_slot_left_unless_stranded made
    (fun bs c part before => scarce_of_isScarce (of_allAlong small part before))
    (fun bs a c part before => ?_) idle waits⟩
  have acts : parkedAfterRound[bs.length]? = some a := by
    obtain ⟨rest, whole⟩ := part
    rw [← whole]
    simp
  have safe := of_allAlong orderly ((List.prefix_append bs [a]).trans part) before
  rw [acts] at safe
  simpa using safe

/-- One slot, whose host thread enters the barrier before the application thread starts. -/
def startedLate : List (Session.Action PlannedEngine) :=
  [.register 0 false stocked, .bind 0 0, .start 0 .simulate, .handle (.start 0)]

/-- A start does not look at the barrier.  The only slot runs and is parked, nobody holds the lock or
synchronizes, all surpluses are small, and the host thread stays parked when it has its turn. -/
theorem started_slot_stranded : ∃ c : Course PlannedEngine,
    Course.of {} startedLate = some c ∧ c.session.lockFree = true ∧ c.session.barrier.syncing = false ∧
      (∀ bs c, bs <+: startedLate → Course.of {} bs = some c → Barrier.Scarce c.session.barrier.engine) ∧
      c.session.barrier.runs true = true ∧ c.session.barrier.runs false = false ∧
      (c.after (.step 0)).any (fun c' => !c'.session.barrier.runs false) = true := by
  have small : allAlong (fun c _ => isScarce c.session.barrier.engine) startedLate = true := by
    decide +kernel
  have computed : (Course.of {} startedLate).any (fun c => c.session.lockFree &&
      !c.session.barrier.syncing && c.session.barrier.runs true && !c.session.barrier.runs false &&
      (c.after (.step 0)).any (fun c' => !c'.session.barrier.runs false)) = true := by decide +kernel
  obtain ⟨c, made, computed⟩ := (Option.any_eq_true _ _).mp computed
  simp only [Bool.and_eq_true, Bool.not_eq_true'] at computed
  obtain ⟨⟨⟨⟨free, idle⟩, waits⟩, nobody⟩, stays⟩ := computed
  exact ⟨c, made, free, idle, fun bs c part before => scarce_of_isScarce (of_allAlong small part before),
    waits, nobody, by simpa using stays⟩

end Course

end CoreTiming
