import CoreTiming.Proofs.Interleaving
import CoreTiming.Proofs.WholeCalls

/-!
# A barrier with one slot

A host thread that has the barrier for itself never waits in it: it completes the barrier by entering, it is the one
that is released, and so it drives the engine at once.  What is left of its calls are the engine's own operations.
-/

namespace CoreTiming

open Faulting

/-- The slot of an application thread whose host thread is not in the barrier. -/
def Slot.outside (core app : Nat) (running : Bool) : Slot := { core, app := some app, running }

namespace Barrier

variable {E : Type} [SharedEngine E] (core app : Nat) {n : Nat} {w : E} {enough draining : Bool} (driver : Option Nat)

/-- A barrier around one slot. -/
def single (slot : Slot) (engine : E) (enabled : Bool) (driver : Option Nat) : Barrier E :=
  { slots := #[slot], engine, enabled, driver }

/-! ## Section 1: Release -/

/-- The slot of a host thread that has parked. -/
def parkedSlot (core app : Nat) : Slot := { Slot.outside core app true with inBarrier := true }

/-- The caller is the only one who can be selected. -/
theorem below_single (counted : SharedEngine.surplus w 0 = .ok n) (limit : Nat) (r : Release) :
    releaseBelow limit false (some 0) [0] r (single (parkedSlot core app) w true driver) =
      if limit ≤ n then .ok r (single (parkedSlot core app) w true driver)
      else .ok { selectsCaller := true, active := r.active + 1 } (single (parkedSlot core app) w true (some 0)) := by
  unfold releaseBelow
  show (Faulting.ofExcept (SharedEngine.surplus w 0) >>= _ : Faulting (Barrier E) Release) _ = _
  rw [counted]
  show (if limit ≤ n then _ else _ : Faulting (Barrier E) Release) _ = _
  split
  · rfl
  · rfl

/-- Once the caller has been selected, somebody is active, and the search is over. -/
theorem least_selected (rounds limit : Nat) :
    releaseLeast false (some 0) rounds limit { selectsCaller := true, active := 1 }
        (single (parkedSlot core app) w true (some 0)) =
      .ok { selectsCaller := true, active := 1 } (single (parkedSlot core app) w true (some 0)) := by
  cases rounds with
  | zero => rfl
  | succ rounds => rfl

/-- While nobody is active, those below the limit are looked for, and then the limit is doubled. -/
theorem least_turn (rounds limit : Nat) :
    releaseLeast false (some 0) (rounds + 1) limit {} (single (parkedSlot core app) w true driver) = (do
      let r ← releaseBelow limit false (some 0) [0] {}
      releaseLeast false (some 0) rounds (min (2 * limit) Word.max) r)
      (single (parkedSlot core app) w true driver) := by
  have parked :
      (single (parkedSlot core app) w true driver).slots.any (fun s => s.inBarrier && s.running) = true := by
    simp [single, parkedSlot, Slot.outside]
  rw [releaseLeast, get_bind, if_neg (by simp [parked])]
  rfl

/-- With the doubled limit, one round less reaches as far. -/
theorem below_doubled {rounds limit : Nat} (below : n < min (2 ^ (rounds + 1) * limit) Word.max) :
    n < min (2 ^ rounds * min (2 * limit) Word.max) Word.max := by
  refine lt_min ?_ (lt_of_lt_of_le below (min_le_right _ _))
  rcases Nat.le_total (2 * limit) Word.max with small | large
  · rw [min_eq_left small, ← Nat.mul_assoc, ← Nat.pow_succ]
    exact lt_of_lt_of_le below (min_le_left _ _)
  · rw [min_eq_right large]
    exact lt_of_lt_of_le (lt_of_lt_of_le below (min_le_right _ _)) (Nat.le_mul_of_pos_left _ (Nat.two_pow_pos _))

/-- The limit doubles until the caller is below it, whatever is buffered for it. -/
theorem least_single (counted : SharedEngine.surplus w 0 = .ok n) {rounds limit : Nat}
    (below : n < min (2 ^ rounds * limit) Word.max) :
    ∃ r : Release, r.selectsCaller = true ∧
      releaseLeast false (some 0) (rounds + 1) limit {} (single (parkedSlot core app) w true driver) =
        .ok r (single (parkedSlot core app) w true (some 0)) := by
  -- the induction is on the rounds that are left, of which the last reaches every count that fits into a word
  induction rounds generalizing limit with
  | zero =>
    have first := below_single core app driver counted limit {}
    rw [if_neg (by omega)] at first
    exact ⟨_, rfl, (least_turn core app driver 0 limit).trans ((bind_of_ok first).trans (least_selected ..))⟩
  | succ rounds ih =>
    have first := below_single core app driver counted limit {}
    have turn := least_turn (w := w) core app driver (rounds + 1) limit
    by_cases more : limit ≤ n
    · rw [if_pos more] at first
      obtain ⟨r, me, rest⟩ := ih (below_doubled below)
      exact ⟨r, me, turn.trans ((bind_of_ok first).trans rest)⟩
    · rw [if_neg more] at first
      exact ⟨_, rfl, turn.trans ((bind_of_ok first).trans (least_selected ..))⟩

/-- The caller is selected at once if it lacks micro-ops. -/
theorem needy_single (answered : SharedEngine.hasEnough w 0 = .ok enough) :
    releaseNeedy false (some 0) [0] {} (single (parkedSlot core app) w true (some 0)) =
      .ok (if enough then {} else { selectsCaller := true, active := 1 })
        (single (parkedSlot core app) w true (some 0)) := by
  unfold releaseNeedy
  show (Faulting.ofExcept (SharedEngine.hasEnough w 0) >>= _ : Faulting (Barrier E) Release) _ = _
  rw [answered]
  cases enough with
  | true => rfl
  | false => rfl

/-- The host thread that has parked is released by itself, whether it lacks micro-ops or not. -/
theorem release_single (answered : SharedEngine.hasEnough w 0 = .ok enough)
    (counted : SharedEngine.surplus w 0 = .ok n) (fits : n < Word.max) :
    release false (some 0) (single (parkedSlot core app) w true driver) =
      .ok true (single (parkedSlot core app) w true (some 0)) := by
  have looks : release false (some 0) (single (parkedSlot core app) w true driver) = (do
      let r ← releaseNeedy false (some 0) [0] {}
      let r ← releaseLeast false (some 0) releaseRounds 1 r
      pure r.selectsCaller) (single (parkedSlot core app) w true (some 0)) := rfl
  rw [looks, bind_of_ok (needy_single core app answered)]
  -- who lacks micro-ops has been selected already, anyone else is found below some limit
  cases enough with
  | true =>
    have below : n < min (2 ^ 64 * 1) Word.max := lt_min (lt_trans fits (by decide)) fits
    obtain ⟨r, me, least⟩ := least_single core app (some 0) counted below
    refine (bind_of_ok (x := releaseLeast false (some 0) releaseRounds 1 {}) least).trans ?_
    rw [me]
    rfl
  | false => rfl

/-! ## Section 2: Rounds -/

/-- A host thread that has the barrier for itself is in it no longer once it has parked. -/
theorem park_single (answered : SharedEngine.hasEnough w 0 = .ok enough)
    (counted : SharedEngine.surplus w 0 = .ok n) (fits : n < Word.max) :
    park 0 (single (Slot.outside core app true) w true driver) =
      .ok () (single (Slot.outside core app true) w true (some 0)) := by
  have reached : (single (parkedSlot core app) w true driver).isReached = true := by
    simp [isReached, single, parkedSlot, Slot.outside]
  have parks : park 0 (single (Slot.outside core app true) w true driver) =
      (if (single (parkedSlot core app) w true driver).isReached then (do
        if ← release false (some 0) then modify (wake 0)) else pure () : Faulting (Barrier E) Unit)
        (single (parkedSlot core app) w true driver) := rfl
  rw [parks, if_pos reached, bind_of_ok (release_single core app driver answered counted fits)]
  rfl

/-- A host thread that enters the barrier drives the engine. -/
theorem enter_single (answered : SharedEngine.hasEnough w 0 = .ok enough)
    (counted : SharedEngine.surplus w 0 = .ok n) (fits : n < Word.max) :
    enter 0 draining (single (Slot.outside core app true) w true driver) =
      match SharedEngine.execute 0 #[Slot.outside core app true] w with
      | .ok () w' => .ok (.afterRound draining) (single (Slot.outside core app true) w' true (some 0))
      | .error f w' => .error f (single (Slot.outside core app true) w' true (some 0)) := by
  have drives : enter 0 draining (single (Slot.outside core app true) w true driver) =
      drive 0 draining (single (Slot.outside core app true) w true (some 0)) := by
    rw [enter_eq]
    show (park 0 >>= _ : Faulting (Barrier E) Host) (single (Slot.outside core app true) w true driver) = _
    rw [bind_of_ok (park_single core app driver answered counted fits)]
    rfl
  rw [drives]
  show (onEngine (SharedEngine.execute 0 #[Slot.outside core app true]) >>= _ : Faulting (Barrier E) Host) _ = _
  cases ran : SharedEngine.execute 0 #[Slot.outside core app true] w with
  | ok a w' =>
    have advanced : onEngine (SharedEngine.execute 0 #[Slot.outside core app true])
        (single (Slot.outside core app true) w true (some 0)) =
          .ok () (single (Slot.outside core app true) w' true (some 0)) := onEngine_eq_ok.mpr ⟨w', ran, rfl⟩
    rw [bind_of_ok advanced]
    rfl
  | error f w' =>
    refine bind_of_error ?_
    unfold onEngine Faulting.zoom
    dsimp only [single]
    rw [ran]

/-- Where few micro-ops are buffered, or the barrier is out of force, a host thread returns at once. -/
theorem begin_single_of_few {enabled : Bool} (counted : SharedEngine.surplus w 0 = .ok n)
    (few : n ≤ simulateThreshold ∨ enabled = false) :
    begin 0 .simulate (single (Slot.outside core app true) w enabled driver) =
      .ok .outside (single (Slot.outside core app true) w enabled driver) := by
  unfold begin
  show (Faulting.ofExcept (SharedEngine.surplus w 0) >>= _ : Faulting (Barrier E) Host) _ = _
  rw [counted]
  show (if simulateThreshold < n then enter 0 false else pure .outside : Faulting (Barrier E) Host) _ = _
  split
  · rename_i many
    obtain rfl : enabled = false := few.resolve_left (by omega)
    rfl
  · rfl

/-- Otherwise it drives the engine. -/
theorem begin_single_of_many (answered : SharedEngine.hasEnough w 0 = .ok enough)
    (counted : SharedEngine.surplus w 0 = .ok n) (fits : n < Word.max) (many : simulateThreshold < n) :
    begin 0 .simulate (single (Slot.outside core app true) w true driver) =
      match SharedEngine.execute 0 #[Slot.outside core app true] w with
      | .ok () w' => .ok .outside (single (Slot.outside core app true) w' true (some 0))
      | .error f w' => .error f (single (Slot.outside core app true) w' true (some 0)) := by
  unfold begin
  show (Faulting.ofExcept (SharedEngine.surplus w 0) >>= _ : Faulting (Barrier E) Host) _ = _
  rw [counted]
  show (if simulateThreshold < n then enter 0 false else pure .outside : Faulting (Barrier E) Host) _ = _
  rw [if_pos many]
  exact enter_single core app driver answered counted fits

/-- While something is left to drain, the loop of a host thread goes on by driving the engine. -/
theorem drainOrEnd_single_of_left (answered : SharedEngine.hasEnough w 0 = .ok enough)
    (counted : SharedEngine.surplus w 0 = .ok n) (fits : n < Word.max)
    (left : SharedEngine.isDrained w 0 = .ok false) :
    drainOrEnd 0 (single (Slot.outside core app true) w true driver) =
      match SharedEngine.execute 0 #[Slot.outside core app true] w with
      | .ok () w' => .ok .looping (single (Slot.outside core app true) w' true (some 0))
      | .error f w' => .error f (single (Slot.outside core app true) w' true (some 0)) := by
  unfold drainOrEnd
  show (Faulting.ofExcept (SharedEngine.isDrained w 0) >>= _ : Faulting (Barrier E) Host) _ = _
  rw [left]
  exact enter_single core app driver answered counted fits

/-- When nothing is left, the thread ends. -/
theorem drainOrEnd_single_of_drained {w' : E} (drained : SharedEngine.isDrained w 0 = .ok true)
    (told : SharedEngine.repartition #[Slot.outside core app false] w = .ok () w') :
    drainOrEnd 0 (single (Slot.outside core app true) w true driver) =
      .ok .outside (single (Slot.outside core app false) w' true driver) := by
  unfold drainOrEnd
  show (Faulting.ofExcept (SharedEngine.isDrained w 0) >>= _ : Faulting (Barrier E) Host) _ = _
  rw [drained]
  have notified : notifyActive (single (Slot.outside core app false) w true driver) =
      .ok () (single (Slot.outside core app false) w' true driver) := onEngine_eq_ok.mpr ⟨w', told, rfl⟩
  -- without a running thread the barrier is not reached, so that nobody is released
  have quiet : (single (Slot.outside core app false) w' true driver).isReached = false := by
    simp [isReached, single, Slot.outside]
  have signalled : signal (single (Slot.outside core app false) w' true driver) =
      .ok () (single (Slot.outside core app false) w' true driver) := by
    unfold signal
    rw [get_bind, if_neg (by simp [quiet])]
    rfl
  show (notifyActive >>= _ : Faulting (Barrier E) Host) (single (Slot.outside core app false) w true driver) = _
  rw [bind_of_ok notified, bind_of_ok signalled]
  rfl

end Barrier

/-! ## Section 3: The end of a stream -/

namespace Session

variable {E : Type} [SharedEngine E] (core app : Nat) {n : Nat} {w w₁ w₂ w₃ : E} {enough : Bool}
  (driver : Option Nat) {b b' : Barrier E} {f : Fault}

/-- The host thread that is at the head of its loop goes on. -/
theorem runLoop_of_ok {h : Host} (ran : Barrier.drainOrEnd 0 b = .ok h b') (rounds : Nat) :
    runLoop 0 (rounds + 1) { barrier := b, hosts := #[.looping] } =
      runLoop 0 rounds { barrier := b', hosts := #[h] } := by
  have stepped : step 0 { barrier := b, hosts := #[.looping] } = .ok () { barrier := b', hosts := #[h] } := by
    have through : onBarrier (Barrier.drainOrEnd 0) { barrier := b, hosts := #[.looping] } =
        .ok h { barrier := b', hosts := #[.looping] } := onBarrier_eq_ok.mpr ⟨b', ran, rfl⟩
    show (onBarrier (Barrier.drainOrEnd 0) >>= _ : Faulting (Session E) Unit) _ = _
    rw [bind_of_ok through]
    rfl
  show (step 0 >>= fun _ => runLoop 0 rounds : Faulting (Session E) Unit) _ = _
  rw [bind_of_ok stepped]

theorem runLoop_of_error (stopped : Barrier.drainOrEnd 0 b = .error f b') (rounds : Nat) :
    runLoop 0 (rounds + 1) { barrier := b, hosts := #[.looping] } =
      .error f { barrier := b', hosts := #[.looping] } := by
  show (step 0 >>= fun _ => runLoop 0 rounds : Faulting (Session E) Unit) _ = _
  refine bind_of_error ?_
  show (onBarrier (Barrier.drainOrEnd 0) >>= _ : Faulting (Session E) Unit) _ = _
  refine bind_of_error ?_
  unfold onBarrier Faulting.zoom
  dsimp only
  rw [stopped]

theorem runLoop_outside (b : Barrier E) (rounds : Nat) :
    runLoop 0 rounds { barrier := b, hosts := #[.outside] } = .ok () { barrier := b, hosts := #[.outside] } := by
  cases rounds with
  | zero => rfl
  | succ rounds => rfl

/-- The call that drains the slot begins by marking the end of the stream. -/
theorem call_finish_single (marked : SharedEngine.markEndOfStream 0 w = .ok () w₁) (slot : Slot) (enabled : Bool) :
    call 0 .finish { barrier := .single slot w enabled driver, hosts := #[.outside] } =
      runLoop 0 maxRounds { barrier := .single slot w₁ enabled driver, hosts := #[.looping] } := by
  have begun : Barrier.begin 0 .finish (.single slot w enabled driver) =
      .ok .looping (.single slot w₁ enabled driver) := by
    show (Barrier.onEngine (SharedEngine.markEndOfStream 0) >>= fun _ => pure .looping :
      Faulting (Barrier E) Host) _ = _
    rw [bind_of_ok (Barrier.onEngine_eq_ok.mpr ⟨w₁, marked, rfl⟩)]
    rfl
  have started : start 0 .finish { barrier := .single slot w enabled driver, hosts := #[.outside] } =
      .ok () { barrier := .single slot w₁ enabled driver, hosts := #[.looping] } := by
    show (onBarrier (Barrier.begin 0 .finish) >>= _ : Faulting (Session E) Unit) _ = _
    rw [bind_of_ok (onBarrier_eq_ok.mpr ⟨_, begun, rfl⟩)]
    rfl
  show (start 0 .finish >>= fun _ => runLoop 0 maxRounds : Faulting (Session E) Unit) _ = _
  rw [bind_of_ok started]

/-- There are rounds enough to run the engine and then to end. -/
theorem exists_maxRounds : ∃ rounds, maxRounds = rounds + 2 := ⟨0xFFFFE, rfl⟩

/-- When nothing is left to drain, the slot ends. -/
theorem call_finish_of_drained (marked : SharedEngine.markEndOfStream 0 w = .ok () w₁)
    (drained : SharedEngine.isDrained w₁ 0 = .ok true)
    (told : SharedEngine.repartition #[Slot.outside core app false] w₁ = .ok () w₂) :
    call 0 .finish { barrier := .single (.outside core app true) w true driver, hosts := #[.outside] } =
      .ok () { barrier := .single (.outside core app false) w₂ true driver, hosts := #[.outside] } := by
  obtain ⟨rounds, enough⟩ := exists_maxRounds
  rw [call_finish_single driver marked, enough,
    runLoop_of_ok (Barrier.drainOrEnd_single_of_drained core app driver drained told), runLoop_outside]

/-- Otherwise the engine runs, after which nothing is left. -/
theorem call_finish_of_left (marked : SharedEngine.markEndOfStream 0 w = .ok () w₁)
    (answered : SharedEngine.hasEnough w₁ 0 = .ok enough) (counted : SharedEngine.surplus w₁ 0 = .ok n)
    (fits : n < Word.max) (left : SharedEngine.isDrained w₁ 0 = .ok false)
    (ran : SharedEngine.execute 0 #[Slot.outside core app true] w₁ = .ok () w₂)
    (drained : SharedEngine.isDrained w₂ 0 = .ok true)
    (told : SharedEngine.repartition #[Slot.outside core app false] w₂ = .ok () w₃) :
    call 0 .finish { barrier := .single (.outside core app true) w true driver, hosts := #[.outside] } =
      .ok () { barrier := .single (.outside core app false) w₃ true (some 0), hosts := #[.outside] } := by
  obtain ⟨rounds, many⟩ := exists_maxRounds
  have first := Barrier.drainOrEnd_single_of_left core app driver answered counted fits left
  rw [ran] at first
  rw [call_finish_single driver marked, many, runLoop_of_ok first,
    runLoop_of_ok (Barrier.drainOrEnd_single_of_drained core app (some 0) drained told), runLoop_outside]

/-- Or the engine stops. -/
theorem call_finish_of_error (marked : SharedEngine.markEndOfStream 0 w = .ok () w₁)
    (answered : SharedEngine.hasEnough w₁ 0 = .ok enough) (counted : SharedEngine.surplus w₁ 0 = .ok n)
    (fits : n < Word.max) (left : SharedEngine.isDrained w₁ 0 = .ok false)
    (stopped : SharedEngine.execute 0 #[Slot.outside core app true] w₁ = .error f w₂) :
    ∃ t, call 0 .finish { barrier := .single (.outside core app true) w true driver, hosts := #[.outside] } =
      .error f t := by
  obtain ⟨rounds, many⟩ := exists_maxRounds
  have first := Barrier.drainOrEnd_single_of_left core app driver answered counted fits left
  rw [stopped] at first
  rw [call_finish_single driver marked, many, runLoop_of_error first]
  exact ⟨_, rfl⟩

end Session

end CoreTiming
