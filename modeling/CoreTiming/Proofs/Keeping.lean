import CoreTiming.Proofs.Capacity

/-!
# What an operation leaves however it ends

An operation that a fault stops leaves the state as far as it came.  `Keeps R F x` says of `x` that the state it
leaves is in relation `R` to the one it found, whether `x` goes through or is stopped, and that only faults of
`F` stop it.  Chains of such operations are such operations, so one pass over the parts of a cycle answers two
questions about windows that may be in any state, sound or not:

* no cycle changes what a thread has been told, and no thread loses instructions it has retired (`Undisturbed`);
* no cycle stops because a buffer overflows, unless memory says so (`Window.Stops`).
-/

namespace CoreTiming

open Faulting

/-! ## Section 1: Chains -/

namespace Faulting

variable {α β σ τ : Type}

/-- However `x` ends, the state it leaves is in relation `R` to the one it found; a fault that stops it is one of
`F`. -/
structure Keeps (R : σ → σ → Prop) (F : Fault → Prop) (x : Faulting σ α) : Prop where
  /-- What it leaves when it goes through. -/
  done : ∀ ⦃s a t⦄, x s = .ok a t → R s t
  /-- What it leaves when it is stopped, and what stops it. -/
  stopped : ∀ ⦃s f t⦄, x s = .error f t → R s t ∧ F f

variable {R : σ → σ → Prop} {F G : Fault → Prop} {x : Faulting σ α}

theorem Keeps.mono (h : Keeps R F x) (weaker : ∀ f, F f → G f) : Keeps R G x :=
  ⟨h.done, fun _ _ _ ran => (h.stopped ran).imp_right (weaker _)⟩

/-- An operation on a part keeps of the whole what it keeps of the part. -/
theorem Keeps.zoom [Inhabited τ] {part : σ → τ} {replace : τ → σ → σ} {x : Faulting τ α}
    {Q : τ → τ → Prop} (h : Keeps Q F x)
    (lift : ∀ s p, Q (part s) p → R s (replace p (replace default s))) :
    Keeps R F (Faulting.zoom part replace x) := by
  refine ⟨fun s a t ran => ?_, fun s f t ran => ?_⟩
  · obtain ⟨p, inner, rfl⟩ := zoom_eq_ok.mp ran
    exact lift s p (h.done inner)
  · unfold Faulting.zoom at ran
    cases inner : x (part s) with
    | ok a p =>
      simp only [inner] at ran
      cases ran
    | error e p =>
      simp only [inner] at ran
      cases ran
      exact ⟨lift s p (h.stopped inner).1, (h.stopped inner).2⟩

variable [Std.Refl R]

theorem keeps_pure (a : α) : Keeps R F (pure a) := by
  refine ⟨fun s b t ran => ?_, fun s f t ran => absurd ran pure_ne_error⟩
  rw [← (pure_eq_ok.mp ran).2]
  exact Std.Refl.refl s

theorem keeps_get : Keeps R F (get : Faulting σ σ) := by
  refine ⟨fun s b t ran => ?_, fun s f t ran => ?_⟩
  · cases ran
    exact Std.Refl.refl s
  · cases ran

theorem keeps_throw {f : Fault} (h : F f) : Keeps R F (throw f : Faulting σ α) := by
  refine ⟨fun s b t ran => ?_, fun s f t ran => ?_⟩
  · cases ran
  · cases ran
    exact ⟨Std.Refl.refl s, h⟩

theorem keeps_ofExcept {x : Except Fault α} (h : ∀ f, x = .error f → F f) :
    Keeps R F (ofExcept x : Faulting σ α) := by
  cases x with
  | ok a => exact keeps_pure a
  | error e => exact keeps_throw (h e rfl)

omit [Std.Refl R] in
theorem keeps_modify {f : σ → σ} (h : ∀ s, R s (f s)) : Keeps R F (modify f : Faulting σ PUnit) := by
  refine ⟨fun s b t ran => ?_, fun s f t ran => absurd ran modify_ne_error⟩
  rw [← modify_eq_ok.mp ran]
  exact h s

omit [Std.Refl R] in
theorem keeps_modifyGet {f : σ → α × σ} (h : ∀ s, R s (f s).2) : Keeps R F (modifyGet f : Faulting σ α) := by
  refine ⟨fun s b t ran => ?_, fun s f t ran => ?_⟩
  · rw [modifyGet_eq_ok] at ran
    have kept := h s
    rwa [ran] at kept
  · cases ran

variable [IsTrans σ R]

omit [Std.Refl R] in
theorem Keeps.bind {f : α → Faulting σ β} (hx : Keeps R F x) (hf : ∀ a, Keeps R F (f a)) :
    Keeps R F (x >>= f) := by
  refine ⟨fun s b t ran => ?_, fun s e t ran => ?_⟩
  · obtain ⟨a, u, first, rest⟩ := bind_eq_ok.mp ran
    exact IsTrans.trans _ _ _ (hx.done first) ((hf a).done rest)
  · rcases bind_eq_error.mp ran with first | ⟨a, u, first, rest⟩
    · exact hx.stopped first
    · obtain ⟨kept, fault⟩ := (hf a).stopped rest
      exact ⟨IsTrans.trans _ _ _ (hx.done first) kept, fault⟩

theorem Keeps.forM {f : α → Faulting σ PUnit} (hf : ∀ a, Keeps R F (f a)) (xs : List α) :
    Keeps R F (xs.forM f) := by
  induction xs with
  | nil => exact keeps_pure _
  | cons x xs ih => exact (hf x).bind fun _ => ih

theorem Keeps.foldlM {f : β → α → Faulting σ β} (hf : ∀ b a, Keeps R F (f b a)) (xs : List α) (b : β) :
    Keeps R F (xs.foldlM f b) := by
  induction xs generalizing b with
  | nil => exact keeps_pure _
  | cons x xs ih =>
    rw [List.foldlM_cons]
    exact (hf b x).bind fun b' => ih b'

omit [IsTrans σ R] in
/-- A change that may be refused. -/
theorem keeps_update {g : σ → Except Fault σ} (h : ∀ s s', g s = .ok s' → R s s')
    (faults : ∀ s f, g s = .error f → F f) : Keeps R F (do set (← ofExcept (g (← get)))) := by
  refine ⟨fun s b t ran => ?_, fun s f t ran => ?_⟩
  · rw [get_bind] at ran
    obtain ⟨made, _, asked, ran⟩ := bind_eq_ok.mp ran
    obtain ⟨accepted, rfl⟩ := ofExcept_eq_ok.mp asked
    cases ran
    exact h s t accepted
  · rw [get_bind] at ran
    cases asked : g s with
    | ok made =>
      rw [asked] at ran
      cases ran
    | error e =>
      rw [asked] at ran
      cases ran
      exact ⟨Std.Refl.refl s, faults s f asked⟩

end Faulting

/-! ## Section 2: Faults that are not about buffers -/

/-- Whether the fault says that the buffer in front of a window was full. -/
def Fault.isBufferFull : Fault → Bool
  | .bufferFull .. => true
  | _ => false

section

variable {α β : Type} {f : Fault}

/-- The computation never stops because a buffer was full. -/
def Except.Buffers (x : Except Fault α) : Prop := ∀ f, x = .error f → f.isBufferFull = false

theorem Except.buffers_pure (a : α) : Except.Buffers (pure a) := by
  intro f h
  cases h

theorem Except.Buffers.bind {x : Except Fault α} {g : α → Except Fault β} (hx : Except.Buffers x)
    (hg : ∀ a, Except.Buffers (g a)) : Except.Buffers (x >>= g) := by
  intro f h
  rcases Except.bind_eq_error.mp h with first | ⟨a, -, rest⟩
  · exact hx f first
  · exact hg a f rest

theorem Except.Buffers.foldlM {g : β → α → Except Fault β} (hg : ∀ b a, Except.Buffers (g b a)) (xs : List α)
    (b : β) : Except.Buffers (xs.foldlM g b) := by
  intro f h
  obtain ⟨x, -, b', stopped⟩ := Except.foldlM_eq_error h
  exact hg b' x f stopped

theorem Word.buffers_add (a b : Nat) : Except.Buffers (Word.add a b) := by
  intro f h
  unfold Word.add at h
  split at h
  · cases h
  · cases h
    rfl

theorem Time.buffers_divideRounded (t period : Time) : Except.Buffers (t.divideRounded period) := by
  unfold Time.divideRounded
  split
  · exact Except.buffers_pure _
  · exact (Word.buffers_add _ _).bind fun _ => Except.buffers_pure _

theorem BoundedList.buffers_push {capacity : Nat} (list : BoundedList capacity) (what : String) (q : Nat) :
    Except.Buffers (list.push what q) := by
  intro f h
  unfold BoundedList.push at h
  split at h
  · cases h
  · cases h
    rfl

theorem Ring.buffers_push {α : Type} (ring : Ring α) (x : α) : Except.Buffers (ring.push x) := by
  intro f h
  unfold Ring.push at h
  split at h
  · cases h
    rfl
  · cases h

theorem BoundedList.buffers_insert {capacity : Nat} (list : BoundedList capacity) (what : String) (q : Nat) :
    Except.Buffers (list.insert what q) := by
  unfold BoundedList.insert
  split
  · exact Except.buffers_pure _
  · exact BoundedList.buffers_push _ _ _

theorem OpInstance.buffers_addProducer (u : OpInstance) (q : Nat) : Except.Buffers (u.addProducer q) :=
  (BoundedList.buffers_insert _ _ _).bind fun _ => Except.buffers_pure _

theorem OpInstance.buffers_resolveData (u : OpInstance) (hit : Location) (cycles : Nat) :
    Except.Buffers (u.resolveData hit cycles) :=
  (Word.buffers_add _ _).bind fun _ => Except.buffers_pure _

theorem RegisterTable.buffers_await (table : RegisterTable) (lowest : Nat) (u : OpInstance) :
    Except.Buffers (table.await lowest u) := by
  refine Except.Buffers.foldlM (fun u r => ?_) _ _
  unfold RegisterTable.awaitWriter
  split
  · exact OpInstance.buffers_addProducer _ _
  · exact Except.buffers_pure _

theorem StoreTable.buffers_link (table : StoreTable) (u : OpInstance) (lowest : Nat) :
    Except.Buffers (table.link u lowest) := by
  have awaits : ∀ (u : OpInstance) (producer : Option Nat), Except.Buffers (StoreTable.await u producer) := by
    intro u producer
    unfold StoreTable.await
    split
    · exact OpInstance.buffers_addProducer _ _
    · exact Except.buffers_pure _
  unfold StoreTable.link
  dsimp only
  split
  · exact (awaits _ _).bind fun _ => (awaits _ _).bind fun _ => Except.buffers_pure _
  split
  · exact (Ring.buffers_push _ _).bind fun _ => (awaits _ _).bind fun _ => Except.buffers_pure _
  split
  · exact (awaits _ _).bind fun _ => Except.buffers_pure _
  · exact Except.buffers_pure _

namespace Thread

variable {th : Thread} {e : Entry} {lowest : Nat}

theorem buffers_locate (th : Thread) (q : Nat) : Except.Buffers (th.locate q) := by
  intro f h
  unfold locate at h
  dsimp only at h
  split at h
  · cases h
    rfl
  split at h
  · split at h
    · cases h
    · cases h
      rfl
  · cases h
    rfl

theorem buffers_linkAddress (th : Thread) (lowest : Nat) (e : Entry) :
    Except.Buffers (th.linkAddress lowest e) := by
  have awaits : ∀ (e : Entry) (r : Register), Except.Buffers (th.awaitAddress lowest e r) := by
    intro e r
    unfold awaitAddress
    split
    · exact Except.buffers_pure _
    · refine (buffers_locate th _).bind fun ⟨_, producer⟩ => ?_
      dsimp only
      split
      · exact Except.buffers_pure _
      · exact (BoundedList.buffers_push _ _ _).bind fun _ => Except.buffers_pure _
  exact (Except.Buffers.foldlM awaits _ _).bind fun _ => Except.buffers_pure _

theorem buffers_forward (seqs : List Nat) : Except.Buffers (th.forward lowest e seqs) := by
  induction seqs with
  | nil => exact Except.buffers_pure _
  | cons q rest ih =>
    unfold forward
    split
    · exact ih
    · refine (buffers_locate th _).bind fun _ => ?_
      dsimp only
      split
      · exact (Except.Buffers.foldlM (fun _ _ => OpInstance.buffers_addProducer _ _) _ _).bind fun _ =>
          Except.buffers_pure _
      · exact ih

theorem buffers_observeAddress {front seq : Nat} {done : Time} (producers : List Nat) (latest : Time)
    (resolved : Bool) : Except.Buffers (th.observeAddress front seq done e producers latest resolved) := by
  induction producers generalizing latest resolved with
  | nil => exact Except.buffers_pure _
  | cons q rest ih =>
    unfold observeAddress
    split
    · exact ih _ _
    · exact (buffers_locate th _).bind fun _ => ih _ _

theorem buffers_flush (clock : Clock) (penalty : Nat) (th : Thread) : Except.Buffers (th.flush clock penalty) :=
  (Word.buffers_add _ _).bind fun _ => Except.buffers_pure _

end Thread

end

/-! ## Section 3: Threads -/

/-- The thread has been told the same, what it has retired is not lost, and its ring has the same room. -/
structure Thread.Undisturbed (th th' : Thread) : Prop where
  /-- It has been told of time up to the same point. -/
  now : th'.now = th.now
  /-- It has reported the same instructions. -/
  reported : th'.reported = th.reported
  /-- It may have retired more. -/
  retired : th.retired ≤ th'.retired
  /-- As many micro-ops fit. -/
  capacity : th'.ring.capacity = th.ring.capacity

namespace Thread

variable {th th' th'' : Thread} {clock : Clock}

instance : Std.Refl Undisturbed := ⟨fun _ => ⟨rfl, rfl, le_rfl, rfl⟩⟩

instance : IsTrans Thread Undisturbed :=
  ⟨fun _ _ _ h h' => ⟨h'.now.trans h.now, h'.reported.trans h.reported, h.retired.trans h'.retired,
    h'.capacity.trans h.capacity⟩⟩

/-- No operation of a thread on its own stops because its buffer is full. -/
abbrev KeepsOn {α : Type} (x : Faulting Thread α) : Prop := Keeps Undisturbed (·.isBufferFull = false) x

theorem keepsOn_watch (lowest : Nat) (seqs : List Nat) (e : Entry) (nearest : Option Nat) :
    KeepsOn (watch lowest seqs e nearest) := by
  induction seqs generalizing e nearest with
  | nil => exact keeps_pure _
  | cons q rest ih =>
    unfold watch
    split
    · exact ih _ _
    · refine keeps_get.bind fun th => (keeps_ofExcept (buffers_locate th q)).bind fun found => ?_
      dsimp only
      split
      · exact ih _ _
      · refine (keeps_ofExcept ?_).bind fun _ => (keeps_modify fun _ => ⟨rfl, rfl, le_rfl, rfl⟩).bind fun _ => ih _ _
        exact (BoundedList.buffers_push _ _ _).bind fun _ => Except.buffers_pure _

theorem keepsOn_recordDistance (distance : Nat) :
    Keeps (fun _ _ => True) (·.isBufferFull = false) (ThreadStats.recordDistance distance) := by
  unfold ThreadStats.recordDistance
  have : Std.Refl fun _ _ : ThreadStats => True := ⟨fun _ => trivial⟩
  have : IsTrans ThreadStats fun _ _ => True := ⟨fun _ _ _ _ _ => trivial⟩
  refine (keeps_modify fun _ => trivial).bind fun _ => ?_
  split
  · exact keeps_get.bind fun _ => (keeps_ofExcept (Word.buffers_add _ _)).bind fun _ => keeps_modify fun _ => trivial
  · exact keeps_pure _

theorem keepsOn_link (forwarding : Bool) (e : Entry) : KeepsOn (link forwarding e) := by
  unfold link
  refine keeps_get.bind fun th => ?_
  refine (keeps_ofExcept ?_).bind fun e => ?_
  · split
    · exact buffers_linkAddress _ _ _
    · exact Except.buffers_pure _
  refine (keeps_ofExcept (RegisterTable.buffers_await _ _ _)).bind fun u => ?_
  refine (keeps_ofExcept (StoreTable.buffers_link _ _ _)).bind fun linked => ?_
  refine (keeps_ofExcept ?_).bind fun e => ?_
  · split
    · exact buffers_forward _
    · exact Except.buffers_pure _
  refine (keeps_modify fun _ => ⟨rfl, rfl, le_rfl, rfl⟩).bind fun _ => ?_
  refine (keepsOn_watch _ _ _ _).bind fun watched => ?_
  refine ((keepsOn_recordDistance _).zoom fun _ _ _ => ⟨rfl, rfl, le_rfl, rfl⟩).bind fun _ => keeps_pure _

theorem undisturbed_fetchNext (clock : Clock) (e : Entry) (th : Thread) :
    th.Undisturbed (th.fetchNext clock e).2 := by
  unfold fetchNext
  split
  · exact Std.Refl.refl th
  split
  · exact ⟨rfl, rfl, le_rfl, rfl⟩
  · exact ⟨rfl, rfl, le_rfl, rfl⟩

theorem keepsOn_dispatchOne (forwarding : Bool) (clock : Clock) (stationFree : Bool) :
    KeepsOn (dispatchOne forwarding clock stationFree) := by
  unfold dispatchOne
  refine keeps_get.bind fun th => ?_
  split
  · exact keeps_pure _
  · refine (keeps_modifyGet (undisturbed_fetchNext clock _)).bind fun fetched => ?_
    split
    · exact keeps_pure _
    split
    · exact (keeps_modify fun _ => ⟨rfl, rfl, le_rfl, rfl⟩).bind fun _ => keeps_pure _
    refine keeps_get.bind fun th' => ?_
    split
    · exact (keeps_modify fun _ => ⟨rfl, rfl, le_rfl, rfl⟩).bind fun _ => keeps_pure _
    · refine (keepsOn_link _ _).bind fun e => ?_
      exact (keeps_modify fun _ => ⟨rfl, rfl, le_rfl, rfl⟩).bind fun _ => keeps_pure _

theorem keepsOn_wakeAll (front seq : Nat) (done : Time) (consumers : List Nat) :
    KeepsOn (wakeAll front seq done consumers) := by
  induction consumers with
  | nil => exact keeps_pure _
  | cons consumer rest ih =>
    unfold wakeAll wake
    refine Keeps.bind ?_ fun _ => ih
    refine keeps_get.bind fun th => (keeps_ofExcept (buffers_locate th _)).bind fun found => ?_
    refine (keeps_ofExcept ?_).bind fun e => keeps_modify fun _ => ⟨rfl, rfl, le_rfl, rfl⟩
    split
    · exact buffers_observeAddress _ _ _
    · exact Except.buffers_pure _

theorem keepsOn_start (i : Nat) (e : Entry) (now done latency : Time) : KeepsOn (start i e now done latency) := by
  unfold start
  refine keeps_get.bind fun th => (keeps_modify fun _ => ⟨rfl, rfl, le_rfl, rfl⟩).bind fun _ => ?_
  exact keepsOn_wakeAll _ _ _ _

theorem undisturbed_accountLongLoad (cutoff : Nat) (now : Time) (i : Nat) (th : Thread) :
    th.Undisturbed (th.accountLongLoad cutoff now i) := by
  unfold accountLongLoad
  split
  · exact Std.Refl.refl th
  split
  · exact ⟨rfl, rfl, le_rfl, rfl⟩
  · exact Std.Refl.refl th

theorem keepsOn_commit (clock : Clock) (penalty : Nat) (keepLog : Bool) (width : Nat) :
    KeepsOn (commit clock penalty keepLog width) := by
  induction width with
  | zero => exact keeps_pure _
  | succ width ih =>
    unfold commit
    refine keeps_get.bind fun th => ?_
    split
    · exact keeps_pure _
    split
    · exact keeps_pure _
    refine (keeps_modify fun th => ⟨rfl, rfl, Nat.le_add_right _ _, Ring.capacity_tail _⟩).bind fun _ => ?_
    split
    · refine keeps_get.bind fun th => ?_
      have restarts := keeps_update (R := Undisturbed) (F := (·.isBufferFull = false))
        (g := flush clock penalty) (fun th th' flushed => ?_) (buffers_flush clock penalty)
      · have rest := restarts.bind fun _ => keeps_pure th.stationsHeld
        simpa only [bind_assoc] using rest
      · obtain ⟨nextSeq, -, flushed⟩ := Except.bind_eq_ok.mp flushed
        rw [← Except.pure_eq_ok.mp flushed]
        exact ⟨rfl, rfl, le_rfl, rfl⟩
    · exact ih

/-- To put a micro-op into the buffer changes the ring only. -/
theorem undisturbed_put (u : OpInstance) (nextSeq : Nat) (th : Thread) :
    th.Undisturbed (match th.ring.push (.new u th.nextSeq) with
      | .ok ring => { th with ring, nextSeq }
      | .error _ => th) := by
  split
  · rename_i pushed
    exact ⟨rfl, rfl, le_rfl, Ring.capacity_push pushed⟩
  · exact Std.Refl.refl th

end Thread

/-! ## Section 4: Windows -/

namespace Window

variable {M : Type} {w v : Window M}

/-- The threads that were there are there, have been told the same, and what they have retired is not lost. -/
def Undisturbed (w v : Window M) : Prop :=
  ∀ (i : Nat) (l : Lane M), w.lanes[i]? = some l →
    ∃ l', v.lanes[i]? = some l' ∧ l.thread.Undisturbed l'.thread

instance : Std.Refl (Undisturbed (M := M)) := ⟨fun _ _ l found => ⟨l, found, Std.Refl.refl _⟩⟩

instance : IsTrans (Window M) Undisturbed := by
  refine ⟨fun w v u h h' i l found => ?_⟩
  obtain ⟨l', found', first⟩ := h i l found
  obtain ⟨l'', found'', second⟩ := h' i l' found'
  exact ⟨l'', found'', IsTrans.trans _ _ _ first second⟩

theorem Undisturbed.of_lanes (same : v.lanes = w.lanes) : w.Undisturbed v :=
  fun _ l found => ⟨l, same ▸ found, Std.Refl.refl _⟩

theorem Undisturbed.setLane {i : Nat} {l l' : Lane M} (found : w.lanes[i]? = some l)
    (kept : l.thread.Undisturbed l'.thread) :
    w.Undisturbed { w with lanes := w.lanes.setIfInBounds i l' } := by
  intro j lane at_j
  by_cases here : i = j
  · subst here
    obtain rfl := Option.some.inj (found.symm.trans at_j)
    exact ⟨l', Array.getElem?_setIfInBounds_self_of_lt (Array.getElem?_eq_some_iff.mp found).1, kept⟩
  · refine ⟨lane, ?_, Std.Refl.refl _⟩
    dsimp only
    rw [Array.getElem?_setIfInBounds_ne here]
    exact at_j

variable [MemorySystem M] {α : Type} {F : Fault → Prop}

/-- The fault is not about the buffer in front of a window, or memory has stopped with it. -/
def Stops (M : Type) [MemorySystem M] (f : Fault) : Prop := f.isBufferFull = false ∨ MemorySystem.Raises M f

/-- What is kept on a lane is kept by the window. -/
theorem keeps_onLane {x : Faulting (Lane M) α} (h : Keeps (fun l l' => l.thread.Undisturbed l'.thread) F x)
    (outside : F .indexOutOfBounds) (i : Nat) : Keeps Undisturbed F (onLane i x) := by
  refine ⟨fun w a v ran => ?_, fun w f v ran => ?_⟩
  · obtain ⟨l, l', found, inner, rfl⟩ := onLane_eq_ok.mp ran
    exact .setLane found (h.done inner)
  · unfold onLane at ran
    split at ran
    · rename_i inside
      dsimp only at ran
      cases inner : x w.lanes[i] with
      | ok a l' =>
        simp only [inner] at ran
        cases ran
      | error e l' =>
        simp only [inner] at ran
        cases ran
        obtain ⟨kept, fault⟩ := h.stopped inner
        rw [set_default_set _ inside]
        exact ⟨.setLane (Array.getElem?_eq_getElem inside) kept, fault⟩
    · cases ran
      exact ⟨Std.Refl.refl _, outside⟩

theorem keeps_onThread {x : Faulting Thread α} (h : Keeps Thread.Undisturbed F x)
    (outside : F .indexOutOfBounds) (i : Nat) : Keeps (Undisturbed (M := M)) F (onThread i x) :=
  keeps_onLane (h.zoom fun _ _ kept => kept) outside i

theorem keeps_modifyThread {f : Thread → Thread} (h : ∀ th : Thread, th.Undisturbed (f th))
    (outside : F .indexOutOfBounds) (i : Nat) : Keeps (Undisturbed (M := M)) F (modifyThread i f) :=
  keeps_onThread (keeps_modify h) outside i

omit [MemorySystem M] in
theorem buffers_thread (w : Window M) (i : Nat) : Except.Buffers (w.thread i) := by
  intro f h
  unfold thread at h
  split at h
  · cases h
  · cases h
    rfl

/-- No operation on a window disturbs its threads or stops because a buffer is full. -/
abbrev KeepsOn (x : Faulting (Window M) α) : Prop := Keeps Undisturbed (Stops M) x

theorem keepsOn_ofExcept {x : Except Fault α} (h : Except.Buffers x) :
    KeepsOn (M := M) (Faulting.ofExcept x) :=
  keeps_ofExcept fun f stopped => .inl (h f stopped)

theorem keepsOn_onThread {x : Faulting Thread α} (h : Thread.KeepsOn x) (i : Nat) :
    KeepsOn (M := M) (onThread i x) :=
  keeps_onThread (h.mono fun _ => .inl) (.inl rfl) i

theorem keepsOn_modifyThread {f : Thread → Thread} (h : ∀ th : Thread, th.Undisturbed (f th)) (i : Nat) :
    KeepsOn (M := M) (modifyThread i f) :=
  keeps_modifyThread h (.inl rfl) i

/-! ### The dispatch stage -/

theorem keepsOn_dispatchUpTo (i width : Nat) (any : Bool) (event : Time) :
    KeepsOn (M := M) (dispatchUpTo i width any event) := by
  induction width generalizing any event with
  | zero => exact keeps_pure _
  | succ width ih =>
    unfold dispatchUpTo
    refine keeps_get.bind fun w => (keepsOn_ofExcept (buffers_thread w i)).bind fun th => ?_
    split
    · refine (keepsOn_onThread (Thread.keepsOn_dispatchOne _ _ _) i).bind fun dispatched => ?_
      cases dispatched with
      | blocked blockedUntil => exact keeps_pure _
      | entered ready => exact (keeps_modify fun _ => .of_lanes rfl).bind fun _ => ih _ _
    · exact keeps_pure _

theorem keepsOn_dispatchLane (i : Nat) (event : Time) : KeepsOn (M := M) (dispatchLane i event) := by
  unfold dispatchLane
  refine keeps_get.bind fun w => ?_
  refine Keeps.bind (keepsOn_modifyThread (fun _ => ?_) i) fun _ => ?_
  · exact ⟨rfl, rfl, le_rfl, rfl⟩
  refine (keepsOn_dispatchUpTo i _ _ _).bind fun ⟨any, event⟩ => ?_
  refine keeps_get.bind fun w => (keepsOn_ofExcept (buffers_thread w i)).bind fun th => ?_
  split
  · exact keeps_pure _
  · exact keeps_pure _

theorem keepsOn_dispatchTurnOf (running : Running) (round : DispatchRound) (i : Nat) :
    KeepsOn (M := M) (dispatchTurnOf running round i) := by
  have charges : ∀ (cause : Thread → Cause) (r : DispatchRound),
      KeepsOn (M := M) (modifyThread i (fun th => { th with cause := cause th }) >>= fun _ => pure r) := by
    intro cause r
    refine Keeps.bind (keepsOn_modifyThread (fun _ => ?_) i) fun _ => keeps_pure r
    exact ⟨rfl, rfl, le_rfl, rfl⟩
  unfold dispatchTurnOf
  refine keeps_get.bind fun w => (keepsOn_ofExcept (buffers_thread w i)).bind fun th => ?_
  dsimp only
  split
  · exact charges _ _
  split
  · exact charges _ _
  split
  · exact charges _ _
  split
  · exact charges _ _
  · exact (keepsOn_dispatchLane i _).bind fun ⟨any, event⟩ => charges _ _

theorem keepsOn_dispatch (running : Running) : KeepsOn (M := M) (dispatch running) := by
  unfold dispatch
  refine keeps_get.bind fun w => ?_
  refine (Keeps.foldlM (keepsOn_dispatchTurnOf running) _ _).bind fun round => ?_
  exact (keeps_modify fun _ => .of_lanes rfl).bind fun _ => keeps_pure _

/-! ### The issue stage -/

theorem keepsOn_resolve (period : Period) (i : Nat) :
    Keeps (fun l l' : Lane M => l.thread.Undisturbed l'.thread) (Stops M) (Lane.resolve period i) := by
  have : Std.Refl fun l l' : Lane M => l.thread.Undisturbed l'.thread := ⟨fun _ => Std.Refl.refl _⟩
  have : IsTrans (Lane M) fun l l' => l.thread.Undisturbed l'.thread :=
    ⟨fun _ _ _ h h' => IsTrans.trans _ _ _ h h'⟩
  unfold Lane.resolve
  refine keeps_get.bind fun l => ?_
  split
  · exact keeps_pure _
  split
  · refine Keeps.bind (Keeps.zoom (Q := fun _ _ => True) ⟨fun _ _ _ _ => trivial, fun m f m' stopped =>
      ⟨trivial, .inr ⟨_, m, m', stopped⟩⟩⟩ fun _ _ _ => ⟨rfl, rfl, le_rfl, rfl⟩) fun served => ?_
    refine (keeps_ofExcept fun f stopped => ?_).bind fun cycles => ?_
    · exact .inl (Time.buffers_divideRounded _ _ f stopped)
    refine (keeps_ofExcept fun f stopped => ?_).bind fun u => ?_
    · exact .inl (OpInstance.buffers_resolveData _ _ _ f stopped)
    exact keeps_modify fun _ => ⟨rfl, rfl, le_rfl, rfl⟩
  · exact keeps_pure _

theorem keepsOn_issueEntry (lane i : Nat) : KeepsOn (M := M) (issueEntry lane i) := by
  unfold issueEntry
  refine keeps_get.bind fun w => ?_
  refine (keeps_onLane (keepsOn_resolve _ i) (.inl rfl) lane).bind fun _ => ?_
  refine keeps_get.bind fun w' => (keepsOn_ofExcept (buffers_thread w' lane)).bind fun th => ?_
  split
  · exact keeps_pure _
  · refine (keeps_modify fun _ => .of_lanes rfl).bind fun _ => ?_
    exact (keepsOn_onThread (Thread.keepsOn_start _ _ _ _ _) lane).bind fun _ => keeps_pure _

theorem keepsOn_issueFrom (lane n i : Nat) (pass : IssuePass) : KeepsOn (M := M) (issueFrom lane n i pass) := by
  induction n generalizing i pass with
  | zero => exact keeps_pure _
  | succ n ih =>
    unfold issueFrom
    refine keeps_get.bind fun w => (keepsOn_ofExcept (buffers_thread w lane)).bind fun th => ?_
    split
    · exact keeps_pure _
    split
    · exact ih _ _
    dsimp only
    split
    · exact keeps_pure _
    · refine (keepsOn_issueEntry lane i).bind fun done => ?_
      refine (keepsOn_modifyThread (Thread.undisturbed_accountLongLoad _ _ i) lane).bind fun _ => ?_
      split
      · exact keeps_pure _
      · exact ih _ _
    · split
      · exact keeps_pure _
      · exact ih _ _

theorem keepsOn_issueLane (lane : Nat) (event : Time) : KeepsOn (M := M) (issueLane lane event) := by
  unfold issueLane
  refine keeps_get.bind fun w => (keepsOn_ofExcept (buffers_thread w lane)).bind fun th => ?_
  split
  · exact keeps_pure _
  split
  · exact keeps_pure _
  refine (keepsOn_issueFrom lane _ _ _).bind fun pass => ?_
  refine Keeps.bind (keepsOn_modifyThread (fun _ => ?_) lane) fun _ => keeps_pure _
  exact ⟨rfl, rfl, le_rfl, rfl⟩

theorem keepsOn_issueLanes (lanes : List Nat) (event : Time) : KeepsOn (M := M) (issueLanes lanes event) := by
  induction lanes generalizing event with
  | nil => exact keeps_pure _
  | cons lane rest ih =>
    unfold issueLanes
    refine (keepsOn_issueLane lane event).bind fun issued => keeps_get.bind fun w => ?_
    split
    · exact keeps_pure _
    · exact ih _

theorem keepsOn_issue : KeepsOn (M := M) issue := by
  unfold issue
  refine keeps_get.bind fun w => (keepsOn_issueLanes _ _).bind fun ⟨last, event⟩ => ?_
  exact (keeps_modify fun _ => .of_lanes rfl).bind fun _ => keeps_pure _

/-! ### The commit stage, and a whole run -/

theorem keepsOn_commitLane (i : Nat) : KeepsOn (M := M) (commitLane i) := by
  unfold commitLane
  refine keeps_get.bind fun w => (keepsOn_onThread (Thread.keepsOn_commit _ _ _ _) i).bind fun _ => ?_
  exact keeps_modify fun _ => .of_lanes rfl

theorem keepsOn_commit : KeepsOn (M := M) commit := by
  unfold commit
  refine keeps_get.bind fun w => (Keeps.forM keepsOn_commitLane _).bind fun _ => keeps_get.bind fun w' => ?_
  split
  · exact keeps_pure _
  · exact keeps_pure _

omit [MemorySystem M] in
theorem undisturbed_advance (span : Time) (w : Window M) : w.Undisturbed (w.advance span) := by
  intro i l found
  refine ⟨{ l with thread := l.thread.charge w.config.window.loadHistogram w.clock.now span }, ?_, rfl, rfl, le_rfl,
    rfl⟩
  unfold advance
  dsimp only
  rw [Array.getElem?_map, found]
  rfl

variable {stride : Stride M} {running : Running}

theorem keepsOn_cycle (stride : Stride M) (running : Running) : KeepsOn (cycle stride running) := by
  unfold cycle
  refine (keepsOn_dispatch running).bind fun _ => keepsOn_issue.bind fun _ => keepsOn_commit.bind fun _ => ?_
  exact keeps_modify fun w => undisturbed_advance _ w

/-- However long it runs and wherever it stops, a window keeps what its threads have been told, and it never stops
over a full buffer. -/
theorem keepsOn_run (stride : Stride M) (running : Running) (grace : Nat) :
    KeepsOn (run stride running grace) := by
  have one := keepsOn_cycle stride running
  refine ⟨fun w a v ran => ?_, fun w f v ran => ?_⟩
  · exact keeps_of_run (P := (w.Undisturbed ·)) ran
      (fun cycled before => IsTrans.trans _ _ _ before (one.done cycled)) (Std.Refl.refl _)
  · fun_induction run stride running grace w with
    | case1 grace w can e u failed =>
      cases ran
      exact one.stopped failed
    | case2 grace w can u cycled later ih =>
      obtain ⟨kept, fault⟩ := ih ran
      exact ⟨IsTrans.trans _ _ _ (one.done cycled) kept, fault⟩
    | case3 w can u cycled later =>
      cases ran
      exact ⟨one.done cycled, .inl rfl⟩
    | case4 w can u cycled later grace ih =>
      obtain ⟨kept, fault⟩ := ih ran
      exact ⟨IsTrans.trans _ _ _ (one.done cycled) kept, fault⟩
    | case5 => cases ran

/-! ### Calls beside cycles -/

omit [MemorySystem M] in
theorem keeps_enqueue (lane : Nat) (u : OpInstance) :
    Keeps Thread.Undisturbed (fun _ => True) (enqueue lane u) := by
  unfold enqueue
  refine (keeps_modify fun _ => ⟨rfl, rfl, le_rfl, rfl⟩).bind fun _ => keeps_get.bind fun th => ?_
  have next : Keeps Thread.Undisturbed (fun _ => True) (.ofExcept (Word.add th.nextSeq 1) : Faulting Thread Nat) :=
    keeps_ofExcept fun _ _ => trivial
  split
  · exact (keeps_throw trivial).bind fun _ => next.bind fun nextSeq =>
      keeps_modify (Thread.undisturbed_put u nextSeq)
  · exact next.bind fun nextSeq => keeps_modify (Thread.undisturbed_put u nextSeq)

theorem keeps_push (i : Nat) (us : List OpInstance) :
    Keeps (Undisturbed (M := M)) (fun _ => True) (push i us) := by
  have : Std.Refl fun l l' : Lane M => l.thread.Undisturbed l'.thread := ⟨fun _ => Std.Refl.refl _⟩
  have : IsTrans (Lane M) fun l l' => l.thread.Undisturbed l'.thread :=
    ⟨fun _ _ _ h h' => IsTrans.trans _ _ _ h h'⟩
  unfold push
  refine keeps_get.bind fun w => keeps_onLane (Keeps.forM (fun u => ?_) us) trivial i
  unfold pushOne
  split
  · exact keeps_pure _
  have fetches : Keeps (fun l l' : Lane M => l.thread.Undisturbed l'.thread) (fun _ => True)
      (fetch w.clock.period u) := by
    unfold fetch
    split
    · refine Keeps.bind (Keeps.zoom (Q := fun _ _ => True) ⟨fun _ _ _ _ => trivial, fun _ _ _ _ =>
        ⟨trivial, trivial⟩⟩ fun _ _ _ => ⟨rfl, rfl, le_rfl, rfl⟩) fun served => ?_
      split
      · exact keeps_pure _
      · exact (keeps_ofExcept fun _ _ => trivial).bind fun _ => keeps_pure _
    · exact keeps_pure _
  refine fetches.bind fun u => keeps_get.bind fun l => ?_
  exact (keeps_enqueue i _).zoom fun _ _ kept => kept

theorem keepsOn_markEndOfStream (i : Nat) : KeepsOn (M := M) (markEndOfStream i) := by
  refine keepsOn_modifyThread (fun _ => ?_) i
  exact ⟨rfl, rfl, le_rfl, rfl⟩

end Window

end CoreTiming
