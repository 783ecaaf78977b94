import CoreTiming.Window.Calls

/-!
# What a successful operation has done

Operations that may fault are chains of binds.  The lemmas of this module take such a chain apart
from the front: from the fact that a chain went through, each of them yields the intermediate state
and the facts about both halves.  The last section does the same for operations on one lane.
-/

namespace CoreTiming

/-! ## Section 1: Chains without state -/

theorem Except.bind_eq_ok {ε α β : Type} {x : Except ε α} {f : α → Except ε β} {b : β} :
    (x >>= f) = .ok b ↔ ∃ a, x = .ok a ∧ f a = .ok b := by
  cases x with
  | ok a => simp [bind, Except.bind]
  | error e => simp [bind, Except.bind]

theorem Except.pure_eq_ok {ε α : Type} {a b : α} :
    (pure a : Except ε α) = .ok b ↔ a = b := by
  simp [pure, Except.pure]

/-- Two chains that have gone through are taken apart together. -/
theorem Except.bind_both {ε α β : Type} {x x' : Except ε α} {f f' : α → Except ε β} {b b' : β}
    (left : (x >>= f) = .ok b) (right : (x' >>= f') = .ok b') :
    ∃ a a', x = .ok a ∧ x' = .ok a' ∧ f a = .ok b ∧ f' a' = .ok b' := by
  obtain ⟨a, first, rest⟩ := bind_eq_ok.mp left
  obtain ⟨a', first', rest'⟩ := bind_eq_ok.mp right
  exact ⟨a, a', first, first', rest, rest'⟩

/-- Two chains that look at the same condition go on alike. -/
theorem Except.ite_both {ε α : Type} {c : Prop} [Decidable c] {x y x' y' : Except ε α} {a a' : α}
    (left : (if c then x else y) = .ok a) (right : (if c then x' else y') = .ok a') :
    c ∧ x = .ok a ∧ x' = .ok a' ∨ ¬c ∧ y = .ok a ∧ y' = .ok a' := by
  by_cases h : c
  · rw [if_pos h] at left right
    exact .inl ⟨h, left, right⟩
  · rw [if_neg h] at left right
    exact .inr ⟨h, left, right⟩

/-- What each round of a loop keeps, the loop keeps. -/
theorem Except.keeps_of_foldlM {ε α β : Type} {P : β → Prop} {f : β → α → Except ε β} {xs : List α} {b b' : β}
    (ran : xs.foldlM f b = .ok b') (round : ∀ {b a b'}, a ∈ xs → f b a = .ok b' → P b → P b') (start : P b) :
    P b' := by
  induction xs generalizing b with
  | nil =>
    cases ran
    exact start
  | cons x xs ih =>
    obtain ⟨b₁, first, rest⟩ := bind_eq_ok.mp ran
    exact ih rest (fun mem => round (List.mem_cons_of_mem _ mem)) (round List.mem_cons_self first start)

/-! ## Section 2: Chains on a state -/

namespace Faulting

variable {σ τ α β : Type} {s t : σ}

theorem bind_eq_ok {x : Faulting σ α} {f : α → Faulting σ β} {b : β} :
    (x >>= f) s = .ok b t ↔ ∃ a u, x s = .ok a u ∧ f a u = .ok b t := by
  show EStateM.bind x f s = .ok b t ↔ _
  unfold EStateM.bind
  cases x s with
  | ok a u => simp [and_assoc]
  | error e u => simp

theorem bind_of_ok {x : Faulting σ α} {f : α → Faulting σ β} {a : α} (h : x s = .ok a t) : (x >>= f) s = f a t := by
  show EStateM.bind x f s = _
  unfold EStateM.bind
  rw [h]

theorem bind_of_error {x : Faulting σ α} {f : α → Faulting σ β} {fault : Fault} (h : x s = .error fault t) :
    (x >>= f) s = .error fault t := by
  show EStateM.bind x f s = _
  unfold EStateM.bind
  rw [h]

theorem pure_eq_ok {a b : α} : (pure a : Faulting σ α) s = .ok b t ↔ a = b ∧ s = t := by
  simp [pure, EStateM.pure]

/-- A loop over two lists is two loops. -/
theorem forM_append_eq_ok {f : α → Faulting σ PUnit} {xs ys : List α} :
    (xs ++ ys).forM f s = .ok () t ↔ ∃ u, xs.forM f s = .ok () u ∧ ys.forM f u = .ok () t := by
  induction xs generalizing s with
  | nil =>
    constructor
    · intro h
      exact ⟨s, rfl, h⟩
    · rintro ⟨u, first, h⟩
      rw [(pure_eq_ok.mp first).2]
      exact h
  | cons x xs ih =>
    constructor
    · intro h
      obtain ⟨⟨⟩, s₁, first, h⟩ := bind_eq_ok.mp h
      obtain ⟨u, rest, h⟩ := ih.mp h
      exact ⟨u, bind_eq_ok.mpr ⟨_, s₁, first, rest⟩, h⟩
    · rintro ⟨u, front, h⟩
      obtain ⟨⟨⟩, s₁, first, rest⟩ := bind_eq_ok.mp front
      exact bind_eq_ok.mpr ⟨_, s₁, first, ih.mpr ⟨u, rest, h⟩⟩

/-- What each round of a loop keeps, the loop keeps. -/
theorem keeps_of_forM {P : σ → Prop} {f : α → Faulting σ PUnit} {xs : List α} (ran : xs.forM f s = .ok () t)
    (round : ∀ {a s t}, f a s = .ok () t → P s → P t) (start : P s) : P t := by
  induction xs generalizing s with
  | nil => exact (pure_eq_ok.mp ran).2 ▸ start
  | cons x xs ih =>
    obtain ⟨⟨⟩, s₁, first, rest⟩ := bind_eq_ok.mp ran
    exact ih rest (round first start)

/-- What each round of a loop keeps that passes something on, the loop keeps. -/
theorem keeps_of_foldlM {P : σ → Prop} {f : β → α → Faulting σ β} {xs : List α} {b b' : β}
    (ran : xs.foldlM f b s = .ok b' t) (round : ∀ {b b' a s t}, f b a s = .ok b' t → P s → P t) (start : P s) :
    P t := by
  induction xs generalizing b s with
  | nil => exact (pure_eq_ok.mp ran).2 ▸ start
  | cons x xs ih =>
    rw [List.foldlM_cons] at ran
    obtain ⟨b₁, s₁, first, rest⟩ := bind_eq_ok.mp ran
    exact ih rest (round first start)

theorem modify_eq_ok {f : σ → σ} {b : PUnit} :
    (modify f : Faulting σ PUnit) s = .ok b t ↔ f s = t := by
  show (EStateM.Result.ok () (f s) : EStateM.Result Fault σ PUnit) = .ok b t ↔ _
  simp

theorem modifyGet_eq_ok {f : σ → α × σ} {b : α} :
    (modifyGet f : Faulting σ α) s = .ok b t ↔ f s = (b, t) := by
  show (EStateM.Result.ok (f s).1 (f s).2 : EStateM.Result Fault σ α) = .ok b t ↔ _
  simp [Prod.ext_iff]

@[simp] theorem get_bind {f : σ → Faulting σ β} : (get >>= f) s = f s s := rfl

@[simp] theorem set_bind {r : σ} {f : PUnit → Faulting σ β} : (set r >>= f) s = f () r := rfl

@[simp] theorem modify_bind {g : σ → σ} {f : PUnit → Faulting σ β} :
    (modify g >>= f) s = f () (g s) := rfl

@[simp] theorem modifyGet_bind {g : σ → α × σ} {f : α → Faulting σ β} :
    (modifyGet g >>= f) s = f (g s).1 (g s).2 := rfl

theorem ofExcept_ok_bind {a : α} {f : α → Faulting σ β} : (ofExcept (.ok a) >>= f) s = f a s := rfl

theorem ofExcept_eq_ok {x : Except Fault α} {b : α} :
    (ofExcept x : Faulting σ α) s = .ok b t ↔ x = .ok b ∧ s = t := by
  cases x with
  | ok a => simp [ofExcept, pure_eq_ok]
  | error e =>
    show (EStateM.Result.error e s : EStateM.Result Fault σ α) = .ok b t ↔ _
    simp

theorem zoom_eq_ok [Inhabited τ] {part : σ → τ} {replace : τ → σ → σ} {x : Faulting τ α} {b : α} :
    zoom part replace x s = .ok b t ↔
      ∃ p, x (part s) = .ok b p ∧ replace p (replace default s) = t := by
  unfold zoom
  cases h : x (part s) with
  | ok a p => simp [h, and_assoc]
  | error e p => simp [h]

/-- Two chains that end here have not changed their states. -/
theorem pure_both {a a' b b' : α} {s' t' : σ} (left : (pure a : Faulting σ α) s = .ok b t)
    (right : (pure a' : Faulting σ α) s' = .ok b' t') : (a = b ∧ s = t) ∧ a' = b' ∧ s' = t' :=
  ⟨pure_eq_ok.mp left, pure_eq_ok.mp right⟩

/-- Two chains that have gone through are taken apart together. -/
theorem bind_both {x x' : Faulting σ α} {f f' : α → Faulting σ β} {b b' : β} {s' t' : σ}
    (left : (x >>= f) s = .ok b t) (right : (x' >>= f') s' = .ok b' t') :
    ∃ a u a' u', x s = .ok a u ∧ x' s' = .ok a' u' ∧ f a u = .ok b t ∧ f' a' u' = .ok b' t' := by
  obtain ⟨a, u, first, rest⟩ := bind_eq_ok.mp left
  obtain ⟨a', u', first', rest'⟩ := bind_eq_ok.mp right
  exact ⟨a, u, a', u', first, first', rest, rest'⟩

/-- Two chains that look at the same condition go on alike. -/
theorem ite_both {c : Prop} [Decidable c] {x y x' y' : Faulting σ α} {a a' : α} {s' t' : σ}
    (left : (if c then x else y) s = .ok a t) (right : (if c then x' else y') s' = .ok a' t') :
    c ∧ x s = .ok a t ∧ x' s' = .ok a' t' ∨ ¬c ∧ y s = .ok a t ∧ y' s' = .ok a' t' := by
  by_cases h : c
  · rw [if_pos h] at left right
    exact .inl ⟨h, left, right⟩
  · rw [if_neg h] at left right
    exact .inr ⟨h, left, right⟩

/-- Whenever `x` goes through, what `view` shows of the state is the same as before. -/
def Preserves {γ : Type} (view : σ → γ) (x : Faulting σ α) : Prop :=
  ∀ ⦃s a t⦄, x s = .ok a t → view t = view s

section Preserves

variable {γ : Type} {view : σ → γ}

theorem preserves_pure (a : α) : Preserves view (pure a) := by
  intro s b t h
  rw [(pure_eq_ok.mp h).2]

theorem preserves_get : Preserves view (get : Faulting σ σ) := fun _ _ _ h => by cases h; rfl

theorem preserves_ofExcept (x : Except Fault α) : Preserves view (ofExcept x : Faulting σ α) := by
  intro s a t h
  rw [(ofExcept_eq_ok.mp h).2]

theorem preserves_modify {f : σ → σ} (same : ∀ s, view (f s) = view s) :
    Preserves view (modify f : Faulting σ PUnit) := by
  intro s a t h
  rw [← modify_eq_ok.mp h, same]

theorem Preserves.bind {x : Faulting σ α} {f : α → Faulting σ β} (hx : Preserves view x)
    (hf : ∀ a, Preserves view (f a)) : Preserves view (x >>= f) := by
  intro s b t h
  obtain ⟨a, u, first, rest⟩ := bind_eq_ok.mp h
  rw [hf a rest, hx first]

theorem Preserves.map {x : Faulting σ α} {f : α → β} (hx : Preserves view x) :
    Preserves view (f <$> x) := by
  rw [map_eq_pure_bind]
  exact hx.bind fun a => preserves_pure (f a)

theorem Preserves.forM {f : α → Faulting σ PUnit} (hf : ∀ a, Preserves view (f a)) (xs : List α) :
    Preserves view (xs.forM f) := by
  induction xs with
  | nil => exact preserves_pure _
  | cons x xs ih => exact (hf x).bind fun _ => ih

end Preserves

end Faulting

/-! ## Section 3: Operations on one lane -/

namespace Window

variable {M : Type} [MemorySystem M] {α : Type} {w v : Window M} {i : Nat}

/-- Putting a lane back undoes taking it out. -/
theorem set_default_set (lanes : Array (Lane M)) (h : i < lanes.size) (lane : Lane M) :
    (lanes.set i default h).setIfInBounds i lane = lanes.setIfInBounds i lane := by
  apply Array.ext_getElem?
  intro j
  simp only [Array.getElem?_setIfInBounds, Array.getElem?_set, Array.size_set]
  by_cases hj : i = j
  · simp [hj]
  · simp [hj]

theorem onLane_eq_ok {x : Faulting (Lane M) α} {a : α} :
    onLane i x w = .ok a v ↔ ∃ lane lane', w.lanes[i]? = some lane ∧ x lane = .ok a lane' ∧
      v = { w with lanes := w.lanes.setIfInBounds i lane' } := by
  unfold onLane
  split
  · rename_i h
    cases hx : x w.lanes[i] with
    | ok b lane' => simp [hx, h, set_default_set, and_assoc, eq_comm (a := v)]
    | error e lane' => simp [hx, h]
  · rename_i h
    simp [h]

theorem onThread_eq_ok {x : Faulting Thread α} {a : α} :
    onThread i x w = .ok a v ↔ ∃ lane th, w.lanes[i]? = some lane ∧ x lane.thread = .ok a th ∧
      v = { w with lanes := w.lanes.setIfInBounds i { lane with thread := th } } := by
  unfold onThread
  simp only [onLane_eq_ok, Faulting.zoom_eq_ok]
  constructor
  · rintro ⟨lane, lane', hlane, ⟨th, hx, rfl⟩, rfl⟩
    exact ⟨lane, th, hlane, hx, rfl⟩
  · rintro ⟨lane, th, hlane, hx, rfl⟩
    exact ⟨lane, _, hlane, ⟨th, hx, rfl⟩, rfl⟩

theorem modifyThread_eq_ok {f : Thread → Thread} {a : Unit} :
    modifyThread i f w = .ok a v ↔ ∃ lane, w.lanes[i]? = some lane ∧
      v = { w with lanes := w.lanes.setIfInBounds i { lane with thread := f lane.thread } } := by
  unfold modifyThread
  simp [onThread_eq_ok, Faulting.modify_eq_ok]

theorem thread_eq_ok {th : Thread} :
    w.thread i = .ok th ↔ ∃ lane, w.lanes[i]? = some lane ∧ lane.thread = th := by
  unfold thread
  cases h : w.lanes[i]? with
  | some lane => simp
  | none => simp

theorem thread_bind_of_found {f : Thread → Faulting (Window M) α} {lane : Lane M}
    (found : w.lanes[i]? = some lane) :
    (Faulting.ofExcept (w.thread i) >>= f) v = f lane.thread v := by
  rw [thread_eq_ok.mpr ⟨lane, found, rfl⟩]
  rfl

/-- What looks at a thread first. -/
theorem thread_bind_eq_ok {f : Thread → Faulting (Window M) α} {a : α} {u : Window M} :
    (Faulting.ofExcept (w.thread i) >>= f) u = .ok a v ↔
      ∃ lane, w.lanes[i]? = some lane ∧ f lane.thread u = .ok a v := by
  simp only [Faulting.bind_eq_ok, Faulting.ofExcept_eq_ok, thread_eq_ok]
  constructor
  · rintro ⟨_, _, ⟨⟨lane, found, rfl⟩, rfl⟩, rest⟩
    exact ⟨lane, found, rest⟩
  · rintro ⟨lane, found, rest⟩
    exact ⟨_, _, ⟨⟨lane, found, rfl⟩, rfl⟩, rest⟩

end Window

/-! ## Section 4: What is new -/

theorem Thread.new_eq_ok {windowSize : Nat} {loadHistogram : Bool} {predictor : Option Predictor}
    {th : Thread} (h : Thread.new windowSize loadHistogram predictor = .ok th) :
    ∃ capacity, th =
      { ring := .empty capacity
        stores := .new (max capacity Thread.minStores)
        predictor
        stats := .new windowSize (if loadHistogram then some LongLoad.maxOutstanding else none) } := by
  unfold Thread.new at h
  simp only [Except.bind_eq_ok, Except.pure_eq_ok] at h
  obtain ⟨capacity, -, _, -, rfl⟩ := h
  exact ⟨capacity, rfl⟩

namespace Window

variable {M : Type} {w v : Window M}

/-- A new window has no threads and stands at the start of time. -/
theorem new_eq_ok {config : Config} (h : Window.new config = .ok w) :
    ∃ period, w =
      { config
        clock := .new period
        share := max (config.core.windowSize / max config.core.smtThreads 1) 1
        loadQueue := .new config.window.outstandingLoads
        storeQueue := .new config.window.outstandingStores } := by
  unfold Window.new at h
  simp only [Except.bind_eq_ok, Except.pure_eq_ok] at h
  obtain ⟨period, -, _, -, _, -, rfl⟩ := h
  exact ⟨period, rfl⟩

theorem initializeThread_eq_ok {i : Nat} {memory : M} {predictor : Option Predictor}
    (h : initializeThread i memory predictor w = .ok () v) :
    i = w.lanes.size ∧ ∃ th,
      Thread.new w.config.core.windowSize w.config.window.loadHistogram predictor = .ok th ∧
      v = { w with lanes := w.lanes.push { thread := th, memory } } := by
  unfold initializeThread at h
  rw [Faulting.get_bind] at h
  split at h
  · cases h
  · rename_i next
    simp only [Faulting.bind_eq_ok, Faulting.ofExcept_eq_ok, Faulting.modify_eq_ok] at h
    obtain ⟨th, _, ⟨made, rfl⟩, rfl⟩ := h
    exact ⟨Decidable.not_not.mp next, th, made, rfl⟩

end Window

end CoreTiming
