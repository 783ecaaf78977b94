import CoreTiming.Proofs.Outcome

/-!
# Computations in lockstep

Two computations that start from related states are in lockstep if they go the same way: both stop at
the same fault, or both give the same value and leave related states behind.  The lemmas of this
module build the lockstep of a chain from that of its links.
-/

namespace CoreTiming

namespace Faulting

variable {σ τ α β : Type}

/-- Both results are the same fault, or the same value with states related by `S`. -/
inductive Lockstep (S : σ → σ → Prop) :
    EStateM.Result Fault σ α → EStateM.Result Fault σ α → Prop
  /-- Both went through. -/
  | ok {a : α} {s t : σ} (related : S s t) : Lockstep S (.ok a s) (.ok a t)
  /-- Both stopped. -/
  | error {f : Fault} {s t : σ} : Lockstep S (.error f s) (.error f t)

section

variable {S T : σ → σ → Prop} {s t : σ}

theorem Lockstep.refl (hs : ∀ s, S s s) (r : EStateM.Result Fault σ α) : Lockstep S r r := by
  cases r with
  | ok a s => exact .ok (hs s)
  | error f s => exact .error

theorem Lockstep.mono {r r' : EStateM.Result Fault σ α} (ran : Lockstep S r r') (weaker : ∀ s t, S s t → T s t) :
    Lockstep T r r' := by
  cases ran with
  | ok related => exact .ok (weaker _ _ related)
  | error => exact .error

/-- Where the left computation goes through, so does the right one. -/
theorem Lockstep.of_ok {a : α} {r : EStateM.Result Fault σ α} (ran : Lockstep S (.ok a s) r) :
    ∃ t, r = .ok a t ∧ S s t := by
  cases ran with
  | ok related => exact ⟨_, rfl, related⟩

theorem lockstep_pure {a : α} (related : S s t) :
    Lockstep S ((pure a : Faulting σ α) s) ((pure a : Faulting σ α) t) :=
  .ok related

theorem lockstep_bind {x y : Faulting σ α} {f g : α → Faulting σ β} (first : Lockstep S (x s) (y t))
    (rest : ∀ (a : α) (s' t' : σ), x s = .ok a s' → y t = .ok a t' → S s' t' →
      Lockstep T (f a s') (g a t')) : Lockstep T ((x >>= f) s) ((y >>= g) t) := by
  show Lockstep T (EStateM.bind x f s) (EStateM.bind y g t)
  unfold EStateM.bind
  generalize left : x s = r at first
  generalize right : y t = r' at first
  cases first with
  | ok related => exact rest _ _ _ left right related
  | error => exact .error

/-- Loops whose rounds are in lockstep. -/
theorem lockstep_mapM {f g : α → Faulting σ β} (round : ∀ (a : α) (s t : σ), S s t → Lockstep S (f a s) (g a t))
    (related : S s t) (as : List α) : Lockstep S (as.mapM f s) (as.mapM g t) := by
  induction as generalizing s t with
  | nil => exact lockstep_pure related
  | cons a rest ih =>
    rw [List.mapM_cons, List.mapM_cons]
    refine lockstep_bind (round a s t related) fun b s' t' _ _ related => ?_
    exact lockstep_bind (ih related) fun bs s'' t'' _ _ related => lockstep_pure related

theorem lockstep_ofExcept (x : Except Fault α) (related : S s t) :
    Lockstep S (ofExcept x s) (ofExcept x t) := by
  cases x with
  | ok a => exact .ok related
  | error f => exact .error

theorem lockstep_zoom [Inhabited τ] {part : σ → τ} {replace : τ → σ → σ} {x y : Faulting τ α}
    {R : τ → τ → Prop} (ran : Lockstep R (x (part s)) (y (part t)))
    (related : ∀ p q, R p q → S (replace p (replace default s)) (replace q (replace default t))) :
    Lockstep S (zoom part replace x s) (zoom part replace y t) := by
  unfold zoom
  dsimp only
  generalize x (part s) = r at ran
  generalize y (part t) = r' at ran
  cases ran with
  | ok parts => exact .ok (related _ _ parts)
  | error => exact .error

end

end Faulting

end CoreTiming
