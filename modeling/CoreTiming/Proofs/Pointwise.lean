import Mathlib.Data.List.Forall2

/-!
# Lists that are related position by position

The ring of a thread keeps its length and order while entries change in place.  `Pointwise R l l'`
says that at every position the entries before and after are related by `R`.
-/

namespace CoreTiming

section

variable {α β : Type} {R : α → β → Prop} {o : Option α} {o' : Option β}

theorem rel_left {x : α} (h : Option.Rel R o o') (hx : o = some x) : ∃ y, o' = some y ∧ R x y := by
  cases h with
  | none => cases hx
  | some r =>
    cases hx
    exact ⟨_, rfl, r⟩

theorem rel_right {y : β} (h : Option.Rel R o o') (hy : o' = some y) : ∃ x, o = some x ∧ R x y := by
  cases h with
  | none => cases hy
  | some r =>
    cases hy
    exact ⟨_, rfl, r⟩

theorem rel_cases (h : Option.Rel R o o') :
    o = none ∧ o' = none ∨ ∃ x y, o = some x ∧ o' = some y ∧ R x y := by
  cases h with
  | none => exact .inl ⟨rfl, rfl⟩
  | some r => exact .inr ⟨_, _, rfl, rfl, r⟩

theorem rel_mono {S : α → β → Prop} (hs : ∀ x y, R x y → S x y) (h : Option.Rel R o o') :
    Option.Rel S o o' := by
  cases h with
  | none => exact .none
  | some r => exact .some (hs _ _ r)

theorem rel_trans {γ : Type} {S : β → γ → Prop} {T : α → γ → Prop} {o'' : Option γ}
    (ht : ∀ x y z, R x y → S y z → T x z) (h : Option.Rel R o o') (h' : Option.Rel S o' o'') : Option.Rel T o o'' := by
  cases h with
  | none =>
    cases h' with
    | none => exact .none
  | some r =>
    cases h' with
    | some r' => exact .some (ht _ _ _ r r')

theorem rel_and {S : α → β → Prop} (h : Option.Rel R o o') (h' : Option.Rel S o o') :
    Option.Rel (fun x y => R x y ∧ S x y) o o' := by
  cases h with
  | none => exact .none
  | some r =>
    cases h' with
    | some s => exact .some ⟨r, s⟩

theorem rel_map {f : α → β} (hf : ∀ x, R x (f x)) (o : Option α) : Option.Rel R o (o.map f) := by
  cases o with
  | none => exact .none
  | some x => exact .some (hf x)

theorem rel_refl {R : α → α → Prop} (hr : ∀ x, R x x) (o : Option α) : Option.Rel R o o := by
  cases o with
  | none => exact .none
  | some x => exact .some (hr x)

/-- One element of an array changes. -/
theorem rel_setIfInBounds {R : α → α → Prop} {a : Array α} {i : Nat} {x y : α} (hr : ∀ x, R x x) (hx : a[i]? = some x)
    (h : R x y) (j : Nat) : Option.Rel R a[j]? (a.setIfInBounds i y)[j]? := by
  by_cases here : i = j
  · subst here
    rw [hx, Array.getElem?_setIfInBounds_self_of_lt (Array.getElem?_eq_some_iff.mp hx).1]
    exact .some h
  · rw [Array.getElem?_setIfInBounds_ne here]
    exact rel_refl hr _

end

variable {α : Type} {R : α → α → Prop} {l l' l'' : List α} {i : Nat} {x y : α}

/-- What is found in a list with one more element is that element, or was found before. -/
theorem getElem?_concat_cases (h : (l ++ [x])[i]? = some y) : (i = l.length ∧ y = x) ∨ l[i]? = some y := by
  rw [List.getElem?_append] at h
  split at h
  · exact .inr h
  · rw [List.getElem?_singleton] at h
    split at h
    · cases h
      exact .inl ⟨by omega, rfl⟩
    · cases h

/-- At every position both lists have related elements, or none. -/
def Pointwise (R : α → α → Prop) (l l' : List α) : Prop := ∀ i : Nat, Option.Rel R l[i]? l'[i]?

namespace Pointwise

theorem left (h : Pointwise R l l') (hx : l[i]? = some x) : ∃ y, l'[i]? = some y ∧ R x y :=
  rel_left (h i) hx

theorem right (h : Pointwise R l l') (hy : l'[i]? = some y) : ∃ x, l[i]? = some x ∧ R x y :=
  rel_right (h i) hy

theorem refl (hr : ∀ x, R x x) (l : List α) : Pointwise R l l := fun _ => rel_refl hr _

theorem trans (ht : ∀ x y z, R x y → R y z → R x z) (h : Pointwise R l l')
    (h' : Pointwise R l' l'') : Pointwise R l l'' := fun i => rel_trans ht (h i) (h' i)

theorem mono {S : α → α → Prop} (hs : ∀ x y, R x y → S x y) (h : Pointwise R l l') :
    Pointwise S l l' :=
  fun i => rel_mono hs (h i)

theorem length_eq (h : Pointwise R l l') : l'.length = l.length := by
  by_contra hne
  rcases Nat.lt_or_gt_of_ne hne with hlt | hlt
  · obtain ⟨y, hy, -⟩ := h.left (List.getElem?_eq_getElem hlt)
    rw [List.getElem?_eq_none (Nat.le_refl _)] at hy
    cases hy
  · obtain ⟨x, hx, -⟩ := h.right (List.getElem?_eq_getElem hlt)
    rw [List.getElem?_eq_none (Nat.le_refl _)] at hx
    cases hx

/-- Changing one element of a list. -/
theorem set (hr : ∀ x, R x x) (hx : l[i]? = some x) (h : R x y) :
    Pointwise R l (l.set i y) := by
  intro j
  by_cases hj : i = j
  · subst hj
    rw [List.getElem?_set_self (List.getElem?_eq_some_iff.mp hx).1, hx]
    exact .some h
  · rw [List.getElem?_set_ne hj]
    exact refl hr l j

/-- Changing every element of a list. -/
theorem mapIdx {f : Nat → α → α} (hf : ∀ i x, R x (f i x)) (l : List α) :
    Pointwise R l (l.mapIdx f) := by
  intro i
  rw [List.getElem?_mapIdx]
  cases l[i]? with
  | none => exact .none
  | some x => exact .some (hf i x)

theorem take (h : Pointwise R l l') (n : Nat) : Pointwise R (l.take n) (l'.take n) := by
  intro i
  rw [List.getElem?_take, List.getElem?_take]
  split
  · exact h i
  · exact .none

theorem drop (h : Pointwise R l l') (n : Nat) : Pointwise R (l.drop n) (l'.drop n) := by
  intro i
  rw [List.getElem?_drop, List.getElem?_drop]
  exact h _

/-- Changing an element of both lists. -/
theorem set_both (h : Pointwise R l l') (i : Nat) (hxy : R x y) :
    Pointwise R (l.set i x) (l'.set i y) := by
  intro j
  have related := h j
  have length := h.length_eq
  by_cases hj : i = j
  · subst hj
    by_cases inside : i < l.length
    · rw [List.getElem?_set_self inside, List.getElem?_set_self (length ▸ inside)]
      exact .some hxy
    · rw [List.getElem?_eq_none (by simpa using inside),
        List.getElem?_eq_none (by simpa [length] using inside)]
      exact .none
  · rw [List.getElem?_set_ne hj, List.getElem?_set_ne hj]
    exact related

/-- Both lists get one more element. -/
theorem concat (h : Pointwise R l l') (hxy : R x y) : Pointwise R (l ++ [x]) (l' ++ [y]) := by
  intro i
  have related := h i
  rw [List.getElem?_append, List.getElem?_append, h.length_eq]
  split
  · exact related
  · cases i - l.length with
    | zero => exact .some hxy
    | succ _ => exact .none

/-- Changing every element of both lists. -/
theorem mapIdx_both {S : α → α → Prop} {f g : Nat → α → α} (h : Pointwise R l l')
    (hfg : ∀ i x y, R x y → S (f i x) (g i y)) : Pointwise S (l.mapIdx f) (l'.mapIdx g) := by
  intro i
  have related := h i
  rw [List.getElem?_mapIdx, List.getElem?_mapIdx]
  generalize l[i]? = a at related
  generalize l'[i]? = b at related
  cases related with
  | none => exact .none
  | some r => exact .some (hfg i _ _ r)

/-- What related elements have in common, the lists have in common. -/
theorem map_eq {β : Type} {f : α → β} (h : Pointwise R l l') (hf : ∀ x y, R x y → f y = f x) :
    l'.map f = l.map f := by
  apply List.ext_getElem?
  intro i
  rw [List.getElem?_map, List.getElem?_map]
  have related := h i
  generalize l[i]? = a at related
  generalize l'[i]? = b at related
  cases related with
  | none => rfl
  | some r => rw [Option.map_some, Option.map_some, hf _ _ r]

theorem cons_iff : Pointwise R (x :: l) (y :: l') ↔ R x y ∧ Pointwise R l l' := by
  constructor
  · intro h
    refine ⟨?_, fun i => h (i + 1)⟩
    have first := h 0
    rw [List.getElem?_cons_zero, List.getElem?_cons_zero] at first
    cases first with
    | some r => exact r
  · rintro ⟨first, rest⟩ i
    cases i with
    | zero => exact .some first
    | succ i => exact rest i

/-- Lists that are related position by position can be gone through together. -/
theorem forall₂ (h : Pointwise R l l') : List.Forall₂ R l l' := by
  induction l generalizing l' with
  | nil =>
    have none := List.eq_nil_of_length_eq_zero h.length_eq
    rw [none]
    exact .nil
  | cons x l ih =>
    cases l' with
    | nil =>
      have length := h.length_eq
      cases length
    | cons y l' =>
      obtain ⟨first, rest⟩ := cons_iff.mp h
      exact .cons first (ih rest)

/-- Arrays that are related position by position have equally many elements. -/
theorem size_eq {β : Type} {S : Nat → α → β → Prop} {a : Array α} {b : Array β}
    (h : ∀ i : Nat, Option.Rel (S i) a[i]? b[i]?) : b.size = a.size := by
  have bounds : ∀ i : Nat, a[i]? = none ↔ b[i]? = none := by
    intro i
    have related := h i
    generalize a[i]? = o at related
    generalize b[i]? = o' at related
    cases related with
    | none => simp
    | some _ => simp
  have left := bounds a.size
  have right := bounds b.size
  simp only [Array.getElem?_eq_none_iff] at left right
  omega

/-- As many elements pass a test in both lists, if it does not tell related ones apart. -/
theorem countP_eq {p : α → Bool} (h : Pointwise R l l') (hp : ∀ x y, R x y → p y = p x) :
    l'.countP p = l.countP p := by
  have same := h.forall₂
  clear h
  induction same with
  | nil => rfl
  | cons first _ ih => rw [List.countP_cons, List.countP_cons, ih, hp _ _ first]

/-- The first elements that pass a test are related, if it does not tell related ones apart. -/
theorem find? {p : α → Bool} (h : Pointwise R l l') (hp : ∀ x y, R x y → p y = p x) :
    Option.Rel R (l.find? p) (l'.find? p) := by
  have same := h.forall₂
  clear h
  induction same with
  | nil => exact .none
  | @cons x y _ _ first _ ih =>
    rw [List.find?_cons, List.find?_cons, hp _ _ first]
    cases p x with
    | true => exact .some first
    | false => exact ih

end Pointwise

end CoreTiming
