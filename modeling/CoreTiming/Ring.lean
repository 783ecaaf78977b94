import CoreTiming.Fault

/-!
# Bounded first-in first-out rings

Elements enter at the back, leave at the front, and are addressed from the front.  The elements
are kept in an array behind a dead stretch left by those that were taken out; the stretch is cut
off once it is as long as the rest.  What the ring means is `toList`: the live elements in order.
-/

namespace CoreTiming

/-- A queue that holds at most `capacity` elements. -/
structure Ring (α : Type) where
  /-- The live elements, behind `start` dead ones. -/
  slots : Array α
  /-- How many elements at the front of `slots` are dead. -/
  start : Nat
  /-- The most elements the ring may hold. -/
  capacity : Nat
  /-- The dead stretch lies inside the array. -/
  start_le : start ≤ slots.size := by simp

namespace Ring

variable {α : Type}

/-- The elements, oldest first. -/
def toList (r : Ring α) : List α := r.slots.toList.drop r.start

/-- A ring without elements. -/
def empty (capacity : Nat) : Ring α := { slots := #[], start := 0, capacity }

instance : Inhabited (Ring α) := ⟨empty 0⟩

/-- How many elements the ring holds. -/
def length (r : Ring α) : Nat := r.slots.size - r.start

/-- Whether the ring holds nothing. -/
def isEmpty (r : Ring α) : Bool := r.slots.size ≤ r.start

/-- Whether nothing more fits. -/
def isFull (r : Ring α) : Bool := r.capacity ≤ r.length

/-- The element `i` positions behind the oldest. -/
def get? (r : Ring α) (i : Nat) : Option α := r.slots[r.start + i]?

/-- The oldest element. -/
def front? (r : Ring α) : Option α := r.get? 0

/-- The youngest element. -/
def back? (r : Ring α) : Option α := if r.isEmpty then none else r.slots.back?

/-- Adds `x` at the back. -/
def push (r : Ring α) (x : α) : Except Fault (Ring α) :=
  if r.isFull then .error (.ringFull r.capacity)
  else .ok ⟨r.slots.push x, r.start, r.capacity, by simp; have := r.start_le; omega⟩

/-- Cuts off the dead stretch if it is at least as long as the rest. -/
def compact (r : Ring α) : Ring α :=
  if r.slots.size ≤ 2 * r.start then
    { slots := r.slots.extract r.start r.slots.size, start := 0, capacity := r.capacity }
  else r

/-- The ring without its oldest element. -/
def tail (r : Ring α) : Ring α :=
  if h : r.start < r.slots.size then compact ⟨r.slots, r.start + 1, r.capacity, h⟩ else r

/-- Takes out the oldest element. -/
def pop (r : Ring α) : Option α × Ring α := (r.front?, r.tail)

/-- Changes the element at position `i`. -/
@[inline] def modify (r : Ring α) (i : Nat) (f : α → α) : Ring α :=
  ⟨r.slots.modify (r.start + i) f, r.start, r.capacity, by simpa using r.start_le⟩

/-- A ring without elements and of the same capacity. -/
def clear (r : Ring α) : Ring α := empty r.capacity

/-- A ring of the same capacity with other elements. -/
def withElements (r : Ring α) (xs : List α) : Ring α :=
  { slots := xs.toArray, start := 0, capacity := r.capacity }

/-- Keeps the elements that `keep` accepts. -/
def filter (r : Ring α) (keep : α → Bool) : Ring α := r.withElements (r.toList.filter keep)

/-- Changes every element. -/
def map (r : Ring α) (f : α → α) : Ring α := r.withElements (r.toList.map f)

/-- Changes every element, given its position. -/
def mapIdx (r : Ring α) (f : Nat → α → α) : Ring α := r.withElements (r.toList.mapIdx f)

/-- The first of the `n` elements from position `i` on that satisfies `p`. -/
def findFrom (r : Ring α) (p : α → Bool) : (n i : Nat) → Option α
  | 0, _ => none
  | n + 1, i =>
    match r.get? i with
    | some x => if p x then some x else findFrom r p n (i + 1)
    | none => none

/-- The first of the `n` oldest elements that satisfies `p`. -/
def findAmong (r : Ring α) (n : Nat) (p : α → Bool) : Option α := r.findFrom p n 0

/-- How many of the `n` elements from position `i` on satisfy `p`. -/
def countFrom (r : Ring α) (p : α → Bool) : (n i : Nat) → Nat
  | 0, _ => 0
  | n + 1, i =>
    match r.get? i with
    | some x => (if p x then 1 else 0) + countFrom r p n (i + 1)
    | none => 0

/-- How many of the `n` oldest elements satisfy `p`. -/
def countAmong (r : Ring α) (n : Nat) (p : α → Bool) : Nat := r.countFrom p n 0

/-! ## What the operations mean -/

@[simp] theorem toList_empty (capacity : Nat) : (empty capacity : Ring α).toList = [] := rfl

@[simp] theorem toList_clear (r : Ring α) : r.clear.toList = [] := rfl

@[simp] theorem toList_withElements (r : Ring α) (xs : List α) :
    (r.withElements xs).toList = xs := rfl

@[simp] theorem length_toList (r : Ring α) : r.toList.length = r.length := by
  simp [toList, length]

theorem getElem?_toList (r : Ring α) (i : Nat) : r.toList[i]? = r.get? i := by
  simp [toList, get?]

theorem toList_push {r s : Ring α} {x : α} (h : r.push x = .ok s) :
    s.toList = r.toList ++ [x] := by
  unfold push at h
  split at h
  · cases h
  · cases h
    simp only [toList, Array.toList_push]
    rw [List.drop_append_of_le_length (by simpa using r.start_le)]

@[simp] theorem toList_compact (r : Ring α) : r.compact.toList = r.toList := by
  unfold compact
  split
  · simp only [toList, Array.toList_extract, List.extract_eq_take_drop, List.drop_zero]
    exact List.take_of_length_le (by simp)
  · rfl

@[simp] theorem toList_tail (r : Ring α) : r.tail.toList = r.toList.tail := by
  unfold tail
  split
  · rw [toList_compact]
    simp [toList, List.tail_drop]
  · rename_i h
    have : r.toList = [] := by simp [toList]; omega
    rw [this]
    rfl

@[simp] theorem toList_modify (r : Ring α) (i : Nat) (f : α → α) :
    (r.modify i f).toList = r.toList.modify i f := by
  apply List.ext_getElem?
  intro j
  simp only [toList, modify, Array.toList_modify, List.getElem?_drop, List.getElem?_modify]
  by_cases h : i = j
  · subst h; simp
  · have : ¬ r.start + i = r.start + j := by omega
    simp [h]

theorem drop_toList_of_get? {r : Ring α} {i : Nat} {x : α} (h : r.get? i = some x) :
    r.toList.drop i = x :: r.toList.drop (i + 1) := by
  rw [← getElem?_toList] at h
  obtain ⟨hi, rfl⟩ := List.getElem?_eq_some_iff.mp h
  exact List.drop_eq_getElem_cons hi

theorem drop_toList_of_get?_none {r : Ring α} {i : Nat} (h : r.get? i = none) :
    r.toList.drop i = [] := by
  rw [← getElem?_toList, List.getElem?_eq_none_iff] at h
  exact List.drop_eq_nil_of_le h

theorem findFrom_eq (r : Ring α) (p : α → Bool) (n i : Nat) :
    r.findFrom p n i = ((r.toList.drop i).take n).find? p := by
  induction n generalizing i with
  | zero => simp [findFrom]
  | succ n ih =>
    unfold findFrom
    cases h : r.get? i with
    | none => simp [drop_toList_of_get?_none h]
    | some x =>
      rw [drop_toList_of_get? h, List.take_succ_cons, List.find?_cons, ih]
      cases hp : p x <;> simp [hp]

theorem findAmong_eq (r : Ring α) (n : Nat) (p : α → Bool) :
    r.findAmong n p = (r.toList.take n).find? p := by
  rw [findAmong, findFrom_eq, List.drop_zero]

theorem countFrom_eq (r : Ring α) (p : α → Bool) (n i : Nat) :
    r.countFrom p n i = ((r.toList.drop i).take n).countP p := by
  induction n generalizing i with
  | zero => simp [countFrom]
  | succ n ih =>
    unfold countFrom
    cases h : r.get? i with
    | none => simp [drop_toList_of_get?_none h]
    | some x =>
      rw [drop_toList_of_get? h, List.take_succ_cons, List.countP_cons, ih]
      simp [Nat.add_comm]

theorem countAmong_eq (r : Ring α) (n : Nat) (p : α → Bool) :
    r.countAmong n p = (r.toList.take n).countP p := by
  rw [countAmong, countFrom_eq, List.drop_zero]

end Ring

end CoreTiming
