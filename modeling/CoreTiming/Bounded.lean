import CoreTiming.Fault

/-!
# Bounded lists of sequence numbers

Hardware tables with a hard limit on their entries: the producers a micro-op waits for, the
consumers an entry wakes.  The limit is part of the type.
-/

namespace CoreTiming

/-- At most `capacity` numbers, oldest first. -/
structure BoundedList (capacity : Nat) where
  /-- The numbers, in the order in which they were added. -/
  toList : List Nat
  /-- The table never exceeds its limit. -/
  length_le : toList.length ≤ capacity
  deriving DecidableEq

namespace BoundedList

variable {capacity : Nat}

/-- The list without numbers. -/
def empty : BoundedList capacity := ⟨[], Nat.zero_le _⟩

instance : Inhabited (BoundedList capacity) := ⟨empty⟩

/-- How many numbers the list holds. -/
def length (l : BoundedList capacity) : Nat := l.toList.length

/-- Whether the list holds nothing. -/
def isEmpty (l : BoundedList capacity) : Bool := l.toList.isEmpty

/-- Whether nothing more fits. -/
def isFull (l : BoundedList capacity) : Bool := l.toList.length == capacity

/-- Whether `seq` is in the list. -/
def contains (l : BoundedList capacity) (seq : Nat) : Bool := l.toList.contains seq

/-- The number at position `i`. -/
def get? (l : BoundedList capacity) (i : Nat) : Option Nat := l.toList[i]?

/-- Adds `seq` behind the others; `what` names the table if it is full. -/
def push (l : BoundedList capacity) (what : String) (seq : Nat) :
    Except Fault (BoundedList capacity) :=
  if h : l.toList.length < capacity then
    .ok ⟨l.toList ++ [seq], by rw [List.length_append]; exact h⟩
  else .error (.listFull what capacity seq)

/-- Adds `seq` unless it is there already. -/
def insert (l : BoundedList capacity) (what : String) (seq : Nat) :
    Except Fault (BoundedList capacity) :=
  if l.contains seq then .ok l else l.push what seq

/-- Removes the first occurrence of `seq`. -/
def erase (l : BoundedList capacity) (seq : Nat) : BoundedList capacity :=
  ⟨l.toList.erase seq, Nat.le_trans List.length_erase_le l.length_le⟩

/-- How the list is written: its numbers between brackets. -/
def render (l : BoundedList capacity) : String :=
  "[" ++ ", ".intercalate (l.toList.map toString) ++ "]"

theorem toList_push {l r : BoundedList capacity} {what : String} {seq : Nat}
    (h : l.push what seq = .ok r) : r.toList = l.toList ++ [seq] := by
  unfold push at h
  split at h
  · cases h
    rfl
  · cases h

@[simp] theorem toList_erase (l : BoundedList capacity) (seq : Nat) :
    (l.erase seq).toList = l.toList.erase seq := rfl

@[simp] theorem toList_empty : (empty : BoundedList capacity).toList = [] := rfl

end BoundedList

end CoreTiming
