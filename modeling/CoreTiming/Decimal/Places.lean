import CoreTiming.Decimal.Binary64

/-!
# A double with a fixed number of places

The value is rounded once, from its exact binary value, to the wanted number of decimal places;
a tie goes to the even neighbour.
-/

namespace CoreTiming.Decimal

/-- The quotient rounded to the nearest integer, a tie going to the even one. -/
def roundEven (num den : Nat) : Nat :=
  let q := num / den
  let twice := 2 * (num % den)
  if den < twice then q + 1
  else if twice < den then q
  else if q % 2 = 0 then q else q + 1

/-- `text` with `fill` in front, up to `width` characters. -/
def padStart (width : Nat) (fill : Char) (text : String) : String :=
  String.ofList (List.replicate (width - text.length) fill) ++ text

/-- `text` with blanks behind, up to `width` characters. -/
def padEnd (width : Nat) (text : String) : String :=
  text ++ String.ofList (List.replicate (width - text.length) ' ')

/-- The integer `n`, read as a count of units of the last of `places` decimal places. -/
def pointed (places n : Nat) : String :=
  if places = 0 then toString n
  else
    toString (n / tenTo places) ++ "." ++ padStart places '0' (toString (n % tenTo places))

/-- The double `x` with exactly `places` decimal places. -/
def fixed (places : Nat) (x : Float) : String :=
  match Binary64.ofFloat x with
  | .nan => "NaN"
  | .infinite negative => if negative then "-inf" else "inf"
  | .finite negative m e =>
    let (num, den) := Binary64.ratio m e
    (if negative then "-" else "") ++ pointed places (roundEven (num * tenTo places) den)

/-- Rounding moves the quotient by at most half a unit. -/
theorem roundEven_near (num den : Nat) (h : 0 < den) :
    2 * num ≤ (2 * roundEven num den + 1) * den ∧ 2 * (roundEven num den * den) ≤ 2 * num + den := by
  have split : den * (num / den) + num % den = num := Nat.div_add_mod num den
  have hm : num % den < den := Nat.mod_lt _ h
  have e1 : (num / den) * den = den * (num / den) := Nat.mul_comm ..
  simp only [roundEven]
  split
  · constructor
    · rw [Nat.add_mul, Nat.mul_assoc, Nat.add_mul, e1]; omega
    · rw [Nat.add_mul, e1]; omega
  · split
    · constructor
      · rw [Nat.add_mul, Nat.mul_assoc, e1]; omega
      · rw [e1]; omega
    · split
      · constructor
        · rw [Nat.add_mul, Nat.mul_assoc, e1]; omega
        · rw [e1]; omega
      · constructor
        · rw [Nat.add_mul, Nat.mul_assoc, Nat.add_mul, e1]; omega
        · rw [Nat.add_mul, e1]; omega

end CoreTiming.Decimal
