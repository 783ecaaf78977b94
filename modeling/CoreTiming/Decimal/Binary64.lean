/-!
# The exact value of a double

A finite double is an integer times a power of two.  `Binary64` holds that value apart from the
word it came from, so that writing it in decimal is exact arithmetic on natural numbers.
-/

namespace CoreTiming

/-- A power of two. -/
def twoTo (n : Nat) : Nat := Nat.pow 2 n

/-- A power of ten. -/
def tenTo (n : Nat) : Nat := Nat.pow 10 n

/-- What a double stands for. -/
inductive Binary64
  /-- Not a number. -/
  | nan
  /-- An infinity. -/
  | infinite (negative : Bool)
  /-- The number of size `mantissa * 2 ^ exponent`. -/
  | finite (negative : Bool) (mantissa : Nat) (exponent : Int)
  deriving DecidableEq, Repr

namespace Binary64

/-- Bits of the mantissa that are stored. -/
def mantissaBits : Nat := 52

/-- The exponent of the smallest doubles. -/
def leastExponent : Int := -1074

/-- The value of the double whose word is `bits`. -/
def ofBits (bits : UInt64) : Binary64 :=
  let word := bits.toNat
  let negative := word / twoTo 63 == 1
  let field := word / twoTo mantissaBits % 2048
  let fraction := word % twoTo mantissaBits
  if field = 2047 then
    if fraction = 0 then .infinite negative else .nan
  else if field = 0 then .finite negative fraction leastExponent
  else .finite negative (twoTo mantissaBits + fraction) (leastExponent + (field - 1 : Nat))

/-- The value of `x`. -/
def ofFloat (x : Float) : Binary64 := ofBits x.toBits

/-- Numerator and denominator of `m * 2 ^ e`. -/
def ratio (m : Nat) (e : Int) : Nat × Nat :=
  if 0 ≤ e then (m * twoTo e.toNat, 1) else (m, twoTo (-e).toNat)

end Binary64

end CoreTiming
