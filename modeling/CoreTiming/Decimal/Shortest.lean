import CoreTiming.Decimal.Places

/-!
# The shortest decimal that reads back

A double is the nearest double to every real in an interval around it (ends included when its
mantissa is even).  Among the decimals inside that interval the one with the fewest digits is
written; of two with as few digits, the nearer one, and of two equally near, the larger.

`digits` finds it by trying one digit, two digits and so on, each time with the two neighbours of
the exact value on that decimal grid.  `display` and `inspect` are the two ways to lay the digits
out: always positional, or with an exponent for very large and very small values.
-/

namespace CoreTiming.Decimal

/-- The decimal `0.d₁d₂… * 10 ^ point`. -/
structure Digits where
  /-- The digits, the first of which is not zero. -/
  digits : String
  /-- Where the decimal point stands, counted from the first digit. -/
  point : Int
  deriving DecidableEq, Repr

/-- The reals that read back as a double, over one denominator. -/
structure Interval where
  /-- Lower end. -/
  low : Nat
  /-- The double itself. -/
  value : Nat
  /-- Upper end. -/
  high : Nat
  /-- The common denominator. -/
  den : Nat
  /-- Whether the ends belong to the interval. -/
  closed : Bool

namespace Interval

/-- The interval of the double `m * 2 ^ e`.  Below a power of two the neighbour is half as far. -/
def ofParts (m : Nat) (e : Int) : Interval :=
  let below := if m = twoTo Binary64.mantissaBits ∧ e ≠ Binary64.leastExponent then 1 else 2
  let (_, den) := Binary64.ratio 1 (e - 2)
  let unit := (Binary64.ratio 1 (e - 2)).1
  { low := (4 * m - below) * unit, value := 4 * m * unit, high := (4 * m + 2) * unit, den,
    closed := m % 2 = 0 }

/-- Whether the decimal `n * 10 ^ k` lies inside. -/
def holds (i : Interval) (n : Nat) (k : Int) : Bool :=
  let at' := n * tenTo k.toNat * i.den
  let scale := tenTo (-k).toNat
  if i.closed then i.low * scale ≤ at' && at' ≤ i.high * scale
  else i.low * scale < at' && at' < i.high * scale

/-- The largest `n` with `n * 10 ^ k` at most the value. -/
def floorAt (i : Interval) (k : Int) : Nat :=
  i.value * tenTo (-k).toNat / (i.den * tenTo k.toNat)

/-- Whether the value lies nearer to `n * 10 ^ k` than to `(n + 1) * 10 ^ k`. -/
def nearerBelow (i : Interval) (n : Nat) (k : Int) : Bool :=
  2 * (i.value * tenTo (-k).toNat) < (2 * n + 1) * (tenTo k.toNat * i.den)

/-- The decimal exponent of the value: the least `p ≥ start` with the value below `10 ^ p`. -/
def exponentFrom (i : Interval) : Nat → Int → Int
  | 0, p => p
  | fuel + 1, p =>
    if i.value * tenTo (-p).toNat < tenTo p.toNat * i.den then p else exponentFrom i fuel (p + 1)

/-- The best point on the grid of step `10 ^ k`, if the grid meets the interval. -/
def hit? (i : Interval) (k : Int) : Option Nat :=
  let n := i.floorAt k
  match i.holds n k, i.holds (n + 1) k with
  | true, true => some (if i.nearerBelow n k then n else n + 1)
  | true, false => some n
  | false, true => some (n + 1)
  | false, false => none

/-- The first grid that meets the interval, from `count` digits on. -/
def search (i : Interval) (p : Int) : Nat → Nat → Nat × Int
  | 0, count => (i.floorAt (p - count), p - count)
  | fuel + 1, count =>
    match i.hit? (p - count) with
    | some n => (n, p - count)
    | none => search i p fuel (count + 1)

end Interval

/-- `text` without the zeros at its end. -/
def trimZeros (text : String) : String :=
  String.ofList (text.toList.reverse.dropWhile (· == '0')).reverse

/-- The fewest digits that read back as the positive double `m * 2 ^ e`. -/
def digits (m : Nat) (e : Int) : Digits :=
  let i := Interval.ofParts m e
  let p := i.exponentFrom 700 (-330)
  let (n, k) := i.search p 20 1
  let text := toString n
  { digits := trimZeros text, point := k + text.length }

/-- The digits in positional notation, with at least `places` decimal places. -/
def positional (places : Nat) (d : Digits) : String :=
  let count := d.digits.length
  let zeros (n : Nat) := String.ofList (List.replicate n '0')
  if d.point ≤ 0 then "0." ++ zeros (-d.point).toNat ++ d.digits
  else if d.point < count then
    String.ofList (d.digits.toList.take d.point.toNat) ++ "." ++
      String.ofList (d.digits.toList.drop d.point.toNat)
  else
    d.digits ++ zeros (d.point.toNat - count) ++ (if places = 0 then "" else "." ++ zeros places)

/-- The digits with one of them before the point, and an exponent. -/
def scientific (d : Digits) : String :=
  let first := String.ofList (d.digits.toList.take 1)
  let rest := String.ofList (d.digits.toList.drop 1)
  first ++ (if rest.isEmpty then "" else "." ++ rest) ++ "e" ++ toString (d.point - 1)

/-- How a double is laid out once its digits are known. -/
structure Layout where
  /-- The least number of decimal places in positional notation. -/
  places : Nat
  /-- Points outside this range are written with an exponent; absent, none are. -/
  positionalRange : Option (Int × Int)

/-- The text of `x` in layout `l`. -/
def Layout.write (l : Layout) (x : Float) : String :=
  match Binary64.ofFloat x with
  | .nan => "NaN"
  | .infinite negative => if negative then "-inf" else "inf"
  | .finite negative m e =>
    (if negative then "-" else "") ++
      if m = 0 then (if l.places = 0 then "0" else "0." ++ String.ofList (List.replicate l.places '0'))
      else
        let d := digits m e
        match l.positionalRange with
        | some (low, high) =>
          if low ≤ d.point ∧ d.point ≤ high then positional l.places d else scientific d
        | none => positional l.places d

/-- A number in a message: positional, without a point where none is needed. -/
def display : Float → String := Layout.write ⟨0, none⟩

/-- A number in a listing: positional from `0.0001` up to below `1e16`, always with a point. -/
def inspect : Float → String := Layout.write ⟨1, some (-3, 16)⟩

end CoreTiming.Decimal
