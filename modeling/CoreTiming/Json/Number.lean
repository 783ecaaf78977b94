import CoreTiming.Fault
import CoreTiming.Json.Text

/-!
# Reading numbers

A number without fraction and exponent is an integer as long as its digits fit into a word.  Any
number is a double: the leading digits that fit into a word make up an integer, every digit behind
them counts only as a power of ten, and the integer is multiplied or divided once by that power.
Powers below the table are divided off in several steps.  A result beyond the largest double is
no number at all.
-/

namespace CoreTiming.JsonNumber

/-- The largest power of ten in the table of doubles. -/
def maxPower : Nat := 308

/-- Reads digits into `acc` while the result is a word, and gives the digits that are left. -/
def accumulate : Nat → List Nat → Nat × List Nat
  | acc, [] => (acc, [])
  | acc, d :: ds => if acc * 10 + d ≤ Word.max then accumulate (acc * 10 + d) ds else (acc, d :: ds)

/-- The number as an unsigned word, if it is written as one. -/
def toWord? (n : JsonNumber) : Option Nat :=
  match n.negative, n.fraction, n.exponent, accumulate 0 n.whole with
  | false, none, none, (value, []) => some value
  | _, _, _, _ => none

/-- Leading digits as an integer, and the power of ten that the digits behind them make up. -/
def significand (n : JsonNumber) : Nat × Int :=
  let (value, dropped) := accumulate 0 n.whole
  match n.fraction with
  | none => (value, dropped.length)
  | some ds =>
    let (value, rest) := accumulate value ds
    (value, (dropped.length : Int) - (ds.length - rest.length : Nat))

/-- `f` times the given power of ten; none beyond the largest double. -/
def scaleBy (f : Float) : Nat → Int → Option Float
  | 0, _ => some f
  | fuel + 1, power =>
    if power.natAbs ≤ maxPower then
      if 0 ≤ power then
        let r := f * Float.ofScientific 1 false power.natAbs
        if r.isInf then none else some r
      else some (f / Float.ofScientific 1 false power.natAbs)
    else if f == 0.0 then some f
    else if 0 ≤ power then none
    else scaleBy (f / Float.ofScientific 1 false maxPower) fuel (power + maxPower)

/-- The largest exponent that is taken digit by digit. -/
def maxExponent : Nat := 0x7FFFFFFF

/-- The size of the number as a double. -/
def magnitude? (n : JsonNumber) : Option Float :=
  let (value, power) := n.significand
  let f := (UInt64.ofNat value).toFloat
  match n.exponent with
  | none => scaleBy f 8 power
  | some (negative, ds) =>
    let exponent := ds.foldl (fun acc d => min (acc * 10 + d) (maxExponent + 1)) 0
    if maxExponent < exponent then (if value = 0 ∨ negative then some 0.0 else none)
    else scaleBy f 8 (if negative then power - exponent else power + exponent)

/-- The number as a double. -/
def toFloat? (n : JsonNumber) : Option Float :=
  n.magnitude?.map fun f => if n.negative then -f else f

end CoreTiming.JsonNumber
