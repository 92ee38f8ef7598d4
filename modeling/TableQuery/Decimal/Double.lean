import TableQuery.Decimal.Basic

/-!
# Finite doubles

A finite binary64 number is a sign and a *magnitude*.  The magnitude is the number's 63 low bits as
a natural number.  Magnitudes are ordered as the absolute values are, so comparing two doubles is
comparing two integers, and the two zeros compare equal (`Double.rank`).

The absolute value itself is `Double.steps`, a whole number of steps of 2^-1074, the smallest
positive double.  A decimal becomes the double nearest to it, a tie going to the even neighbour
(`Decimal.magnitude?`).  The rounding works on natural numbers throughout: in steps, the binary
exponent is the bit length of the whole part beyond 53 bits, and rounding up past the last
significand carries into the next exponent by plain addition.
-/

namespace TableQuery

/-- The least magnitude that is not finite: that of infinity. -/
def Double.infinity : Nat := 0x7FF0000000000000

/-- A finite binary64 number. -/
structure Double where
  /-- The sign bit. -/
  negative : Bool
  /-- The other bits, exponent before significand. -/
  magnitude : Nat
  finite : magnitude < Double.infinity
  deriving DecidableEq, Repr

namespace Double

/-- The positive zero. -/
def zero : Double := ⟨false, 0, by decide⟩

/-- The negative zero. -/
def negativeZero : Double := ⟨true, 0, by decide⟩

/-- Where a double stands in the order of doubles; the two zeros stand at the same place. -/
def rank (d : Double) : Int := if d.negative then -d.magnitude else d.magnitude

/-- The 64 bits. -/
def bits (d : Double) : Nat := (if d.negative then 0x8000000000000000 else 0) + d.magnitude

/-- The absolute value that a magnitude stands for, in steps of 2^-1074. -/
def steps (magnitude : Nat) : Nat :=
  let exponent := magnitude / 0x10000000000000
  let fraction := magnitude % 0x10000000000000
  if exponent = 0 then fraction else (0x10000000000000 + fraction) <<< (exponent - 1)

/-- The quotient rounded to the nearest integer, a tie going to the even one. -/
def roundedQuotient (num den : Nat) : Nat :=
  let quotient := num / den
  let remainder := num % den
  if 2 * remainder < den ∨ (2 * remainder = den ∧ quotient % 2 = 0) then quotient else quotient + 1

/-- The magnitude nearest to `num / den`, infinity included. -/
def magnitudeOfRatio (num den : Nat) : Nat :=
  let scaled := num <<< 1074
  let shift := (scaled / den).log2 - 52
  shift <<< 52 + roundedQuotient scaled (den <<< shift)

end Double

namespace Decimal

/-- The magnitude nearest to the absolute value of a decimal; none if that is not finite.  A
number of more than 310 digits is out of range, and one with more than 330 zeros after the point
is zero, so the quotient is formed only between these bounds. -/
def magnitude? (d : Decimal) : Option Nat :=
  if d.digits = 0 then some 0
  else
    let size : Int := digitCount d.digits + d.exponent
    if 310 < size then none
    else if size < -330 then some 0
    else
      let magnitude :=
        if 0 ≤ d.exponent then Double.magnitudeOfRatio (d.digits * Nat.pow 10 d.exponent.toNat) 1
        else Double.magnitudeOfRatio d.digits (Nat.pow 10 (-d.exponent).toNat)
      if magnitude < Double.infinity then some magnitude else none

/-- The double nearest to a decimal; none if the decimal is beyond the range of doubles. -/
def toDouble? (d : Decimal) : Option Double :=
  match d.magnitude? with
  | none => none
  | some magnitude =>
    if finite : magnitude < Double.infinity then some ⟨d.negative, magnitude, finite⟩ else none

end Decimal

/-- The double nearest to an integer of at most 64 bits. -/
def Double.ofInt (i : Int) : Double :=
  (Decimal.mk (decide (i < 0)) i.natAbs 0).toDouble?.getD .zero

example : (Decimal.mk false 1 (-1)).magnitude? = some 0x3FB999999999999A := by decide +kernel
example : (Decimal.mk false 5 (-324)).magnitude? = some 1 := by decide +kernel
example : (Decimal.mk false 17976931348623159 292).magnitude? = none := by decide +kernel
example : (Double.ofInt 9007199254740993).magnitude = 0x4340000000000000 := by decide +kernel

end TableQuery
