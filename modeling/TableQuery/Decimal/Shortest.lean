import TableQuery.Decimal.Double

/-!
# The fewest digits that read back

A double is written with the fewest significant digits that a reader rounds back to it, and with
the nearest such digits where there is a choice.  Every double has a finite decimal expansion, since
a step of 2^-1074 is 5^1074 * 10^-1074.  For 1, 2, 3, ... digits the expansion is cut after that many
digits, and the cut and its successor are read back.  The first width with a hit wins; the full
expansion always is one, so the search cannot come back empty-handed.

The digits leave two things to the format: which of two equally near neighbours is taken, and where
the point stands.  A `Style` makes both choices.
-/

namespace TableQuery.Double

/-- How a format writes doubles. -/
structure Style where
  /-- Whether a number is written positionally, by the decimal exponent of its first digit. -/
  positional : Int → Bool
  /-- What follows the digits of a number without a fraction. -/
  wholeMark : List Char
  /-- Whether the greater of two equally near digit strings is taken; otherwise the even one is. -/
  tieUp : Bool

/-- All decimal digits of the absolute value, down to the place 10^-1074. -/
def expansion (magnitude : Nat) : Nat := steps magnitude * Nat.pow 5 1074

/-- Whether `digits * 10 ^ exponent` reads back as the given magnitude. -/
def readsBack (magnitude digits : Nat) (exponent : Int) : Bool :=
  (Decimal.mk false digits exponent).magnitude? == some magnitude

/-- The one of two neighbouring digit strings that reads back, the preferred one if both do. -/
def pick? (preferBelow : Bool) (below : Nat) (exponent : Int) (belowReads aboveReads : Bool) :
    Option (Nat × Int) :=
  match belowReads, aboveReads with
  | true, true => some (if preferBelow then below else below + 1, exponent)
  | true, false => some (below, exponent)
  | false, true => some (below + 1, exponent)
  | false, false => none

/-- The digits of the given number of dropped places that read back, the nearer ones first. -/
def cutAt? (tieUp : Bool) (magnitude dropped : Nat) : Option (Nat × Int) :=
  let unit := Nat.pow 10 dropped
  let below := expansion magnitude / unit
  let excess := expansion magnitude % unit
  let exponent : Int := dropped - 1074
  let preferBelow : Bool :=
    2 * excess < unit || (2 * excess == unit && !tieUp && below % 2 == 0)
  pick? preferBelow below exponent (readsBack magnitude below exponent)
    (readsBack magnitude (below + 1) exponent)

/-- The shortest digits that read back as a magnitude, and the power of ten of the last one. -/
def shortest (tieUp : Bool) (magnitude : Nat) : Nat × Int :=
  let size := Decimal.digitCount (expansion magnitude)
  ((List.range size).findSome? fun i => cutAt? tieUp magnitude (size - (i + 1))).getD
    (expansion magnitude, -1074)

/-- A digit string without the zeros at its end. -/
def stripZeros (ds : List Char) : List Char := (ds.reverse.dropWhile (· == '0')).reverse

/-- Digits with the point at the given place, counted from the left end of the digits. -/
def placePoint (wholeMark ds : List Char) (point : Int) : List Char :=
  if point ≤ 0 then '0' :: '.' :: (List.replicate (-point).toNat '0' ++ ds)
  else if point < ds.length then ds.take point.toNat ++ '.' :: ds.drop point.toNat
  else ds ++ List.replicate (point.toNat - ds.length) '0' ++ wholeMark

/-- The text of an exponent, which always has a sign. -/
def exponentChars (exponent : Int) : List Char :=
  if exponent < 0 then Decimal.intChars exponent else '+' :: Decimal.intChars exponent

/-- Digits with a point after the first and an exponent. -/
def withExponent (ds : List Char) (exponent : Int) : List Char :=
  (match ds with
    | [] => ['0']
    | [d] => [d]
    | d :: ds => d :: '.' :: ds) ++ 'e' :: exponentChars exponent

/-- Digits, less the zeros at their end, with the power of ten of the last one, in a style. -/
def layOut (style : Style) (found : Nat × Int) : List Char :=
  let ds := Decimal.digitsOf found.1
  let point : Int := ds.length + found.2
  if style.positional (point - 1) then placePoint style.wholeMark (stripZeros ds) point
  else withExponent (stripZeros ds) (point - 1)

/-- The text of an absolute value in a style. -/
def magnitudeChars (style : Style) (magnitude : Nat) : List Char :=
  if magnitude = 0 then '0' :: style.wholeMark else layOut style (shortest style.tieUp magnitude)

/-- The text of a double in a style. -/
def toChars (style : Style) (d : Double) : List Char :=
  if d.negative then '-' :: magnitudeChars style d.magnitude
  else magnitudeChars style d.magnitude

end TableQuery.Double
