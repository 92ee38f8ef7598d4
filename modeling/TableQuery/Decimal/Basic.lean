/-!
# Decimal numbers as written

A `Decimal` is a number as its digits give it: a sign, all digits read as one natural number, and a
power of ten.  Nothing is rounded here, so `1.50` and `1.5` are different decimals of one value.

`Decimal.ofChars?` reads the liberal spelling that a text may have and still count as a number: an
optional sign, digits around an optional point with at least one digit on either side, and an
optional exponent.  The stricter spellings of JSON and of the query language have readers of their
own.  All of them build on `splitDigits` and `exponentTail?`.
-/

namespace TableQuery

/-- A decimal number: `digits * 10 ^ exponent`, negated if `negative`. -/
structure Decimal where
  negative : Bool
  /-- All digits, those after the point included, as one number. -/
  digits : Nat
  /-- The power of ten that the digits are multiplied with. -/
  exponent : Int
  deriving DecidableEq, Repr

namespace Decimal

/-! ## Digits -/

/-- The number that a run of decimal digits denotes. -/
def digitsValue (cs : List Char) : Nat := Nat.ofDigitChars 10 cs 0

/-- The decimal digits of a number, without leading zeros. -/
def digitsOf (n : Nat) : List Char := Nat.toDigits 10 n

/-- How many decimal digits a number has. -/
def digitCount (n : Nat) : Nat := (digitsOf n).length

@[simp] theorem digitsValue_digitsOf (n : Nat) : digitsValue (digitsOf n) = n :=
  Nat.ofDigitChars_ten_toDigits

theorem isDigit_of_mem_digitsOf {n : Nat} {c : Char} (h : c ∈ digitsOf n) : c.isDigit = true :=
  Nat.isDigit_of_mem_toDigits (by decide) (by decide) h

theorem digitsOf_ne_nil (n : Nat) : digitsOf n ≠ [] :=
  List.ne_nil_of_length_pos Nat.length_toDigits_pos

/-- The digits at the front of a text, and what follows them. -/
def splitDigits (cs : List Char) : List Char × List Char :=
  (cs.takeWhile Char.isDigit, cs.dropWhile Char.isDigit)

theorem splitDigits_append (cs : List Char) : (splitDigits cs).1 ++ (splitDigits cs).2 = cs :=
  List.takeWhile_append_dropWhile

/-- The text of an integer. -/
def intChars (i : Int) : List Char :=
  if i < 0 then '-' :: digitsOf i.natAbs else digitsOf i.natAbs

/-! ## Reading -/

/-- Takes a sign off the front; without one the number is positive. -/
def splitSign : List Char → Bool × List Char
  | '-' :: cs => (true, cs)
  | '+' :: cs => (false, cs)
  | cs => (false, cs)

/-- The exponent after its mark: an optional sign and at least one digit. -/
def exponentTail? (cs : List Char) : Option (Int × List Char) :=
  let (negative, cs) := splitSign cs
  let (digits, rest) := splitDigits cs
  if digits.isEmpty then none
  else
    let size : Int := digitsValue digits
    some (if negative then -size else size, rest)

/-- The decimal with the given digits before and after the point. -/
def ofParts (negative : Bool) (whole fraction : List Char) (exponent : Int) : Decimal :=
  ⟨negative, digitsValue (whole ++ fraction), exponent - fraction.length⟩

/-- A point and the digits after it, if there is a point. -/
def splitFraction : List Char → List Char × List Char
  | '.' :: cs => splitDigits cs
  | cs => ([], cs)

/-- Reads a whole text as a number: an optional sign, digits with an optional point and at least
one digit on either side of it, and an optional exponent. -/
def ofChars? (cs : List Char) : Option Decimal :=
  let (negative, cs) := splitSign cs
  let (whole, cs) := splitDigits cs
  let (fraction, cs) := splitFraction cs
  if whole.isEmpty && fraction.isEmpty then none
  else match cs with
    | [] => some (ofParts negative whole fraction 0)
    | mark :: cs =>
      if mark == 'e' || mark == 'E' then
        match exponentTail? cs with
        | some (exponent, []) => some (ofParts negative whole fraction exponent)
        | _ => none
      else none

example : ofChars? "-12.50e+3".toList = some ⟨true, 1250, 1⟩ := by decide
example : ofChars? ".5".toList = some ⟨false, 5, -1⟩ ∧ ofChars? "5.".toList = some ⟨false, 5, 0⟩ := by
  decide
example : ofChars? ".".toList = none ∧ ofChars? "1e".toList = none ∧ ofChars? "".toList = none := by
  decide

end Decimal

end TableQuery
