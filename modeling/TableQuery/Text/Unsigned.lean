/-!
# Bounded natural numbers as text

An optional plus sign and digits of a radix.  The digits are read from the left; the first one that is
no digit, or that brings the number to the bound, is the fault.
-/

namespace TableQuery.Text

/-- Why a text is no number below a bound. -/
inductive UnsignedFault where
  | empty
  | invalidDigit
  | tooLarge
  deriving DecidableEq, Repr

/-- What is told to the user. -/
def UnsignedFault.message : UnsignedFault → String
  | empty => "cannot parse integer from empty string"
  | invalidDigit => "invalid digit found in string"
  | tooLarge => "number too large to fit in target type"

/-- The value of a digit in a radix up to 16, in either case. -/
def digitValue? (radix : Nat) (c : Char) : Option Nat :=
  let value :=
    if '0' ≤ c ∧ c ≤ '9' then c.toNat - '0'.toNat
    else if 'a' ≤ c ∧ c ≤ 'f' then c.toNat - 'a'.toNat + 10
    else if 'A' ≤ c ∧ c ≤ 'F' then c.toNat - 'A'.toNat + 10
    else radix
  if value < radix then some value else none

/-- Reads digits after a number that was read already. -/
def digitsBelow (radix bound : Nat) : Nat → List Char → Except UnsignedFault Nat
  | n, [] => .ok n
  | n, c :: rest =>
    match digitValue? radix c with
    | none => .error .invalidDigit
    | some d => if n * radix + d < bound then digitsBelow radix bound (n * radix + d) rest
      else .error .tooLarge

/-- Reads a number below a bound: an optional plus sign and at least one digit. -/
def unsignedBelow (radix bound : Nat) : List Char → Except UnsignedFault Nat
  | [] => .error .empty
  | ['+'] => .error .invalidDigit
  | '+' :: rest => digitsBelow radix bound 0 rest
  | cs => digitsBelow radix bound 0 cs

example : unsignedBelow 10 65536 "+080".toList = .ok 80 := by rfl
example : unsignedBelow 10 65536 "65536".toList = .error .tooLarge := by rfl
example : unsignedBelow 10 65536 "-1".toList = .error .invalidDigit := by rfl

end TableQuery.Text
