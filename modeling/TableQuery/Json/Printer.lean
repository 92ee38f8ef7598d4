import TableQuery.Decimal.Shortest
import TableQuery.Json.Basic
import TableQuery.Json.Literal

/-!
# Compact JSON text

`Json.toText` writes a value without any white space.  Integers are decimal.  Doubles have the
fewest digits that read back; between 1e-5 and 1e16 they are positional with at least one place after
the point, otherwise they have an exponent (`Number.style`).
-/

namespace TableQuery

namespace Number

/-- JSON text writes a double positionally from 1e-5 to below 1e16, gives a whole number one zero
after the point, and takes the even one of two equally near digit strings. -/
def style : Double.Style :=
  ⟨fun exponent => decide (-5 ≤ exponent ∧ exponent ≤ 15), ['.', '0'], false⟩

/-- The text of a number. -/
def toChars : Number → List Char
  | integer value _ => Decimal.intChars value
  | double value => value.toChars style

end Number

namespace Json

mutual

/-- The compact text of a value. -/
def toChars : Json → List Char
  | .null => ['n', 'u', 'l', 'l']
  | .bool true => ['t', 'r', 'u', 'e']
  | .bool false => ['f', 'a', 'l', 's', 'e']
  | .number n => n.toChars
  | .string text => Literal.quoted text.toList
  | .array items => '[' :: (itemsChars items ++ [']'])
  | .object members => '\x7b' :: (membersChars members ++ ['\x7d'])

/-- Items with commas between them. -/
def itemsChars : List Json → List Char
  | [] => []
  | [value] => value.toChars
  | value :: rest => value.toChars ++ ',' :: itemsChars rest

/-- Members with commas between them. -/
def membersChars : List (String × Json) → List Char
  | [] => []
  | [(name, value)] => Literal.quoted name.toList ++ ':' :: value.toChars
  | (name, value) :: rest =>
    Literal.quoted name.toList ++ ':' :: (value.toChars ++ ',' :: membersChars rest)

end

/-- The compact text of a value. -/
def toText (value : Json) : String := String.ofList value.toChars

end Json

end TableQuery
