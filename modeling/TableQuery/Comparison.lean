import TableQuery.Decimal.Shortest
import TableQuery.Fault
import TableQuery.Text.Blank

/-!
# Comparing values

Two values compare as numbers if both are numeric and as texts otherwise.  Numeric are the numbers
and the texts that spell a finite number, white space around it allowed.  As a text, `null` is empty,
a text is itself, and every other value is its compact JSON.

`Json.token` is a text that two values share exactly if they compare equal, so that an index can group
rows by it.  It writes numbers positionally whatever their size, and the two zeros alike.
-/

namespace TableQuery.Json

/-- The number that a value is or spells. -/
def toDouble? : Json → Option Double
  | .number n => some n.toDouble
  | .string text => (Decimal.ofChars? (Text.trim text.toList)).bind Decimal.toDouble?
  | _ => none

/-- The text that a value is compared as. -/
def rendered : Json → String
  | .null => ""
  | .string text => text
  | value => value.toText

/-- How two values compare. -/
def order (a b : Json) : Ordering :=
  match a.toDouble?, b.toDouble? with
  | some x, some y => compare x.rank y.rank
  | _, _ => compare a.rendered b.rendered

/-- Whether two values compare equal. -/
def agrees (a b : Json) : Bool := a.order b == .eq

/-- Tokens write doubles positionally, a whole number without a point. -/
def tokenStyle : Double.Style := ⟨fun _ => true, [], true⟩

/-- A text that is the same for values that compare equal. -/
def token (value : Json) : String :=
  match value.toDouble? with
  | some d => "n:" ++ if d.magnitude = 0 then "0" else String.ofList (d.toChars tokenStyle)
  | none => "s:" ++ value.rendered

end TableQuery.Json
