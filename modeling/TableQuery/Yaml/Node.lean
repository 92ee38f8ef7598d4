import TableQuery.Json.Basic
import TableQuery.Text.Unsigned

/-!
# YAML nodes

A YAML document is a tree of scalars, sequences and mappings.  A scalar is a text; that it was written
without quotes matters only where its type is open.  There a plain scalar is null, a truth value, an
integer or a decimal if it looks like one, and otherwise a text.

An integer has an optional sign and may be written with the marks `0x`, `0o` and `0b`.  One that does
not fit 64 bits but does fit 128 has no value.  Digits after a leading zero make a text.  An infinity
or a NaN has no JSON number, and its value is null.
-/

namespace TableQuery.Yaml

/-- A node of a YAML document. -/
inductive Node where
  /-- A text, and whether it was written without quotes. -/
  | scalar (plain : Bool) (text : List Char)
  | sequence (items : List Node)
  | mapping (entries : List (Node × Node))
  deriving Inhabited

/-! ## Plain scalars -/

/-- Whether a plain scalar spells null. -/
def spellsNull (cs : List Char) : Bool :=
  cs == "null".toList || cs == "Null".toList || cs == "NULL".toList || cs == ['~']

/-- The truth value that a plain scalar spells. -/
def truth? (cs : List Char) : Option Bool :=
  if cs == "true".toList || cs == "True".toList || cs == "TRUE".toList then some true
  else if cs == "false".toList || cs == "False".toList || cs == "FALSE".toList then some false
  else none

/-- A text without a leading sign. -/
def withoutSign : List Char → List Char
  | '+' :: cs => cs
  | '-' :: cs => cs
  | cs => cs

/-- Whether a text is a zero followed by digits, which spells no number. -/
def hasLeadingZero (cs : List Char) : Bool :=
  match withoutSign cs with
  | '0' :: rest => !rest.isEmpty && rest.all Char.isDigit
  | _ => false

/-- Whether a text starts with a sign. -/
def startsWithSign : List Char → Bool
  | '+' :: _ => true
  | '-' :: _ => true
  | _ => false

/-- The digits of a number without a sign of their own, below a bound. -/
def unsignedDigits? (radix bound : Nat) (cs : List Char) : Option Nat :=
  if startsWithSign cs then none else (Text.unsignedBelow radix bound cs).toOption

/-- The number after the mark of a radix. -/
def markedDigits? (bound : Nat) : List Char → Option Nat
  | '0' :: 'x' :: cs => unsignedDigits? 16 bound cs
  | '0' :: 'o' :: cs => unsignedDigits? 8 bound cs
  | '0' :: 'b' :: cs => unsignedDigits? 2 bound cs
  | _ => none

/-- The number that a plain scalar spells, if it is below a bound and not negative. -/
def unsigned? (bound : Nat) (cs : List Char) : Option Nat :=
  let body := match cs with
    | '+' :: rest => rest
    | _ => cs
  match markedDigits? bound body with
  | some n => some n
  | none => if hasLeadingZero cs then none else unsignedDigits? 10 bound body

/-- The size of the negative number that a plain scalar spells, if it is below a bound. -/
def negated? (bound : Nat) : List Char → Option Nat
  | '-' :: body =>
    match markedDigits? bound body with
    | some n => some n
    | none => if hasLeadingZero body then none else unsignedDigits? 10 bound body
  | _ => none

/-- The integer that a plain scalar spells, given the bounds on both sides. -/
def integer? (above below : Nat) (cs : List Char) : Option Int :=
  match unsigned? above cs with
  | some n => some n
  | none => (negated? (below + 1) cs).map fun n => -(n : Int)

/-- Whether a plain scalar spells an infinity or a NaN. -/
def spellsNonFinite (cs : List Char) : Bool :=
  [".inf", ".Inf", ".INF", "+.inf", "+.Inf", "+.INF", "-.inf", "-.Inf", "-.INF", ".nan", ".NaN",
    ".NAN"].any fun text => text.toList == cs

/-- The double that a plain scalar spells. -/
def double? (cs : List Char) : Option Double :=
  match cs with
  | '+' :: rest => if startsWithSign rest then none else (Decimal.ofChars? rest).bind Decimal.toDouble?
  | cs => (Decimal.ofChars? cs).bind Decimal.toDouble?

/-- The value of a plain scalar where its type is open. -/
def plainValue? (cs : List Char) : Option Json :=
  if cs.isEmpty || spellsNull cs then some .null
  else match truth? cs with
    | some value => some (.bool value)
    | none =>
      match integer? 0x10000000000000000 0x8000000000000000 cs with
      | some n => (Number.ofInt? n).map .number
      | none =>
        if (integer? 0x100000000000000000000000000000000 0x80000000000000000000000000000000 cs).isSome then none
        else if hasLeadingZero cs then some (.string (String.ofList cs))
        else if spellsNonFinite cs then some .null
        else match double? cs with
          | some d => some (.number (.double d))
          | none => some (.string (String.ofList cs))

/-! ## Values -/

/-- The text of a scalar. -/
def Node.text? : Node → Option String
  | .scalar _ text => some (String.ofList text)
  | _ => none

mutual

/-- The JSON value of a node in which sequences and mappings nest at most so deep.  The keys of a mapping
have to be scalars, and a repeated key keeps its first place and takes its last value. -/
def Node.value? : (levels : Nat) → Node → Option Json
  | _, .scalar true text => plainValue? text
  | _, .scalar false text => some (.string (String.ofList text))
  | levels + 1, .sequence items => (itemValues? levels items).map .array
  | levels + 1, .mapping entries =>
    (entryValues? levels entries).map fun members => .object (Fields.ofPairs members)
  | 0, _ => none

/-- The JSON values of the items of a sequence. -/
def itemValues? : (levels : Nat) → List Node → Option (List Json)
  | _, [] => some []
  | levels, item :: rest =>
    match item.value? levels, itemValues? levels rest with
    | some value, some values => some (value :: values)
    | _, _ => none

/-- The JSON members of the entries of a mapping. -/
def entryValues? : (levels : Nat) → List (Node × Node) → Option (List (String × Json))
  | _, [] => some []
  | levels, (key, item) :: rest =>
    match key.text?, item.value? levels, entryValues? levels rest with
    | some name, some value, some members => some ((name, value) :: members)
    | _, _, _ => none

end

end TableQuery.Yaml
