import TableQuery.Json.Basic
import TableQuery.Json.Literal

/-!
# Reading JSON

`Json.parse?` reads a text that is one JSON value between white space.  `Json.parseRaw?` does the same
and leaves repeated members in place, for readers that refuse them.

A number without point and exponent that fits 64 bits is an integer.  Every other one is a double,
`-0` among them, and a number that no finite double is near to is an error.  Arrays and objects may
stand in one another at most `maxDepth` deep.

The reader is a recursion on fuel: each step that reads a value, an item or a member spends one unit.
At most two steps start at any one character, so twice the length of the text is enough.
-/

namespace TableQuery

namespace Number

/-- The number with the given sign and parts, where `none` stands for a part that is not there. -/
def ofParts? (negative : Bool) (whole : List Char) (fraction : Option (List Char))
    (exponent : Option Int) : Option Number :=
  let asDouble := (Decimal.ofParts negative whole (fraction.getD []) (exponent.getD 0)).toDouble?
  match fraction, exponent with
  | none, none =>
    let size : Int := Decimal.digitsValue whole
    if negative && size == 0 then some (.double .negativeZero)
    else match ofInt? (if negative then -size else size) with
      | some n => some n
      | none => asDouble.map .double
  | _, _ => asDouble.map .double

/-- The digits before the point: a single zero, or digits that do not start with one. -/
def wholePart? : List Char → Option (List Char × List Char)
  | '0' :: rest => some (['0'], rest)
  | cs =>
    let (digits, rest) := Decimal.splitDigits cs
    if digits.isEmpty then none else some (digits, rest)

/-- A point with at least one digit after it, if there is a point. -/
def fractionPart? : List Char → Option (Option (List Char) × List Char)
  | '.' :: cs =>
    let (digits, rest) := Decimal.splitDigits cs
    if digits.isEmpty then none else some (some digits, rest)
  | cs => some (none, cs)

/-- An exponent with at least one digit, if there is the mark of one. -/
def exponentPart? : List Char → Option (Option Int × List Char)
  | [] => some (none, [])
  | mark :: cs =>
    if mark == 'e' || mark == 'E' then
      (Decimal.exponentTail? cs).map fun (exponent, rest) => (some exponent, rest)
    else some (none, mark :: cs)

/-- Reads a number at the front of a text. -/
def read (cs : List Char) : Option (Number × List Char) := do
  let (negative, cs) := match cs with
    | '-' :: cs => (true, cs)
    | cs => (false, cs)
  let (whole, cs) ← wholePart? cs
  let (fraction, cs) ← fractionPart? cs
  let (exponent, cs) ← exponentPart? cs
  let n ← ofParts? negative whole fraction exponent
  some (n, cs)

end Number

namespace Json

/-- The white space of JSON. -/
def isSpace (c : Char) : Bool := c == ' ' || c == '\n' || c == '\t' || c == '\r'

/-- The text after leading white space. -/
def skipSpace (cs : List Char) : List Char := cs.dropWhile isSpace

/-- The text after the given one, if it stands in front. -/
def expect? : List Char → List Char → Option (List Char)
  | [], cs => some cs
  | _ :: _, [] => none
  | e :: es, c :: cs => if e = c then expect? es cs else none

/-- Arrays and objects nest at most this deep. -/
def maxDepth : Nat := 127

mutual

/-- Reads a value after white space, with `depth` levels of nesting left. -/
def readValue : (fuel depth : Nat) → List Char → Option (Json × List Char)
  | 0, _, _ => none
  | fuel + 1, depth, cs =>
    match skipSpace cs with
    | [] => none
    | '"' :: rest => (Literal.decode rest).map fun (text, rest) => (.string (String.ofList text), rest)
    | '[' :: rest =>
      match depth with
      | 0 => none
      | depth + 1 =>
        match skipSpace rest with
        | ']' :: rest => some (.array [], rest)
        | rest => (readItems fuel depth rest).map fun (items, rest) => (.array items, rest)
    | '\x7b' :: rest =>
      match depth with
      | 0 => none
      | depth + 1 =>
        match skipSpace rest with
        | '\x7d' :: rest => some (.object [], rest)
        | rest => (readMembers fuel depth rest).map fun (members, rest) => (.object members, rest)
    | 'n' :: rest => (expect? ['u', 'l', 'l'] rest).map fun rest => (.null, rest)
    | 't' :: rest => (expect? ['r', 'u', 'e'] rest).map fun rest => (.bool true, rest)
    | 'f' :: rest => (expect? ['a', 'l', 's', 'e'] rest).map fun rest => (.bool false, rest)
    | rest => (Number.read rest).map fun (n, rest) => (.number n, rest)

/-- Reads one item or more and the closing bracket. -/
def readItems : (fuel depth : Nat) → List Char → Option (List Json × List Char)
  | 0, _, _ => none
  | fuel + 1, depth, cs =>
    match readValue fuel depth cs with
    | none => none
    | some (value, rest) =>
      match skipSpace rest with
      | ']' :: rest => some ([value], rest)
      | ',' :: rest =>
        (readItems fuel depth rest).map fun (items, rest) => (value :: items, rest)
      | _ => none

/-- Reads one member or more and the closing brace. -/
def readMembers : (fuel depth : Nat) → List Char → Option (List (String × Json) × List Char)
  | 0, _, _ => none
  | fuel + 1, depth, cs =>
    match skipSpace cs with
    | '"' :: rest =>
      match Literal.decode rest with
      | none => none
      | some (name, rest) =>
        match skipSpace rest with
        | ':' :: rest =>
          match readValue fuel depth rest with
          | none => none
          | some (value, rest) =>
            match skipSpace rest with
            | '\x7d' :: rest => some ([(String.ofList name, value)], rest)
            | ',' :: rest =>
              (readMembers fuel depth rest).map fun (members, rest) =>
                ((String.ofList name, value) :: members, rest)
            | _ => none
        | _ => none
    | _ => none

end

/-- Reads a text that is one value and nests at most so deep, leaving repeated members in place. -/
def parseRaw? (depth : Nat) (cs : List Char) : Option Json :=
  match readValue (2 * cs.length + 1) depth cs with
  | some (value, rest) => if (skipSpace rest).isEmpty then some value else none
  | none => none

/-- Reads a text that is one value. -/
def parse? (cs : List Char) : Option Json := (parseRaw? maxDepth cs).map settled

end Json

end TableQuery
