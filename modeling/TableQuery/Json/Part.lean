import TableQuery.Document
import TableQuery.Json.Reader

/-!
# Parts of JSON text

A JSON document can be taken apart without being read: a part is the text of a value, and its items and
its members are parts again.  Of a member only the name is read.

So a member that nobody asks for only has to follow the grammar.  Its numbers may have any size, its
escapes may spell half of a pair of surrogates, and it may nest to any depth.  A part that is read obeys
the limits of `Json.Reader`, and the depth counts from the whole document on.
-/

namespace TableQuery.Json

/-! ## Skipping values -/

/-- The text after the inside of a literal and its closing quote. -/
def skipLiteral : List Char → Option (List Char)
  | [] => none
  | '"' :: rest => some rest
  | '\\' :: 'u' :: a :: b :: c :: d :: rest =>
    if (Literal.hexUnit? a b c d).isSome then skipLiteral rest else none
  | '\\' :: c :: rest => if (Literal.shortEscape? c).isSome then skipLiteral rest else none
  | c :: rest => if c = '\\' ∨ c.toNat < 0x20 then none else skipLiteral rest

/-- The text after a number. -/
def skipNumber (cs : List Char) : Option (List Char) := do
  let cs := match cs with
    | '-' :: cs => cs
    | cs => cs
  let (_, cs) ← Number.wholePart? cs
  let (_, cs) ← Number.fractionPart? cs
  let (_, cs) ← Number.exponentPart? cs
  some cs

/-- A literal in front: the text after its opening quote. -/
def opensLiteral? (cs : List Char) : Option (List Char) :=
  match skipSpace cs with
  | '"' :: rest => some rest
  | _ => none

/-- The text after a colon in front. -/
def afterColon? (cs : List Char) : Option (List Char) :=
  match skipSpace cs with
  | ':' :: rest => some rest
  | _ => none

mutual

/-- The text after a value. -/
def skipValue : (fuel : Nat) → List Char → Option (List Char)
  | 0, _ => none
  | fuel + 1, cs =>
    match skipSpace cs with
    | '"' :: rest => skipLiteral rest
    | '[' :: rest =>
      match skipSpace rest with
      | ']' :: rest => some rest
      | rest => skipItems fuel rest
    | '\x7b' :: rest =>
      match skipSpace rest with
      | '\x7d' :: rest => some rest
      | rest => skipMembers fuel rest
    | 'n' :: rest => expect? ['u', 'l', 'l'] rest
    | 't' :: rest => expect? ['r', 'u', 'e'] rest
    | 'f' :: rest => expect? ['a', 'l', 's', 'e'] rest
    | rest => skipNumber rest

/-- The text after one item or more and the closing bracket. -/
def skipItems : (fuel : Nat) → List Char → Option (List Char)
  | 0, _ => none
  | fuel + 1, cs =>
    match (skipValue fuel cs).map skipSpace with
    | some (']' :: rest) => some rest
    | some (',' :: rest) => skipItems fuel rest
    | _ => none

/-- The text after one member or more and the closing brace. -/
def skipMembers : (fuel : Nat) → List Char → Option (List Char)
  | 0, _ => none
  | fuel + 1, cs =>
    match (((opensLiteral? cs).bind skipLiteral).bind afterColon?).bind (skipValue fuel) with
    | none => none
    | some rest =>
      match skipSpace rest with
      | '\x7d' :: rest => some rest
      | ',' :: rest => skipMembers fuel rest
      | _ => none

end

/-- The text of the value in front, and the text after it. -/
def cut? (cs : List Char) : Option (List Char × List Char) :=
  (skipValue (2 * cs.length + 1) cs).map fun rest => (cs.take (cs.length - rest.length), rest)

/-- The texts of one item or more, and the text after the closing bracket. -/
def itemTexts? : (fuel : Nat) → List Char → Option (List (List Char) × List Char)
  | 0, _ => none
  | fuel + 1, cs =>
    match cut? cs with
    | none => none
    | some (item, rest) =>
      match skipSpace rest with
      | ']' :: rest => some ([item], rest)
      | ',' :: rest => (itemTexts? fuel rest).map fun (items, rest) => (item :: items, rest)
      | _ => none

/-- The name of a member and the text after its colon. -/
def memberName? (cs : List Char) : Option (String × List Char) := do
  let (name, rest) ← (opensLiteral? cs).bind Literal.decode
  let rest ← afterColon? rest
  some (String.ofList name, rest)

/-- The names and texts of one member or more, and the text after the closing brace. -/
def memberTexts? : (fuel : Nat) → List Char → Option (List (String × List Char) × List Char)
  | 0, _ => none
  | fuel + 1, cs =>
    match memberName? cs with
    | none => none
    | some (name, rest) =>
      match cut? rest with
      | none => none
      | some (text, rest) =>
        match skipSpace rest with
        | '\x7d' :: rest => some ([(name, text)], rest)
        | ',' :: rest =>
          (memberTexts? fuel rest).map fun (members, rest) => ((name, text) :: members, rest)
        | _ => none

/-! ## Parts -/

/-- A part of a document. -/
structure Part where
  text : List Char
  /-- How deep values may nest in it. -/
  levels : Nat := maxDepth

namespace Part

/-- The value of a part, with repeated members in place. -/
def raw? (part : Part) : Option Json := parseRaw? part.levels part.text

/-- The text of a part that is nothing but the given one. -/
def whole? {α : Type} : α × List Char → Option α
  | (found, rest) => if (skipSpace rest).isEmpty then some found else none

/-- The items of a part that is an array. -/
def items? (part : Part) : Option (List Part) :=
  match part.levels, skipSpace part.text with
  | levels + 1, '[' :: rest =>
    let texts := match skipSpace rest with
      | ']' :: rest => some ([], rest)
      | rest => itemTexts? (rest.length + 1) rest
    (texts.bind whole?).map fun items => items.map fun text => ⟨text, levels⟩
  | _, _ => none

/-- The members of a part that is an object, repeated ones included. -/
def members? (part : Part) : Option (List (String × Part)) :=
  match part.levels, skipSpace part.text with
  | levels + 1, '\x7b' :: rest =>
    let texts := match skipSpace rest with
      | '\x7d' :: rest => some ([], rest)
      | rest => memberTexts? (rest.length + 1) rest
    (texts.bind whole?).map fun members => members.map fun (name, text) => (name, ⟨text, levels⟩)
  | _, _ => none

end Part

/-- JSON documents.  A text is a string, and the name of an enumeration is one too or the only name in
an object. -/
def format : Format Part where
  isNull part := part.raw? == some .null
  text? part := match part.raw? with
    | some (.string text) => some text
    | _ => none
  choice? part := match part.raw? with
    | some (.string text) => some text
    | some (.object [(text, .null)]) => some text
    | _ => none
  members? := Part.members?
  items? := Part.items?
  unsigned? bound part := match part.raw? with
    | some (.number (.integer n _)) => if 0 ≤ n ∧ n < bound then some n.toNat else none
    | _ => none
  value? part := part.raw?.map settled
  isList part := (skipSpace part.text).head? == some '['

/-- The reader of JSON documents. -/
def reader : DocumentReader where
  Node := Part
  format := format
  document? text := some { text := text.toList }
  complaint _ := "no JSON of the right form"

end TableQuery.Json
