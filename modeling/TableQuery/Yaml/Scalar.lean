import TableQuery.Json.Literal
import TableQuery.Yaml.Place

/-!
# Spelling of YAML scalars

A plain scalar is text without quotes.  It ends before a colon that white space follows, before a `#`
that white space precedes, and in a flow collection before a comma or a bracket.  It may go on over
further lines if these are indented deeper than the collection around it.  The indentation is written in
spaces: a tab in it is refused.

A quoted scalar ends at its closing quote.  Between single quotes a quote is doubled; between double
quotes a backslash starts an escape.  The mark of a document may not start a line of it.

Lines of a scalar are folded.  The white space around a line break goes away, one line feed becomes a
space, and of several breaks the first one goes away if it is a line feed.  A separator of lines or
paragraphs is kept, and so are all breaks after one that a backslash hides.
-/

namespace TableQuery.Yaml

/-! ## Between characters -/

/-- What stands between the last character of a scalar and the next one. -/
inductive Pending where
  /-- White space within a line, in reverse. -/
  | gap (blanks : List Char)
  /-- Line breaks: the first one, unless it is hidden, and the further ones in reverse. -/
  | broken (first : Option Char) (more : List Char)

namespace Pending

/-- Nothing. -/
def empty : Pending := gap []

/-- Whether there is nothing. -/
def isEmpty : Pending → Bool
  | gap [] => true
  | _ => false

/-- Whether there is a line break. -/
def isBroken : Pending → Bool
  | gap _ => false
  | broken _ _ => true

/-- The text that remains of it in front of the next character. -/
def text : Pending → List Char
  | gap blanks => blanks.reverse
  | broken (some '\n') [] => [' ']
  | broken (some '\n') more => more.reverse
  | broken (some c) more => c :: more.reverse
  | broken none more => more.reverse

/-- One more blank; after a line break it does not count. -/
def addGap (c : Char) : Pending → Pending
  | gap blanks => gap (c :: blanks)
  | broken first more => broken first more

/-- One more line break. -/
def addBreak (c : Char) : Pending → Pending
  | gap _ => broken (some c) []
  | broken first more => broken first (c :: more)

example : (empty.addBreak '\n').text = [' '] := rfl
example : ((empty.addBreak '\n').addBreak '\n').text = ['\n'] := rfl
example : ((empty.addBreak '\u2028').addBreak '\n').text = ['\u2028', '\n'] := rfl
example : ((broken none []).addBreak '\n').text = ['\n'] := rfl

end Pending

/-- A scalar that was read. -/
structure Spelled where
  text : List Char
  /-- What comes after it. -/
  cursor : Cursor
  /-- Whether line breaks after it were passed over. -/
  fresh : Bool := false

/-- Puts text before what was read after it. -/
def Spelled.after (front : List Char) (spelled : Spelled) : Spelled :=
  { spelled with text := front ++ spelled.text }

/-! ## Plain scalars -/

/-- Whether a plain scalar can start at the front of a text. -/
def startsPlain (inFlow : Bool) : List Char → Bool
  | [] => false
  | c :: rest =>
    if c == '-' then !atGap rest
    else if c == '?' || c == ':' then !inFlow && !atGap rest
    else !(isGap c || isBreak c || isFlowMark c || c == '#' || c == '&' || c == '*' || c == '!' ||
      c == '|' || c == '>' || c == '\'' || c == '"' || c == '%' || c == '@' || c == '\x60')

/-- Whether a plain scalar ends before a character that is no white space. -/
def endsPlain (inFlow : Bool) (indent : Nat) (pending : Pending) (place : Place) (c : Char)
    (rest : List Char) : Bool :=
  (pending.isBroken && ((!inFlow && place.column < indent) || startsMark place (c :: rest))) ||
    (c == '#' && !pending.isEmpty) || (c == ':' && atGap rest) || (inFlow && isFlowMark c)

/-- Reads a plain scalar whose further lines are indented by `indent` columns at least.  In a flow
collection only tabs are held to that, and a colon directly before one of its marks is refused. -/
def plain? (inFlow : Bool) (indent : Nat) : Pending → Place → List Char → Option Spelled
  | pending, place, [] => some ⟨[], ⟨[], place⟩, pending.isBroken⟩
  | pending, place, c :: rest =>
    if isBreak c then plain? inFlow indent (pending.addBreak c) (place.after c) rest
    else if isGap c then
      if c == '\t' && pending.isBroken && place.column < indent then none
      else plain? inFlow indent (pending.addGap c) (place.after c) rest
    else if endsPlain inFlow indent pending place c rest then
      some ⟨[], ⟨c :: rest, place⟩, pending.isBroken⟩
    else if inFlow && c == ':' && (rest.head?.any fun d => isFlowMark d || d == '?') then none
    else (plain? inFlow indent .empty (place.after c) rest).map (Spelled.after (pending.text ++ [c]))

/-! ## Quoted scalars -/

/-- Reads a single-quoted scalar after its opening quote. -/
def singleQuoted? : Pending → Place → List Char → Option Spelled
  | _, _, [] => none
  | pending, place, '\'' :: '\'' :: rest =>
    (singleQuoted? .empty ((place.after '\'').after '\'') rest).map
      (Spelled.after (pending.text ++ ['\'']))
  | pending, place, '\'' :: rest => some ⟨pending.text, ⟨rest, place.after '\''⟩, false⟩
  | pending, place, c :: rest =>
    if isBreak c then singleQuoted? (pending.addBreak c) (place.after c) rest
    else if isGap c then singleQuoted? (pending.addGap c) (place.after c) rest
    else if startsMark place (c :: rest) then none
    else (singleQuoted? .empty (place.after c) rest).map (Spelled.after (pending.text ++ [c]))

/-- The character of an escape that one letter names. -/
def escape? (c : Char) : Option Char :=
  match c with
  | '0' => some (Char.ofNat 0)
  | 'a' => some (Char.ofNat 7)
  | 'b' => some (Char.ofNat 8)
  | 't' | '\t' => some '\t'
  | 'n' => some '\n'
  | 'v' => some (Char.ofNat 11)
  | 'f' => some (Char.ofNat 12)
  | 'r' => some '\r'
  | 'e' => some (Char.ofNat 27)
  | ' ' => some ' '
  | '"' => some '"'
  | '/' => some '/'
  | '\\' => some '\\'
  | 'N' => some (Char.ofNat 0x85)
  | '_' => some (Char.ofNat 0xA0)
  | 'L' => some (Char.ofNat 0x2028)
  | 'P' => some (Char.ofNat 0x2029)
  | _ => none

/-- How many hexadecimal digits an escape takes. -/
def escapeWidth? : Char → Option Nat
  | 'x' => some 2
  | 'u' => some 4
  | 'U' => some 8
  | _ => none

/-- The character of a code point, if it is one. -/
def charOf? (n : Nat) : Option Char := if n.isValidChar then some (Char.ofNat n) else none

/-- Reads a double-quoted scalar after its opening quote.  While `digits` is positive, hexadecimal digits
of an escape are read, and `code` is their value so far. -/
def doubleQuoted? : Pending → (digits code : Nat) → Place → List Char → Option Spelled
  | _, _, _, _, [] => none
  | pending, digits + 1, code, place, c :: rest =>
    match Json.Literal.hexValue? c with
    | none => none
    | some d =>
      let code := code * 16 + d
      if digits = 0 then
        match charOf? code with
        | none => none
        | some escaped =>
          (doubleQuoted? .empty 0 0 (place.after c) rest).map
            (Spelled.after (pending.text ++ [escaped]))
      else doubleQuoted? pending digits code (place.after c) rest
  | pending, 0, _, place, '\\' :: c :: rest =>
    let place := (place.after '\\').after c
    if isBreak c then
      (doubleQuoted? (.broken none []) 0 0 place rest).map (Spelled.after pending.text)
    else match escapeWidth? c, escape? c with
      | some width, _ => doubleQuoted? pending width 0 place rest
      | none, some escaped =>
        (doubleQuoted? .empty 0 0 place rest).map (Spelled.after (pending.text ++ [escaped]))
      | none, none => none
  | pending, 0, _, place, c :: rest =>
    if c = '"' then some ⟨pending.text, ⟨rest, place.after c⟩, false⟩
    else if c = '\\' then none
    else if isBreak c then doubleQuoted? (pending.addBreak c) 0 0 (place.after c) rest
    else if isGap c then doubleQuoted? (pending.addGap c) 0 0 (place.after c) rest
    else if startsMark place (c :: rest) then none
    else (doubleQuoted? .empty 0 0 (place.after c) rest).map (Spelled.after (pending.text ++ [c]))

end TableQuery.Yaml
