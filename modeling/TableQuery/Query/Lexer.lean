import TableQuery.Json.Literal
import TableQuery.Json.Reader
import TableQuery.Query.Token
import TableQuery.Text.Blank
import TableQuery.Text.Letter

/-!
# Splitting a query into tokens

White space between tokens means nothing.  At any other character exactly one kind of token can start.

* The characters `( ) [ ] , . =` are tokens.
* The comparison operators are `< <= <> != > >=`, the longest one that fits.
* A string literal runs from a quote to the next quote that no backslash escapes, and has to be a JSON
  literal.
* A number starts with a digit, or with a minus sign that a digit follows.  A point belongs to it if a
  digit follows, an exponent if it has a digit.  Without either it is an integer if it fits 64 bits with
  a sign.  Otherwise it is the nearest double, and if there is no finite one, its text.
* A word starts with a letter or `_` and goes on with letters, digits of any script, `_` and `-`.

Anything else is an error at that character.
-/

namespace TableQuery

/-- Why a source cannot be split into tokens. -/
inductive LexCause where
  | unexpected (c : Char)
  /-- A string literal does not end, or is no JSON literal. -/
  | unterminated
  deriving DecidableEq

/-- Why and where a source cannot be split into tokens. -/
structure LexFault where
  cause : LexCause
  /-- How many bytes of the source precede the place. -/
  offset : Nat
  deriving DecidableEq

/-- What is told to the user. -/
def LexFault.message (fault : LexFault) : String :=
  (match fault.cause with
    | .unexpected c => "unexpected character '" ++ String.singleton c ++ "'"
    | .unterminated => "unterminated string literal") ++
  " at offset " ++ toString fault.offset

/-- A lexeme read at the front of a text. -/
structure Reading where
  lexeme : Lexeme
  spelling : List Char
  rest : List Char

namespace Lexer

/-! ## String literals -/

/-- Splits after the first quote that no backslash escapes. -/
def closingQuote? : (escaped : Bool) → List Char → Option (List Char × List Char)
  | _, [] => none
  | true, c :: rest => (closingQuote? false rest).map fun (front, rest) => (c :: front, rest)
  | false, c :: rest =>
    if c = '"' then some ([c], rest)
    else (closingQuote? (c == '\\') rest).map fun (front, rest) => (c :: front, rest)

/-- Reads a string literal after its opening quote. -/
def stringLiteral? (cs : List Char) : Option Reading :=
  match closingQuote? false cs with
  | none => none
  | some (inside, rest) =>
    match Json.Literal.decode inside with
    | some (value, []) => some ⟨.text (String.ofList value), '"' :: inside, rest⟩
    | _ => none

/-! ## Numbers -/

/-- A point and the digits after it; nothing if no digit follows a point. -/
def fractionSpan : List Char → List Char × List Char
  | '.' :: cs =>
    let (digits, rest) := Decimal.splitDigits cs
    if digits.isEmpty then ([], '.' :: cs) else ('.' :: digits, rest)
  | cs => ([], cs)

/-- The sign of an exponent, if there is one. -/
def exponentSign : List Char → List Char × List Char
  | '+' :: cs => (['+'], cs)
  | '-' :: cs => (['-'], cs)
  | cs => ([], cs)

/-- The mark, the sign and the digits of an exponent; nothing if there is no digit. -/
def exponentSpan : List Char → List Char × List Char
  | [] => ([], [])
  | mark :: cs =>
    if mark = 'e' ∨ mark = 'E' then
      let (sign, afterSign) := exponentSign cs
      let (digits, rest) := Decimal.splitDigits afterSign
      if digits.isEmpty then ([], mark :: cs) else (mark :: (sign ++ digits), rest)
    else ([], mark :: cs)

/-- The integer of a sign and digits, if it fits 64 bits with a sign. -/
def signedInteger? (negative : Bool) (digits : List Char) : Option Json :=
  let size : Int := Decimal.digitsValue digits
  let value := if negative then -size else size
  if h : -0x8000000000000000 ≤ value ∧ value < 0x8000000000000000 then
    some (.number (.integer value ⟨h.1, by omega⟩))
  else none

/-- The value of a spelling as a double; the spelling itself if no finite double is near. -/
def doubleOrText (spelling : List Char) : Json :=
  match (Decimal.ofChars? spelling).bind Decimal.toDouble? with
  | some d => .number (.double d)
  | none => .string (String.ofList spelling)

/-- Reads a number, given whether a minus sign stands before the text. -/
def number (negative : Bool) (cs : List Char) : Reading :=
  let (whole, afterWhole) := Decimal.splitDigits cs
  let (fraction, afterFraction) := fractionSpan afterWhole
  let (exponent, rest) := exponentSpan afterFraction
  let spelling := (if negative then ['-'] else []) ++ whole ++ fraction ++ exponent
  let value :=
    if fraction.isEmpty && exponent.isEmpty then
      (signedInteger? negative whole).getD (doubleOrText spelling)
    else doubleOrText spelling
  ⟨.number value, spelling, rest⟩

/-! ## Words -/

/-- Whether a word can start with a character. -/
def startsWord (c : Char) : Bool := Text.isLetter c || c == '_'

/-- Whether a word can go on with a character. -/
def continuesWord (c : Char) : Bool := Text.isAlphanumeric c || c == '_' || c == '-'

/-- Reads a word. -/
def word (cs : List Char) : Reading :=
  let spelling := cs.takeWhile continuesWord
  ⟨.word (String.ofList spelling), spelling, cs.dropWhile continuesWord⟩

/-! ## All lexemes -/

/-- The lexeme that a character is on its own. -/
def single? (c : Char) : Option Lexeme :=
  if c = '(' then some .openParen
  else if c = ')' then some .closeParen
  else if c = '[' then some .openBracket
  else if c = ']' then some .closeBracket
  else if c = ',' then some .comma
  else if c = '.' then some .dot
  else if c = '=' then some (.comparator .equal)
  else none

/-- Reads a comparison operator other than `=`. -/
def comparator? : List Char → Option Reading
  | '<' :: '=' :: rest => some ⟨.comparator .atMost, ['<', '='], rest⟩
  | '>' :: '=' :: rest => some ⟨.comparator .atLeast, ['>', '='], rest⟩
  | '<' :: '>' :: rest => some ⟨.comparator .notEqual, ['<', '>'], rest⟩
  | '!' :: '=' :: rest => some ⟨.comparator .notEqual, ['!', '='], rest⟩
  | '<' :: rest => some ⟨.comparator .less, ['<'], rest⟩
  | '>' :: rest => some ⟨.comparator .greater, ['>'], rest⟩
  | _ => none

/-- Whether a text starts with a digit. -/
def startsWithDigit : List Char → Bool
  | c :: _ => c.isDigit
  | [] => false

/-- Reads the lexeme at the front of a text that does not start with white space. -/
def lexeme (c : Char) (rest : List Char) : Except LexCause Reading :=
  match single? c with
  | some lexeme => .ok ⟨lexeme, [c], rest⟩
  | none =>
    match comparator? (c :: rest) with
    | some reading => .ok reading
    | none =>
      if c = '"' then
        match stringLiteral? rest with
        | some reading => .ok reading
        | none => .error .unterminated
      else if c.isDigit then .ok (number false (c :: rest))
      else if c = '-' && startsWithDigit rest then .ok (number true rest)
      else if startsWord c then .ok (word (c :: rest))
      else .error (.unexpected c)

/-- The tokens of a text that starts at an offset; each character spends one unit of fuel. -/
def tokensFrom : (fuel offset : Nat) → List Char → Except LexFault (List Token)
  | 0, _, _ => .ok []
  | _, _, [] => .ok []
  | fuel + 1, offset, c :: rest =>
    if Text.isBlank c then tokensFrom fuel (offset + c.utf8Size) rest
    else match lexeme c rest with
      | .error cause => .error ⟨cause, offset⟩
      | .ok reading =>
        (tokensFrom fuel (offset + utf8Length reading.spelling) reading.rest).map
          (⟨reading.lexeme, offset⟩ :: ·)

end Lexer

/-- The tokens of a source. -/
def tokenize (source : List Char) : Except LexFault (List Token) :=
  Lexer.tokensFrom source.length 0 source

end TableQuery
