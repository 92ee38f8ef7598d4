import TableQuery.Predicate

/-!
# Tokens

A query is a sequence of tokens.  A token keeps its offset in the source, counted in UTF-8 bytes, so
that what is left of the source at a token can be shown (`Source.textAt`).
-/

namespace TableQuery

/-- What a token is. -/
inductive Lexeme where
  | word (text : String)
  /-- A string literal, by the text it denotes. -/
  | text (value : String)
  /-- A number, by the value it denotes. -/
  | number (value : Json)
  | openParen
  | closeParen
  | openBracket
  | closeBracket
  | comma
  | dot
  | comparator (value : Comparator)
  deriving DecidableEq

/-- A token of a source. -/
structure Token where
  lexeme : Lexeme
  /-- How many bytes of the source precede it. -/
  offset : Nat
  deriving DecidableEq

/-- The length of a text in UTF-8 bytes. -/
def utf8Length : List Char → Nat
  | [] => 0
  | c :: cs => c.utf8Size + utf8Length cs

namespace Source

/-- The text after the given number of bytes. -/
def dropBytes : Nat → List Char → List Char
  | 0, cs => cs
  | _, [] => []
  | n + 1, c :: cs => dropBytes (n + 1 - c.utf8Size) cs

/-- The text of a source from the first of the remaining tokens on; empty if none remains. -/
def textAt (source : List Char) : List Token → List Char
  | [] => []
  | token :: _ => dropBytes token.offset source

end Source

end TableQuery
