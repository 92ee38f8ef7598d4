/-!
# String literals

A JSON string literal is a text between quotes.  `encode` escapes the quote, the backslash and the
characters below U+0020, the last with their short escape where there is one and as `u00xx`
otherwise.  All other characters stand for themselves.

`decode` reads the text after an opening quote up to the closing one.  It accepts every escape of
JSON: a character beyond U+FFFF may be spelled as two surrogate escapes, a surrogate on its own is
refused, and so is a raw character below U+0020.
-/

namespace TableQuery.Json.Literal

/-! ## Writing -/

/-- The lower-case hexadecimal digit of a number below 16. -/
def hexDigit (n : Nat) : Char := Nat.digitChar n

/-- A character as it stands in a literal. -/
def encodeChar (c : Char) : List Char :=
  if c = '"' then ['\\', '"']
  else if c = '\\' then ['\\', '\\']
  else if c.toNat = 8 then ['\\', 'b']
  else if c.toNat = 9 then ['\\', 't']
  else if c.toNat = 10 then ['\\', 'n']
  else if c.toNat = 12 then ['\\', 'f']
  else if c.toNat = 13 then ['\\', 'r']
  else if c.toNat < 0x20 then
    ['\\', 'u', '0', '0', hexDigit (c.toNat / 16), hexDigit (c.toNat % 16)]
  else [c]

/-- The inside of a literal. -/
def encode (cs : List Char) : List Char := cs.flatMap encodeChar

/-- The literal of a text, with its quotes. -/
def quoted (cs : List Char) : List Char := '"' :: (encode cs ++ ['"'])

/-! ## Reading -/

/-- The value of a hexadecimal digit in either case. -/
def hexValue? (c : Char) : Option Nat :=
  if c.isDigit then some (c.toNat - '0'.toNat)
  else if 'a' ≤ c ∧ c ≤ 'f' then some (c.toNat - 'a'.toNat + 10)
  else if 'A' ≤ c ∧ c ≤ 'F' then some (c.toNat - 'A'.toNat + 10)
  else none

/-- The number that four hexadecimal digits denote. -/
def hexUnit? (a b c d : Char) : Option Nat := do
  let a ← hexValue? a
  let b ← hexValue? b
  let c ← hexValue? c
  let d ← hexValue? d
  some (((a * 16 + b) * 16 + c) * 16 + d)

/-- The character that a one-letter escape stands for. -/
def shortEscape? (c : Char) : Option Char :=
  if c = '"' ∨ c = '\\' ∨ c = '/' then some c
  else if c = 'b' then some (Char.ofNat 8)
  else if c = 'f' then some (Char.ofNat 12)
  else if c = 'n' then some '\n'
  else if c = 'r' then some '\r'
  else if c = 't' then some '\t'
  else none

/-- Whether a number is the first half of a pair of surrogates. -/
def isHighSurrogate (n : Nat) : Bool := 0xD800 ≤ n && n < 0xDC00

/-- Whether a number is the second half of a pair of surrogates. -/
def isLowSurrogate (n : Nat) : Bool := 0xDC00 ≤ n && n < 0xE000

/-- The character that a pair of surrogates stands for. -/
def joinSurrogates (high low : Nat) : Char :=
  Char.ofNat (0x10000 + (high - 0xD800) * 0x400 + (low - 0xDC00))

/-- Puts a character before what was read after it. -/
def prepend (c : Char) : Option (List Char × List Char) → Option (List Char × List Char)
  | some (cs, rest) => some (c :: cs, rest)
  | none => none

/-- Reads the inside of a literal and its closing quote; gives the text and what follows it. -/
def decode : List Char → Option (List Char × List Char)
  | [] => none
  | '"' :: rest => some ([], rest)
  | '\\' :: 'u' :: a :: b :: c :: d :: rest =>
    match hexUnit? a b c d with
    | none => none
    | some unit =>
      if isLowSurrogate unit then none
      else if isHighSurrogate unit then
        match rest with
        | '\\' :: 'u' :: e :: f :: g :: h :: rest =>
          match hexUnit? e f g h with
          | none => none
          | some low =>
            if isLowSurrogate low then prepend (joinSurrogates unit low) (decode rest) else none
        | _ => none
      else prepend (Char.ofNat unit) (decode rest)
  | '\\' :: c :: rest =>
    match shortEscape? c with
    | none => none
    | some c => prepend c (decode rest)
  | '\\' :: [] => none
  | c :: rest => if c.toNat < 0x20 then none else prepend c (decode rest)

example : quoted "a\"b\\\n".toList = "\"a\\\"b\\\\\\n\"".toList := by decide
example : decode "x\\u00e9\\ud83d\\ude00\" rest".toList = some ("xé😀".toList, " rest".toList) := by
  decide +kernel
example : decode "\\ud83d\"".toList = none ∧ decode "a\nb\"".toList = none := by
  decide +kernel

end TableQuery.Json.Literal
