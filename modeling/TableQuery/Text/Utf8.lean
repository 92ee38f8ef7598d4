/-!
# Reading UTF-8

Bytes are read as characters.  Where they are not well formed, the longest start of a character is read
as one replacement character, and so is a byte that starts none.  So every sequence of bytes can be shown.
Only well-formed bytes are a text (`text?`).

A character of several bytes starts with a lead byte, which says how many follow and, for four of the
lead bytes, narrows the range of the second one, so that nothing is written longer than needed, no
surrogate is written, and nothing beyond the last code point is.
-/

namespace TableQuery.Utf8

/-- The character for bytes that cannot be read. -/
def replacement : Char := '\ufffd'

/-- A character of which some bytes were read. -/
structure Pending where
  /-- How many bytes follow. -/
  missing : Nat
  /-- The least next byte. -/
  least : Nat
  /-- The greatest next byte. -/
  greatest : Nat
  bits : Nat

/-- What a lead byte starts. -/
def pending? (byte : Nat) : Option Pending :=
  if 0xC2 ≤ byte ∧ byte ≤ 0xDF then some ⟨1, 0x80, 0xBF, byte - 0xC0⟩
  else if byte = 0xE0 then some ⟨2, 0xA0, 0xBF, 0⟩
  else if byte = 0xED then some ⟨2, 0x80, 0x9F, 0xD⟩
  else if 0xE1 ≤ byte ∧ byte ≤ 0xEF then some ⟨2, 0x80, 0xBF, byte - 0xE0⟩
  else if byte = 0xF0 then some ⟨3, 0x90, 0xBF, 0⟩
  else if 0xF1 ≤ byte ∧ byte ≤ 0xF3 then some ⟨3, 0x80, 0xBF, byte - 0xF0⟩
  else if byte = 0xF4 then some ⟨3, 0x80, 0x8F, 4⟩
  else none

/-- Reads a byte where a character starts: the characters it completes, and the one it starts. -/
def start (byte : Nat) : List Char × Option Pending :=
  if byte < 0x80 then ([Char.ofNat byte], none)
  else match pending? byte with
    | none => ([replacement], none)
    | pending => ([], pending)

/-- Reads a byte: the characters it completes, and the one it leaves pending. -/
def step (pending : Option Pending) (byte : Nat) : List Char × Option Pending :=
  match pending with
  | none => start byte
  | some ⟨missing, least, greatest, bits⟩ =>
    if least ≤ byte ∧ byte ≤ greatest then
      let bits := bits * 64 + (byte - 0x80)
      if missing = 1 then ([Char.ofNat bits], none) else ([], some ⟨missing - 1, 0x80, 0xBF, bits⟩)
    else
      let (chars, pending) := start byte
      (replacement :: chars, pending)

/-- Reads bytes after a start of a character. -/
def decodeFrom : Option Pending → List UInt8 → List Char
  | none, [] => []
  | some _, [] => [replacement]
  | pending, byte :: rest =>
    let (chars, pending) := step pending byte.toNat
    chars ++ decodeFrom pending rest

/-- The text that bytes are shown as. -/
def decode (bytes : List UInt8) : List Char := decodeFrom none bytes

/-- The text that bytes are, if they are well formed. -/
def text? (bytes : List UInt8) : Option String := String.fromUTF8? ⟨bytes.toArray⟩

/-- The bytes of a text. -/
def encode (text : List Char) : List UInt8 := text.flatMap String.utf8EncodeChar

example : decode (encode "aé€😀".toList) = "aé€😀".toList := by decide +kernel
example : decode [0xE2, 0x82, 0x41, 0xFF] = [replacement, 'A', replacement] := by decide +kernel
example : decode [0xED, 0xA0, 0x80] = [replacement, replacement, replacement] := by decide +kernel
example : decode [0xF0, 0x9F, 0x98] = [replacement] := by decide +kernel

end TableQuery.Utf8
