import TableQuery.Json.Printer
import TableQuery.Proofs.Query.Stopping

/-!
# Where string literals end

A query marks a text by quotes, as JSON does.  The reader first looks for the quote that closes the literal, the first
one that no backslash escapes, and then has what stands before it read as JSON.  The search knows neither escapes
by number nor pairs of surrogates, and it passes over raw control characters.

All the same it stops where JSON does.  A source opens with a literal (`OpensWithLiteral`) if some of its
first bytes are one, and that is if and only if a spelling of a text between two quotes is a front of it
(`opensWithLiteral_iff`).  No quote within a spelling closes the literal (`Lexer.closingQuote?_spells`), so the
search finds the quote behind the spelling, and whatever JSON reads up to there is such a spelling.
-/

namespace TableQuery

open Json.Literal (Spells)

/-! ## Literals as bytes -/

/-- The bytes are a whole JSON string literal, and it denotes the text. -/
def IsLiteral (bytes : ByteArray) (value : String) : Prop :=
  ∃ written, Spells written value.toList ∧
    bytes = (String.ofList ('"' :: (written ++ ['"']))).toUTF8

/-- The first `length` bytes of a text are a whole JSON string literal that denotes `value`. -/
def OpensWithLiteral (text : List Char) (value : String) (length : Nat) : Prop :=
  length ≤ (String.ofList text).toUTF8.size ∧
    IsLiteral ((String.ofList text).toUTF8.extract 0 length) value

theorem size_utf8Encode (cs : List Char) : cs.utf8Encode.size = utf8Length cs := by
  induction cs with
  | nil => rfl
  | cons c cs ih =>
    rw [List.utf8Encode_cons, ByteArray.size_append, ih, List.utf8Encode_singleton,
      List.size_toByteArray, String.length_utf8EncodeChar, utf8Length]

/-- A text opens with a literal if and only if a spelling between quotes stands at its front. -/
theorem opensWithLiteral_iff {text : List Char} {value : String} {length : Nat} :
    OpensWithLiteral text value length ↔
      ∃ written rest, Spells written value.toList ∧ text = '"' :: (written ++ '"' :: rest) ∧
        length = utf8Length ('"' :: (written ++ ['"'])) := by
  simp only [OpensWithLiteral, IsLiteral, String.toUTF8_eq_toByteArray, String.toByteArray_ofList]
  constructor
  · rintro ⟨hle, written, hspells, hbytes⟩
    have hsize : length = utf8Length ('"' :: (written ++ ['"'])) := by
      rw [← size_utf8Encode, ← hbytes, ByteArray.size_extract, Nat.min_eq_left hle, Nat.sub_zero]
    have hwhole : ('"' :: (written ++ ['"'])).utf8Encode ++
        text.utf8Encode.extract length text.utf8Encode.size = text.utf8Encode := by
      rw [← hbytes, ← ByteArray.extract_eq_extract_append_extract length (Nat.zero_le _) hle,
        ByteArray.extract_zero_size]
    obtain ⟨rest, rfl⟩ := List.isPrefix_of_utf8Encode_append_eq_utf8Encode _ hwhole
    exact ⟨written, rest, hspells, by simp, hsize⟩
  · rintro ⟨written, rest, hspells, rfl, rfl⟩
    have htext : ('"' :: (written ++ '"' :: rest)) = ('"' :: (written ++ ['"'])) ++ rest := by simp
    rw [htext, List.utf8Encode_append, ByteArray.size_append, size_utf8Encode]
    exact ⟨Nat.le_add_right .., written, hspells,
      ByteArray.extract_append_eq_left (size_utf8Encode _).symm⟩

/-- A literal ends between two characters. -/
theorem OpensWithLiteral.isValid {text : List Char} {value : String} {length : Nat}
    (h : OpensWithLiteral text value length) :
    String.Pos.Raw.IsValid (String.ofList text) ⟨length⟩ := by
  obtain ⟨hle, written, -, hbytes⟩ := h
  refine String.Pos.Raw.isValid_iff_isValidUTF8_extract_zero.mpr ⟨hle, ?_⟩
  show ((String.ofList text).toUTF8.extract 0 length).IsValidUTF8
  rw [hbytes]
  exact String.isValidUTF8 _

namespace Lexer

/-! ## Reading literals -/

/-- A text is read from a literal if and only if the literal is what the source opens with. -/
theorem exists_stringLiteral?_iff {cs : List Char} {value : String} {length : Nat} :
    (∃ spelling rest, stringLiteral? cs = some ⟨.text value, spelling, rest⟩ ∧
      '"' :: cs = spelling ++ rest ∧ utf8Length spelling = length) ↔
      OpensWithLiteral ('"' :: cs) value length := by
  rw [opensWithLiteral_iff]
  constructor
  · rintro ⟨spelling, rest, hread, -, rfl⟩
    obtain ⟨written, _, hspells, hlexeme, hspelling, hcs⟩ := exists_spells_of_stringLiteral? hread
    cases hlexeme
    exact ⟨written, rest, hspells, by rw [hcs], congrArg utf8Length hspelling⟩
  · rintro ⟨written, rest, hspells, hcs, rfl⟩
    cases hcs
    exact ⟨_, rest, stringLiteral?_spells hspells rest, by simp, rfl⟩

theorem opensWithLiteral_unique {text : List Char} {value value' : String} {length length' : Nat}
    (h : OpensWithLiteral text value length) (h' : OpensWithLiteral text value' length') :
    value = value' ∧ length = length' := by
  obtain ⟨written, rest, -, rfl, -⟩ := opensWithLiteral_iff.mp h
  obtain ⟨spelling, _, hread, -, rfl⟩ := exists_stringLiteral?_iff.mpr h
  obtain ⟨spelling', _, hread', -, rfl⟩ := exists_stringLiteral?_iff.mpr h'
  cases hread.symm.trans hread'
  exact ⟨rfl, rfl⟩

/-- Nothing is read exactly where no literal opens the source. -/
theorem stringLiteral?_eq_none_iff {cs : List Char} : stringLiteral? cs = none ↔
    ∀ value length, ¬OpensWithLiteral ('"' :: cs) value length := by
  constructor
  · intro hnone value length hopens
    obtain ⟨_, _, hread, -⟩ := exists_stringLiteral?_iff.mpr hopens
    cases hnone.symm.trans hread
  · intro hclosed
    cases hread : stringLiteral? cs with
    | none => rfl
    | some reading =>
      obtain ⟨written, value, hspells, -, -, hcs⟩ := exists_spells_of_stringLiteral? hread
      exact absurd (opensWithLiteral_iff.mpr ⟨written, reading.rest, hspells, by rw [hcs], rfl⟩)
        (hclosed value _)

/-! ## Literals among other tokens -/

/-- Only a string literal can fail to end. -/
theorem lexeme_eq_unterminated_iff {c : Char} {cs : List Char} :
    lexeme c cs = .error .unterminated ↔ c = '"' ∧ stringLiteral? cs = none := by
  constructor
  · intro h
    unfold lexeme at h
    repeat' split at h
    all_goals
      cases h
    exact ⟨‹_›, ‹_›⟩
  · rintro ⟨rfl, hnone⟩
    simp [lexeme, single?, comparator?, hnone]

end Lexer

open Lexer

/-- From a literal on, splitting goes on behind it. -/
theorem Reaches.literal {source before written rest : List Char} {found : List Token} {value : String}
    (h : Reaches source before found ('"' :: (written ++ '"' :: rest)))
    (hspells : Spells written value.toList) :
    Reaches source (before ++ '"' :: (written ++ ['"']))
      (found ++ [⟨.text value, utf8Length before⟩]) rest := by
  have hread := lexeme_spells hspells rest
  rw [List.append_cons] at h hread
  exact h.token rfl hread

/-- Splitting stops at a literal exactly where a quote is reached and no literal opens the rest. -/
theorem tokenize_eq_unterminated_iff {source : List Char} {offset : Nat} :
    tokenize source = .error ⟨.unterminated, offset⟩ ↔
      ∃ before found cs, Reaches source before found ('"' :: cs) ∧ offset = utf8Length before ∧
        ∀ value length, ¬OpensWithLiteral ('"' :: cs) value length := by
  rw [tokenize_eq_error_iff]
  constructor
  · rintro ⟨before, found, c, cs, hreaches, -, hread, hoffset⟩
    obtain ⟨rfl, hnone⟩ := lexeme_eq_unterminated_iff.mp hread
    exact ⟨before, found, cs, hreaches, hoffset, stringLiteral?_eq_none_iff.mp hnone⟩
  · rintro ⟨before, found, cs, hreaches, hoffset, hclosed⟩
    have hnone := stringLiteral?_eq_none_iff.mpr hclosed
    exact ⟨before, found, '"', cs, hreaches, rfl, lexeme_eq_unterminated_iff.mpr ⟨rfl, hnone⟩, hoffset⟩

-- a backslash that is escaped does not escape the quote behind it
example : tokenize "x \"a\\\\\" \"b\\\"".toList = .error ⟨.unterminated, 8⟩ := by rfl

/-- String literals end where JSON says, whatever follows.  The reader gives a text and a number of bytes if
and only if so many bytes at the front are a literal of that text.  There is at most one such front, and it ends
between two characters.  Where there is none, splitting fails at the opening quote.

So wherever the JSON literal of a text is reached, it is read as one token, and the next one is looked for directly
behind it. -/
theorem stringLiteral_ends_with_json :
    (∀ (cs : List Char) (value : String) (length : Nat),
      (∃ spelling rest, stringLiteral? cs = some ⟨.text value, spelling, rest⟩ ∧
        '"' :: cs = spelling ++ rest ∧ utf8Length spelling = length) ↔
        OpensWithLiteral ('"' :: cs) value length) ∧
    (∀ (text : List Char) (value value' : String) (length length' : Nat),
      OpensWithLiteral text value length → OpensWithLiteral text value' length' →
        value = value' ∧ length = length') ∧
    (∀ (text : List Char) (value : String) (length : Nat), OpensWithLiteral text value length →
      String.Pos.Raw.IsValid (String.ofList text) ⟨length⟩) ∧
    (∀ (source : List Char) (offset : Nat), tokenize source = .error ⟨.unterminated, offset⟩ ↔
      ∃ before found cs, Reaches source before found ('"' :: cs) ∧ offset = utf8Length before ∧
        ∀ value length, ¬OpensWithLiteral ('"' :: cs) value length) ∧
    ∀ (value : String) (rest : List Char),
      (∃ inside, (Json.string value).toChars = '"' :: inside ∧
        stringLiteral? (inside ++ rest) = some ⟨.text value, (Json.string value).toChars, rest⟩) ∧
      ∀ (source before : List Char) (found : List Token),
        Reaches source before found ((Json.string value).toChars ++ rest) →
        tokenize source =
          (tokensFrom rest.length (utf8Length before + utf8Length (Json.string value).toChars) rest).map
            ((found ++ [⟨.text value, utf8Length before⟩]) ++ ·) := by
  refine ⟨fun _ _ _ => exists_stringLiteral?_iff, fun _ _ _ _ _ => opensWithLiteral_unique,
    fun _ _ _ => OpensWithLiteral.isValid, fun _ _ => tokenize_eq_unterminated_iff,
    fun value rest => ⟨?reading, ?splitting⟩⟩
  case reading =>
    refine ⟨Json.Literal.encode value.toList ++ ['"'], rfl, ?_⟩
    rw [List.append_assoc, List.singleton_append]
    exact stringLiteral?_spells (Json.Literal.spells_encode value.toList) rest
  case splitting =>
    intro source before found hreaches
    have htext : (Json.string value).toChars ++ rest =
        '"' :: (Json.Literal.encode value.toList ++ '"' :: rest) :=
      congrArg (List.cons '"') (List.append_cons ..).symm
    rw [htext] at hreaches
    rw [(hreaches.literal (Json.Literal.spells_encode value.toList)).tokenize_eq, utf8Length_append]
    rfl

end TableQuery
