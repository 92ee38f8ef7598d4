import TableQuery.Proofs.Comparison.Token
import TableQuery.Proofs.Query.RoundTrip

/-!
# Numbers in the text of a predicate

A predicate may hold any JSON number, and its text is JSON.  Queries have fewer numbers than JSON: an
integer has to fit 64 bits with a sign.  So the text of a greater integer is read as the nearest double
(`Number.asRead`), and every other number is read as itself.

Whatever the number, its text is one token in front of the end of a phrase (`Lexes.number_asRead`).
The text of a predicate is therefore always read by the rule for predicates, and it gives the
predicate back exactly if the number is one that a query can hold (`predicate_text_reads_back`).
-/

namespace TableQuery

open Lexer

/-! ## What the text of a number is read as -/

/-- The number that a query has where the text of a number stands. -/
def Number.asRead : Number → Number
  | integer value inRange =>
    if value < 0x8000000000000000 then integer value inRange else double (.ofInt value)
  | double value => double value

/-- The numbers that queries have are read as themselves, and no others. -/
theorem Number.asRead_eq_self_iff {number : Number} :
    number.asRead = number ↔ IsConstant (.number number) := by
  cases number with
  | integer value inRange =>
    rw [asRead, IsConstant]
    split
    next h => exact iff_of_true rfl h
    next h => exact iff_of_false (fun heq => by cases heq) h
  | double value => exact iff_of_true rfl True.intro

/-- What is read compares as the same number. -/
@[simp] theorem Number.toDouble_asRead (number : Number) :
    number.asRead.toDouble = number.toDouble := by
  cases number with
  | integer value inRange =>
    rw [asRead]
    split <;> rfl
  | double value => rfl

namespace Lexer

theorem signedInteger?_of_le {digits : List Char}
    (h : 0x8000000000000000 ≤ Decimal.digitsValue digits) : signedInteger? false digits = none := by
  rw [signedInteger?]
  exact dif_neg fun hrange => by simp at hrange; omega

theorem doubleOrText_intChars {value : Int} (h : value.natAbs < 2 ^ 64) :
    doubleOrText (Decimal.intChars value) = .number (.double (.ofInt value)) := by
  rw [doubleOrText, Decimal.toDouble?_intChars h]

end Lexer

/-- The text of a number is one token. -/
theorem Lexes.number_asRead {rest : List Char} {after : List Lexeme} (number : Number)
    (hrest : EndsPhrase rest) (h : Lexes rest after) :
    Lexes (number.toChars ++ rest) (.number (.number number.asRead) :: after) := by
  by_cases hconstant : IsConstant (.number number)
  · obtain ⟨found, hfound, hlexes⟩ := Lexes.constant hconstant hrest h
    cases hfound
    rw [Number.asRead_eq_self_iff.mpr hconstant]
    exact hlexes
  · cases number with
    | double value => exact absurd True.intro hconstant
    | integer value inRange =>
      have hlarge : ¬value < 0x8000000000000000 := hconstant
      have hdigits : Decimal.intChars value = Decimal.digitsOf value.natAbs := if_neg (by omega)
      have hread : doubleOrText (Decimal.digitsOf value.natAbs) = .number (.double (.ofInt value)) := by
        rw [← hdigits, doubleOrText_intChars (by omega)]
      obtain ⟨digit, whole, hcons⟩ := List.exists_cons_of_ne_nil (Decimal.digitsOf_ne_nil value.natAbs)
      have hwhole : ∀ c ∈ digit :: whole, c.isDigit = true := by
        rw [← hcons]
        exact fun c => Decimal.isDigit_of_mem_digitsOf
      have hunsigned : signedInteger? false (digit :: whole) = none := by
        rw [← hcons, signedInteger?_of_le (by rw [Decimal.digitsValue_digitsOf]; omega)]
      have hnumber := Lexes.number false hwhole (.inl rfl) Decimal.isExponentPart_nil hrest rfl h
      rw [List.append_nil, List.append_nil, hunsigned, ← hcons] at hnumber
      rw [Number.toChars, hdigits, Number.asRead, if_neg hlarge, ← hread]
      exact hnumber

/-! ## Predicates -/

/-- The text of a predicate with a number is read by the rule for predicates, as the predicate with the
number that is read. -/
theorem exists_tokens_of_predicate_text {field : String} (hfield : isWord field = true)
    (comparator : Comparator) (number : Number) :
    ∃ tokens, tokenize (Predicate.text ⟨field, comparator, .constant (.number number)⟩).toList =
        .ok tokens ∧
      ∀ path, (Parser.predicate path).Gives tokens
        ⟨field, comparator, .constant (.number number.asRead)⟩ [] := by
  have hoperand : Grammar.IsOperand (.constant (.number number.asRead))
      (.number (.number number.asRead)) := .number _
  have hnumber := Lexes.number_asRead number .nil .nil
  have htext : (Predicate.text ⟨field, comparator, .constant (.number number)⟩).toList =
      field.toList ++ (comparator.symbol.toList ++ (number.toChars ++ [])) := by
    simp [Predicate.text, Json.toText, Json.toChars]
  have hlexes : Lexes _ _ := .word hfield (endsWord_symbol comparator _)
    (.comparator comparator (hnumber.endsOperator hoperand) hnumber)
  rw [← htext] at hlexes
  obtain ⟨tokens, htokens, hall⟩ := hlexes.tokenize
  refine ⟨tokens, htokens, fun path => ?_⟩
  have hpredicate : Grammar.IsPredicate (lexemes tokens)
      ⟨field, comparator, .constant (.number number.asRead)⟩ [] := by
    rw [hall]
    exact .intro hoperand
  obtain ⟨rest, hrest, hgives⟩ := Parser.accepts_predicate hpredicate tokens rfl
  rw [lexemes_eq_nil_iff.mp hrest] at hgives
  exact hgives

/-- The text of a predicate with any number is read as a predicate with a number that compares alike, and
as the same predicate exactly if the number is no integer beyond 64 bits with a sign. -/
theorem predicate_text_reads_back {field : String} (hfield : isWord field = true)
    (comparator : Comparator) (number : Number) (path : RulePath) :
    ∃ tokens, tokenize (Predicate.text ⟨field, comparator, .constant (.number number)⟩).toList =
        .ok tokens ∧
      (Parser.predicate path).Gives tokens
        ⟨field, comparator, .constant (.number number.asRead)⟩ [] ∧
      number.asRead.toDouble = number.toDouble ∧
      ((Parser.predicate path).Gives tokens ⟨field, comparator, .constant (.number number)⟩ [] ↔
        IsConstant (.number number)) := by
  obtain ⟨tokens, htokens, hgives⟩ := exists_tokens_of_predicate_text hfield comparator number
  refine ⟨tokens, htokens, hgives path, number.toDouble_asRead, ?_⟩
  rw [← Number.asRead_eq_self_iff]
  constructor
  · intro hsame
    obtain ⟨hpredicate, -⟩ := hsame.unique (hgives path)
    simpa using hpredicate.symm
  · intro hsame
    have hback := hgives path
    rwa [hsame] at hback

/-- The least double in size, negative and with an exponent, behind the operator `<`. -/
theorem predicate_text_reads_back_of_least_double :
    isWord "draw" = true ∧
      Predicate.text ⟨"draw", .less, .constant (.number (.double ⟨true, 1, by decide⟩))⟩ =
        "draw<-5e-324" ∧
      ∃ tokens, tokenize (Predicate.text
          ⟨"draw", .less, .constant (.number (.double ⟨true, 1, by decide⟩))⟩).toList = .ok tokens ∧
        (Parser.predicate []).Gives tokens
          ⟨"draw", .less, .constant (.number (Number.double ⟨true, 1, by decide⟩).asRead)⟩ [] ∧
        (Number.double ⟨true, 1, by decide⟩).asRead.toDouble = ⟨true, 1, by decide⟩ ∧
        ((Parser.predicate []).Gives tokens
            ⟨"draw", .less, .constant (.number (.double ⟨true, 1, by decide⟩))⟩ [] ↔
          IsConstant (.number (.double ⟨true, 1, by decide⟩))) := by
  have hfield : isWord "draw" = true := by decide +kernel
  exact ⟨hfield, by decide +kernel, predicate_text_reads_back hfield .less _ []⟩

/-- The least integer beyond the signed ones does not come back from the text of a predicate. -/
theorem predicate_text_rounds_integer :
    isWord "x" = true ∧ ¬∃ tokens,
      tokenize (Predicate.text
        ⟨"x", .equal, .constant (.number (.integer 0x8000000000000000 (by decide)))⟩).toList = .ok tokens ∧
      (Parser.predicate []).Gives tokens
        ⟨"x", .equal, .constant (.number (.integer 0x8000000000000000 (by decide)))⟩ [] := by
  have hfield : isWord "x" = true := by decide +kernel
  refine ⟨hfield, ?_⟩
  rintro ⟨tokens, htokens, hgives⟩
  obtain ⟨read, hread, hrounded⟩ := exists_tokens_of_predicate_text hfield .equal
    (.integer 0x8000000000000000 (by decide))
  cases htokens.symm.trans hread
  obtain ⟨hsame, -⟩ := hgives.unique (hrounded [])
  cases hsame

end TableQuery
