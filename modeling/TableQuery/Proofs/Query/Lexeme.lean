import TableQuery.Proofs.Decimal.Numeral
import TableQuery.Proofs.Json.Literal
import TableQuery.Proofs.Query.Grammar

/-!
# Lexemes and their spelling

What tokens can a source have, and how are they written?  A word starts and goes on with the right
characters (`isWord`), and a number is an integer of 64 bits with a sign, a double, or a text
(`IsConstant`).  The tokens of every source are of this kind (`legible_of_tokenize`).

In the other direction, texts are written from their end to their front.  `Lexes cs ls` says that the
text `cs` is split into the lexemes `ls`, and for each kind of lexeme there is a lemma that puts one
more in front.  Such a lemma asks that the text behind does not go on with the lexeme.  After a
comparison operator no second operator may follow, after a word nothing that belongs to a word, and
after a constant the end of a phrase has to come (`EndsPhrase`).
-/

namespace TableQuery

/-- Whether a text is one word. -/
def isWord (text : String) : Bool :=
  match text.toList with
  | [] => false
  | first :: more => Lexer.startsWord first && more.all Lexer.continuesWord

/-- A constant that a query can hold. -/
def IsConstant : Json → Prop
  | .number (.integer value _) => value < 0x8000000000000000
  | .number (.double _) | .string _ => True
  | .null | .bool _ | .array _ | .object _ => False

/-- A lexeme that a source can have. -/
def Lexeme.Legible : Lexeme → Prop
  | .word name => isWord name = true
  | .number value => IsConstant value
  | _ => True

namespace Lexer

/-! ## How a lexeme is read -/

/-- The ways in which a lexeme is read at a character with some text behind it. -/
inductive ReadsFirst (c : Char) (rest : List Char) : Reading → Prop where
  | single {found : Lexeme} : single? c = some found → ReadsFirst c rest ⟨found, [c], rest⟩
  | comparator {reading : Reading} : comparator? (c :: rest) = some reading → ReadsFirst c rest reading
  | text {reading : Reading} : c = '"' → stringLiteral? rest = some reading → ReadsFirst c rest reading
  | number : c.isDigit = true → ReadsFirst c rest (number false (c :: rest))
  | negative : c = '-' → startsWithDigit rest = true → ReadsFirst c rest (Lexer.number true rest)
  | word : startsWord c = true → ReadsFirst c rest (word (c :: rest))

theorem readsFirst_of_lexeme {c : Char} {rest : List Char} {reading : Reading}
    (h : lexeme c rest = .ok reading) : ReadsFirst c rest reading := by
  unfold lexeme at h
  split at h
  next found hsingle =>
    cases h
    exact .single hsingle
  split at h
  next found hcomparator =>
    cases h
    exact .comparator hcomparator
  split at h
  next hquote =>
    split at h
    next found hliteral =>
      cases h
      exact .text hquote hliteral
    next => cases h
  split at h
  next hdigit =>
    cases h
    exact .number hdigit
  split at h
  next hminus =>
    cases h
    obtain ⟨hc, hrest⟩ := Bool.and_eq_true_iff.mp hminus
    exact .negative (of_decide_eq_true hc) hrest
  split at h
  next hstarts =>
    cases h
    exact .word hstarts
  next => cases h

/-! ## What sources hold -/

theorem isConstant_doubleOrText (spelling : List Char) : IsConstant (doubleOrText spelling) := by
  rw [doubleOrText]
  split <;> exact True.intro

theorem isConstant_of_signedInteger? {negative : Bool} {digits : List Char} {value : Json}
    (h : signedInteger? negative digits = some value) : IsConstant value := by
  obtain ⟨hrange, heq⟩ := Option.dite_none_right_eq_some.mp h
  cases heq
  exact hrange.2

theorem legible_number (negative : Bool) (cs : List Char) : (number negative cs).lexeme.Legible := by
  simp only [number, Lexeme.Legible]
  split
  · cases h : signedInteger? negative (Decimal.splitDigits cs).1 with
    | none => exact isConstant_doubleOrText _
    | some value => exact isConstant_of_signedInteger? h
  · exact isConstant_doubleOrText _

theorem exists_cons_of_isWord {text : String} (h : isWord text = true) :
    ∃ first more, text.toList = first :: more ∧ startsWord first = true ∧
      ∀ c ∈ more, continuesWord c = true := by
  rw [isWord] at h
  split at h
  next => cases h
  next first more htext =>
    obtain ⟨hfirst, hmore⟩ := Bool.and_eq_true_iff.mp h
    exact ⟨first, more, htext, hfirst, List.all_eq_true.mp hmore⟩

theorem continuesWord_of_startsWord {c : Char} (h : startsWord c = true) : continuesWord c = true := by
  simp only [startsWord, Bool.or_eq_true] at h
  simp only [continuesWord, Text.isAlphanumeric, Bool.or_eq_true]
  obtain h | h := h
  · exact .inl (.inl (.inl h))
  · exact .inl (.inr h)

theorem legible_word {c : Char} (h : startsWord c = true) (rest : List Char) :
    (word (c :: rest)).lexeme.Legible := by
  have hspelling : (c :: rest).takeWhile continuesWord = c :: rest.takeWhile continuesWord := by
    rw [List.takeWhile_cons, if_pos (continuesWord_of_startsWord h)]
  show isWord (String.ofList _) = true
  rw [hspelling, isWord, String.toList_ofList]
  simp only [h, List.all_takeWhile, Bool.and_self]

theorem legible_single {c : Char} {found : Lexeme} (h : single? c = some found) : found.Legible := by
  unfold single? at h
  repeat' split at h
  all_goals
    cases h
    try exact True.intro

theorem legible_comparator {cs : List Char} {reading : Reading} (h : comparator? cs = some reading) :
    reading.lexeme.Legible := by
  unfold comparator? at h
  split at h <;> cases h <;> exact True.intro

theorem legible_stringLiteral {cs : List Char} {reading : Reading}
    (h : stringLiteral? cs = some reading) : reading.lexeme.Legible := by
  unfold stringLiteral? at h
  split at h
  · cases h
  · split at h <;> cases h
    exact True.intro

theorem legible_lexeme {c : Char} {rest : List Char} {reading : Reading}
    (h : lexeme c rest = .ok reading) : reading.lexeme.Legible := by
  cases readsFirst_of_lexeme h with
  | single hsingle => exact legible_single hsingle
  | comparator hcomparator => exact legible_comparator hcomparator
  | text _ hliteral => exact legible_stringLiteral hliteral
  | number _ => exact legible_number ..
  | negative _ _ => exact legible_number ..
  | word hstarts => exact legible_word hstarts rest

theorem legible_of_tokensFrom {fuel offset : Nat} {cs : List Char} {tokens : List Token}
    (h : tokensFrom fuel offset cs = .ok tokens) : ∀ found ∈ lexemes tokens, found.Legible := by
  induction fuel generalizing offset cs tokens with
  | zero =>
    cases h
    simp
  | succ fuel ih =>
    cases cs with
    | nil =>
      cases h
      simp
    | cons c rest =>
      rw [tokensFrom] at h
      split at h
      · exact ih h
      · split at h
        next => cases h
        next reading hreading =>
          cases hmore : tokensFrom fuel (offset + utf8Length reading.spelling) reading.rest with
          | error fault =>
            rw [hmore] at h
            cases h
          | ok more =>
            rw [hmore] at h
            cases h
            exact List.forall_mem_cons.mpr ⟨legible_lexeme hreading, ih hmore⟩

/-! ## What a character starts -/

/-- Letters have numbers from that of `A` on. -/
theorem startsWord_of_toNat_lt {c : Char} (h : c.toNat < 0x41) : startsWord c = false := by
  have hletter : Text.isLetter c = false := if_pos h
  have hne : c ≠ '_' := by
    rintro rfl
    exact absurd h (by decide)
  simp [startsWord, hletter, hne]

/-- No letter and no digit is white space. -/
theorem continuesWord_of_isBlank {c : Char} (h : Text.isBlank c = true) : continuesWord c = false := by
  have hranges : ∀ n ∈ [9, 10, 11, 12, 13, 0x20, 0x85, 0xA0, 0x1680, 0x2000, 0x2001, 0x2002, 0x2003,
      0x2004, 0x2005, 0x2006, 0x2007, 0x2008, 0x2009, 0x200A, 0x2028, 0x2029, 0x202F, 0x205F, 0x3000],
      Text.inRanges Text.letterRanges n = false ∧ Text.inRanges Text.numberRanges n = false := by
    decide +kernel
  have hmem : c.toNat ∈ [9, 10, 11, 12, 13, 0x20, 0x85, 0xA0, 0x1680, 0x2000, 0x2001, 0x2002, 0x2003,
      0x2004, 0x2005, 0x2006, 0x2007, 0x2008, 0x2009, 0x200A, 0x2028, 0x2029, 0x202F, 0x205F, 0x3000] := by
    simp only [Text.isBlank, Bool.or_eq_true, Bool.and_eq_true, decide_eq_true_eq, beq_iff_eq] at h
    simp only [List.mem_cons, List.not_mem_nil, or_false]
    omega
  have hne : ∀ other : Char, Text.isBlank other = false → c ≠ other := by
    rintro other hother rfl
    cases h.symm.trans hother
  obtain ⟨hletter, hnumeral⟩ := hranges _ hmem
  simp [continuesWord, Text.isAlphanumeric, Text.isLetter, Text.isNumeral, hletter, hnumeral,
    hne '_' rfl, hne '-' rfl]

theorem startsWord_of_isBlank {c : Char} (h : Text.isBlank c = true) : startsWord c = false := by
  cases hstarts : startsWord c with
  | false => rfl
  | true => cases (continuesWord_of_isBlank h).symm.trans (continuesWord_of_startsWord hstarts)

theorem isBlank_of_startsWord {c : Char} (h : startsWord c = true) : Text.isBlank c = false :=
  Bool.eq_false_iff.mpr fun hblank => by cases h.symm.trans (startsWord_of_isBlank hblank)

theorem single?_eq_none {c : Char} (h : c ∉ ['(', ')', '[', ']', ',', '.', '=']) :
    single? c = none := by
  simp only [List.mem_cons, List.not_mem_nil, or_false, not_or] at h
  simp [single?, h]

theorem comparator?_eq_none {c : Char} (h : c ∉ ['<', '>', '!']) (rest : List Char) :
    comparator? (c :: rest) = none := by
  simp only [List.mem_cons, List.not_mem_nil, or_false, not_or] at h
  unfold comparator?
  split <;> simp_all

/-- The lexeme that starts with a digit is a number. -/
theorem lexeme_of_isDigit {c : Char} (h : c.isDigit = true) (rest : List Char) :
    lexeme c rest = .ok (number false (c :: rest)) := by
  have hne : ∀ other, other.isDigit = false → c ≠ other := by
    rintro other hother rfl
    cases h.symm.trans hother
  have hsingle : single? c = none := single?_eq_none (by simp [hne])
  have hcomparator : comparator? (c :: rest) = none := comparator?_eq_none (by simp [hne]) rest
  simp [lexeme, hsingle, hcomparator, hne, h]

/-- The lexeme that starts with a minus sign and a digit is a number. -/
theorem lexeme_minus {c : Char} (h : c.isDigit = true) (rest : List Char) :
    lexeme '-' (c :: rest) = .ok (number true (c :: rest)) := by
  simp [lexeme, single?, comparator?, startsWithDigit, h]

theorem startsWord_of_isDigit {c : Char} (h : c.isDigit = true) : startsWord c = false := by
  have hle := (Decimal.toNat_of_isDigit h).2
  exact startsWord_of_toNat_lt (by omega)

/-- The lexeme that starts with the start of a word is a word. -/
theorem lexeme_of_startsWord {c : Char} (h : startsWord c = true) (rest : List Char) :
    lexeme c rest = .ok (word (c :: rest)) := by
  have hmarks : (['(', ')', '[', ']', ',', '.', '=', '<', '>', '!', '"', '-'].all
      fun other => !startsWord other) = true := by decide +kernel
  have hne : c ∉ ['(', ')', '[', ']', ',', '.', '=', '<', '>', '!', '"', '-'] := by
    intro hmem
    have hmark := List.all_eq_true.mp hmarks c hmem
    rw [h] at hmark
    cases hmark
  have hdigit : c.isDigit = false := by
    cases hdigit : c.isDigit with
    | false => rfl
    | true => cases h.symm.trans (startsWord_of_isDigit hdigit)
  simp only [List.mem_cons, List.not_mem_nil, or_false, not_or] at hne
  have hsingle : single? c = none := single?_eq_none (by simp [hne])
  have hcomparator : comparator? (c :: rest) = none := comparator?_eq_none (by simp [hne]) rest
  simp [lexeme, hsingle, hcomparator, hne, h, hdigit]

/-! ## Reading what is written -/

/-- What stands behind a finished phrase: nothing, a comma or a closing mark. -/
def EndsPhrase (rest : List Char) : Prop := ∀ c, rest.head? = some c → c ∈ [',', ')', ']']

/-- What stands behind a finished word. -/
def EndsWord (rest : List Char) : Prop := ∀ c, rest.head? = some c → continuesWord c = false

/-- What stands behind a finished comparison operator. -/
def EndsOperator (rest : List Char) : Prop := ∀ c, rest.head? = some c → c ≠ '=' ∧ c ≠ '>'

theorem EndsPhrase.nil : EndsPhrase [] := fun _ h => nomatch h

theorem EndsPhrase.cons {c : Char} (h : c ∈ [',', ')', ']']) (rest : List Char) :
    EndsPhrase (c :: rest) := by
  rintro _ ⟨⟩
  exact h

theorem EndsWord.cons {c : Char} (h : continuesWord c = false) (rest : List Char) :
    EndsWord (c :: rest) := by
  rintro _ ⟨⟩
  exact h

theorem not_continuesWord_of_mem {c : Char}
    (h : c ∈ [',', ')', ']', '(', '.', '<', '>', '=', '!']) : continuesWord c = false := by
  have hmarks : ([',', ')', ']', '(', '.', '<', '>', '=', '!'].all fun c => !continuesWord c) = true := by
    decide +kernel
  simpa using List.all_eq_true.mp hmarks c h

theorem EndsPhrase.endsWord {rest : List Char} (h : EndsPhrase rest) : EndsWord rest := fun c hc =>
  not_continuesWord_of_mem (List.mem_append_left ['(', '.', '<', '>', '=', '!'] (h c hc))

theorem endsWord_openParen (rest : List Char) : EndsWord ('(' :: rest) :=
  .cons (not_continuesWord_of_mem (by simp)) rest

theorem lexeme_word {first : Char} {more rest : List Char} (hfirst : startsWord first = true)
    (hmore : ∀ c ∈ more, continuesWord c = true) (hrest : EndsWord rest) :
    lexeme first (more ++ rest) =
      .ok ⟨.word (String.ofList (first :: more)), first :: more, rest⟩ := by
  have hall : ∀ c ∈ first :: more, continuesWord c = true :=
    List.forall_mem_cons.mpr ⟨continuesWord_of_startsWord hfirst, hmore⟩
  obtain ⟨htake, hdrop⟩ := Decimal.takeWhile_append_of_stop hall hrest
  rw [lexeme_of_startsWord hfirst, word, ← List.cons_append, htake, hdrop]

theorem lexeme_less {rest : List Char} (h : EndsOperator rest) :
    lexeme '<' rest = .ok ⟨.comparator .less, ['<'], rest⟩ := by
  match rest, h with
  | [], _ => rfl
  | c :: rest, h =>
    obtain ⟨hequal, hgreater⟩ := h c rfl
    simp [lexeme, single?, comparator?, hequal, hgreater]

theorem lexeme_greater {rest : List Char} (h : ∀ c, rest.head? = some c → c ≠ '=') :
    lexeme '>' rest = .ok ⟨.comparator .greater, ['>'], rest⟩ := by
  match rest, h with
  | [], _ => rfl
  | c :: rest, h =>
    have hequal := h c rfl
    simp [lexeme, single?, comparator?, hequal]

/-! ### String literals -/

theorem closingQuote?_plain {c : Char} (hquote : c ≠ '"') (hslash : c ≠ '\\') (rest : List Char) :
    closingQuote? false (c :: rest) =
      (closingQuote? false rest).map fun (front, rest) => (c :: front, rest) := by
  rw [closingQuote?, if_neg hquote, beq_eq_false_iff_ne.mpr hslash]

theorem closingQuote?_escape (c : Char) (rest : List Char) :
    closingQuote? false ('\\' :: c :: rest) =
      (closingQuote? false rest).map fun (front, rest) => ('\\' :: c :: front, rest) := by
  simp [closingQuote?, Function.comp_def]

/-- Neither a quote nor a backslash is a hexadecimal digit. -/
theorem ne_of_hexValue? {c : Char} {n : Nat} (h : Json.Literal.hexValue? c = some n) :
    c ≠ '"' ∧ c ≠ '\\' := by
  constructor
  · rintro rfl
    cases h
  · rintro rfl
    cases h

theorem closingQuote?_unit {a b c d : Char} {n : Nat} (h : Json.Literal.hexUnit? a b c d = some n)
    (rest : List Char) :
    closingQuote? false ('\\' :: 'u' :: a :: b :: c :: d :: rest) =
      (closingQuote? false rest).map fun (front, rest) =>
        ('\\' :: 'u' :: a :: b :: c :: d :: front, rest) := by
  simp only [Json.Literal.hexUnit?, Option.bind_eq_bind, Option.bind_eq_some_iff] at h
  obtain ⟨_, ha, _, hb, _, hc, _, hd, -⟩ := h
  have hplain {c : Char} {n : Nat} (h : Json.Literal.hexValue? c = some n) (rest : List Char) :=
    closingQuote?_plain (ne_of_hexValue? h).1 (ne_of_hexValue? h).2 rest
  simp only [closingQuote?_escape, hplain ha, hplain hb, hplain hc, hplain hd, Option.map_map,
    Function.comp_def]

/-- No quote in the spelling of a character ends the literal. -/
theorem closingQuote?_spellsChar {written : List Char} {c : Char}
    (h : Json.Literal.SpellsChar written c) (rest : List Char) :
    closingQuote? false (written ++ rest) =
      (closingQuote? false rest).map fun (front, rest) => (written ++ front, rest) := by
  cases h with
  | plain hquote hslash _ => exact closingQuote?_plain hquote hslash rest
  | @short escape => exact closingQuote?_escape escape rest
  | unit hunit => exact closingQuote?_unit hunit rest
  | surrogates hhigh _ _ hlow =>
    simp only [List.cons_append, List.nil_append, closingQuote?_unit hhigh, closingQuote?_unit hlow,
      Option.map_map, Function.comp_def]

/-- A literal ends where the spelling of its text does. -/
theorem closingQuote?_spells {written text : List Char} (h : Json.Literal.Spells written text)
    (rest : List Char) :
    closingQuote? false (written ++ '"' :: rest) = some (written ++ ['"'], rest) := by
  induction h with
  | nil => rfl
  | cons hchar _ ih => rw [List.append_assoc, closingQuote?_spellsChar hchar, ih, Option.map_some,
      List.append_assoc]

/-- Every spelling of a text is read as that text, whatever follows. -/
theorem stringLiteral?_spells {written : List Char} {value : String}
    (h : Json.Literal.Spells written value.toList) (rest : List Char) :
    stringLiteral? (written ++ '"' :: rest) =
      some ⟨.text value, '"' :: (written ++ ['"']), rest⟩ := by
  have hdecode : Json.Literal.decode (written ++ ['"']) = some (value.toList, []) :=
    Json.Literal.decode_eq_some_iff.mpr ⟨written, h, rfl⟩
  simp only [stringLiteral?, closingQuote?_spells h, hdecode, String.ofList_toList]

theorem lexeme_spells {written : List Char} {value : String}
    (h : Json.Literal.Spells written value.toList) (rest : List Char) :
    lexeme '"' (written ++ '"' :: rest) = .ok ⟨.text value, '"' :: (written ++ ['"']), rest⟩ := by
  simp [lexeme, single?, comparator?, stringLiteral?_spells h]

theorem lexeme_text (value : String) (rest : List Char) :
    lexeme '"' (Json.Literal.encode value.toList ++ '"' :: rest) =
      .ok ⟨.text value, Json.Literal.quoted value.toList, rest⟩ :=
  lexeme_spells (Json.Literal.spells_encode value.toList) rest

/-! ### Numbers -/

theorem fractionSpan_append {fraction rest : List Char} (h : Decimal.IsFractionPart fraction)
    (hrest : ∀ c, rest.head? = some c → c.isDigit = false ∧ c ≠ '.') :
    fractionSpan (fraction ++ rest) = (fraction, rest) := by
  obtain rfl | ⟨digits, hne, hdigits, rfl⟩ := h
  · match rest, hrest with
    | [], _ => rfl
    | c :: rest, hrest =>
      have hpoint := (hrest c rfl).2
      simp [fractionSpan, hpoint]
  · have hsplit := Decimal.splitDigits_append_of_digits hdigits fun c hc => (hrest c hc).1
    simp [fractionSpan, hsplit, hne]

theorem exists_sign_exponentChars (exponent : Int) :
    ∃ sign, Double.exponentChars exponent = sign ++ Decimal.digitsOf exponent.natAbs ∧
      ∀ rest, exponentSign (sign ++ rest) = (sign, rest) := by
  by_cases h : exponent < 0
  · exact ⟨['-'], by simp [Double.exponentChars, Decimal.intChars, h], fun _ => rfl⟩
  · exact ⟨['+'], by simp [Double.exponentChars, Decimal.intChars, h], fun _ => rfl⟩

theorem exponentSpan_append {tail rest : List Char} {exponent : Int}
    (h : Decimal.IsExponentPart tail exponent) (hrest : EndsPhrase rest) :
    exponentSpan (tail ++ rest) = (tail, rest) := by
  have hmarks : ∀ c ∈ [',', ')', ']'], c.isDigit = false ∧ c ≠ 'e' ∧ c ≠ 'E' := by simp
  obtain ⟨rfl, rfl⟩ | rfl := h
  · match rest, hrest with
    | [], _ => rfl
    | c :: rest, hrest =>
      obtain ⟨_, hlower, hupper⟩ := hmarks c (hrest c rfl)
      simp [exponentSpan, hlower, hupper]
  · obtain ⟨sign, hchars, hsign⟩ := exists_sign_exponentChars exponent
    have hsplit := Decimal.splitDigits_append_of_digits
      (fun c hc => Decimal.isDigit_of_mem_digitsOf (n := exponent.natAbs) hc)
      fun c hc => (hmarks c (hrest c hc)).1
    simp [exponentSpan, hsign, hsplit, hchars, Decimal.digitsOf_ne_nil]

/-- A number is read as far as it is written. -/
theorem number_append (negative : Bool) {whole fraction tail rest : List Char} {exponent : Int}
    (hwhole : ∀ c ∈ whole, c.isDigit = true) (hfraction : Decimal.IsFractionPart fraction)
    (htail : Decimal.IsExponentPart tail exponent) (hrest : EndsPhrase rest) :
    number negative (whole ++ (fraction ++ (tail ++ rest))) =
      ⟨.number
        (if fraction.isEmpty && tail.isEmpty then
          (signedInteger? negative whole).getD
            (doubleOrText (Decimal.signed negative (whole ++ (fraction ++ tail))))
        else doubleOrText (Decimal.signed negative (whole ++ (fraction ++ tail)))),
        Decimal.signed negative (whole ++ (fraction ++ tail)), rest⟩ := by
  have hmarks : ∀ c ∈ [',', ')', ']'], c.isDigit = false ∧ c ≠ '.' := by simp
  have hbehind : ∀ c, (tail ++ rest).head? = some c → c.isDigit = false ∧ c ≠ '.' := by
    intro c hc
    obtain ⟨rfl, _⟩ | rfl := htail
    · exact hmarks c (hrest c hc)
    · cases hc
      decide
  have hpoint : ∀ c, (fraction ++ (tail ++ rest)).head? = some c → c.isDigit = false := by
    intro c hc
    obtain rfl | ⟨digits, _, _, rfl⟩ := hfraction
    · exact (hbehind c hc).1
    · cases hc
      decide
  simp only [number, Decimal.splitDigits_append_of_digits hwhole hpoint,
    fractionSpan_append hfraction hbehind, exponentSpan_append htail hrest]
  cases negative <;> simp [Decimal.signed]

theorem isBlank_of_isDigit {c : Char} (h : c.isDigit = true) : Text.isBlank c = false := by
  obtain ⟨hle, hge⟩ := Decimal.toNat_of_isDigit h
  simp only [Text.isBlank, Bool.or_eq_false_iff, Bool.and_eq_false_iff, decide_eq_false_iff_not,
    beq_eq_false_iff_ne]
  omega

/-- The lexeme that starts with a sign or none and a digit is a number. -/
theorem lexeme_signed (negative : Bool) {digit : Char} (h : digit.isDigit = true)
    (cs : List Char) : ∃ first more, Decimal.signed negative (digit :: cs) = first :: more ∧
      (first.isDigit = true ∨ first = '-') ∧
      ∀ rest, lexeme first (more ++ rest) = .ok (number negative (digit :: (cs ++ rest))) := by
  cases negative with
  | true => exact ⟨'-', digit :: cs, rfl, .inr rfl, fun rest => lexeme_minus h (cs ++ rest)⟩
  | false => exact ⟨digit, cs, rfl, .inl h, fun rest => lexeme_of_isDigit h (cs ++ rest)⟩

theorem signedInteger?_digitsOf {value : Int}
    (hrange : -0x8000000000000000 ≤ value ∧ value < 0x10000000000000000)
    (hlt : value < 0x8000000000000000) :
    signedInteger? (decide (value < 0)) (Decimal.digitsOf value.natAbs) =
      some (.number (.integer value hrange)) := by
  have hvalue : (if decide (value < 0) = true then -(value.natAbs : Int) else value.natAbs) = value := by
    by_cases hnegative : value < 0
    · rw [if_pos (decide_eq_true hnegative)]
      omega
    · rw [if_neg (by simpa using hnegative)]
      omega
  simp only [signedInteger?, Decimal.digitsValue_digitsOf, hvalue, hrange.1, hlt, and_self, dite_true]

end Lexer

/-! ## Splitting texts from their end -/

open Lexer

/-- A text is split into the lexemes, wherever in a source it stands. -/
def Lexes (cs : List Char) (found : List Lexeme) : Prop :=
  ∀ fuel offset, cs.length ≤ fuel →
    ∃ tokens, tokensFrom fuel offset cs = .ok tokens ∧ lexemes tokens = found

theorem Lexes.tokenize {cs : List Char} {found : List Lexeme} (h : Lexes cs found) :
    ∃ tokens, tokenize cs = .ok tokens ∧ lexemes tokens = found := h cs.length 0 (Nat.le_refl _)

namespace Lexes

variable {rest : List Char} {after : List Lexeme}

theorem nil : Lexes [] [] := by
  intro fuel offset _
  cases fuel with
  | zero => exact ⟨[], rfl, rfl⟩
  | succ fuel => exact ⟨[], rfl, rfl⟩

theorem cons {c : Char} {more spelling : List Char} {found : Lexeme} (hblank : Text.isBlank c = false)
    (hread : lexeme c (more ++ rest) = .ok ⟨found, spelling, rest⟩) (h : Lexes rest after) :
    Lexes (c :: (more ++ rest)) (found :: after) := by
  intro fuel offset hfuel
  simp only [List.length_cons, List.length_append] at hfuel
  obtain ⟨fuel, rfl⟩ := Nat.exists_eq_add_one_of_ne_zero (by omega : fuel ≠ 0)
  obtain ⟨tokens, htokens, hlexemes⟩ := h fuel (offset + utf8Length spelling) (by omega)
  refine ⟨⟨found, offset⟩ :: tokens, ?_, by rw [lexemes_cons, hlexemes]⟩
  rw [tokensFrom, hblank, hread]
  show (tokensFrom fuel (offset + utf8Length spelling) rest).map _ = _
  rw [htokens]
  rfl

theorem single {c : Char} {found : Lexeme} (hsingle : single? c = some found) (h : Lexes rest after) :
    Lexes (c :: rest) (found :: after) := by
  have hmarks : ∀ c ∈ ['(', ')', '[', ']', ',', '.', '='], Text.isBlank c = false := by
    simp [Text.isBlank]
  have hmem : c ∈ ['(', ')', '[', ']', ',', '.', '='] := by
    refine Decidable.byContradiction fun hmem => ?_
    cases (single?_eq_none hmem).symm.trans hsingle
  have hread : lexeme c ([] ++ rest) = .ok ⟨found, [c], rest⟩ := by simp [lexeme, hsingle]
  exact cons (hmarks c hmem) hread h

theorem word {text : String} (hword : isWord text = true) (hrest : EndsWord rest)
    (h : Lexes rest after) : Lexes (text.toList ++ rest) (.word text :: after) := by
  obtain ⟨first, more, htext, hfirst, hmore⟩ := exists_cons_of_isWord hword
  have hread := lexeme_word hfirst hmore hrest
  rw [← htext, String.ofList_toList] at hread
  rw [htext]
  exact cons (isBlank_of_startsWord hfirst) hread h

theorem comparator (value : Comparator) (hrest : EndsOperator rest) (h : Lexes rest after) :
    Lexes (value.symbol.toList ++ rest) (.comparator value :: after) := by
  have hless : lexeme '<' ([] ++ rest) = .ok ⟨.comparator .less, ['<'], rest⟩ := lexeme_less hrest
  have hgreater : lexeme '>' ([] ++ rest) = .ok ⟨.comparator .greater, ['>'], rest⟩ :=
    lexeme_greater fun c hc => (hrest c hc).1
  cases value with
  | equal => exact single rfl h
  | notEqual =>
    show Lexes ('<' :: (['>'] ++ rest)) _
    exact cons rfl rfl h
  | less => exact cons rfl hless h
  | atMost =>
    show Lexes ('<' :: (['='] ++ rest)) _
    exact cons rfl rfl h
  | greater => exact cons rfl hgreater h
  | atLeast =>
    show Lexes ('>' :: (['='] ++ rest)) _
    exact cons rfl rfl h

theorem text (value : String) (h : Lexes rest after) :
    Lexes (Json.Literal.quoted value.toList ++ rest) (.text value :: after) := by
  have hread : lexeme '"' ((Json.Literal.encode value.toList ++ ['"']) ++ rest) =
      .ok ⟨.text value, Json.Literal.quoted value.toList, rest⟩ := by
    rw [List.append_assoc]
    exact lexeme_text value rest
  exact cons rfl hread h

/-- A number of which the text is what the parts are read as. -/
theorem number (negative : Bool) {digit : Char} {whole fraction tail : List Char} {exponent : Int}
    (hwhole : ∀ c ∈ digit :: whole, c.isDigit = true) (hfraction : Decimal.IsFractionPart fraction)
    (htail : Decimal.IsExponentPart tail exponent) (hrest : EndsPhrase rest) {value : Json}
    (hvalue : (if fraction.isEmpty && tail.isEmpty then
        (signedInteger? negative (digit :: whole)).getD
          (doubleOrText (Decimal.signed negative (digit :: (whole ++ (fraction ++ tail)))))
      else doubleOrText (Decimal.signed negative (digit :: (whole ++ (fraction ++ tail))))) = value)
    (h : Lexes rest after) :
    Lexes (Decimal.signed negative (digit :: (whole ++ (fraction ++ tail))) ++ rest)
      (.number value :: after) := by
  obtain ⟨first, more, hcons, hfirst, hread⟩ := lexeme_signed negative
    (hwhole digit (List.mem_cons_self ..)) (whole ++ (fraction ++ tail))
  have hnumber := number_append negative hwhole hfraction htail hrest
  simp only [List.cons_append, hvalue] at hnumber
  have hblank : Text.isBlank first = false := by
    obtain hdigit | rfl := hfirst
    · exact isBlank_of_isDigit hdigit
    · rfl
  have hread := hread rest
  simp only [List.append_assoc, hnumber] at hread
  rw [hcons]
  exact cons hblank hread h

/-- A constant in a predicate reads back as that constant. -/
theorem constant {value : Json} (hvalue : IsConstant value) (hrest : EndsPhrase rest)
    (h : Lexes rest after) : ∃ found, Grammar.IsOperand (.constant value) found ∧
      Lexes (value.toChars ++ rest) (found :: after) := by
  match value, hvalue with
  | .string value, _ => exact ⟨.text value, .text value, text value h⟩
  | .number (.integer value hrange), hlt =>
    refine ⟨.number _, .number _, ?_⟩
    obtain ⟨digit, whole, hdigits⟩ := List.exists_cons_of_ne_nil (Decimal.digitsOf_ne_nil value.natAbs)
    have hwhole : ∀ c ∈ digit :: whole, c.isDigit = true := by
      rw [← hdigits]
      exact fun c => Decimal.isDigit_of_mem_digitsOf
    have htext : (Json.number (.integer value hrange)).toChars =
        Decimal.signed (decide (value < 0)) (digit :: (whole ++ ([] ++ []))) := by
      rw [List.append_nil, List.append_nil, ← hdigits, ← Decimal.intChars_eq_signed]
      rfl
    rw [htext]
    refine number _ hwhole (.inl rfl) Decimal.isExponentPart_nil hrest ?_ h
    rw [← hdigits, signedInteger?_digitsOf hrange hlt]
    rfl
  | .number (.double value), _ =>
    refine ⟨.number _, .number _, ?_⟩
    obtain ⟨digit, whole, fraction, tail, exponent, hwhole, _, hfraction, htail, hpart, hchars⟩ :=
      Double.exists_parts_magnitudeChars value.finite
    have htext : (Json.number (.double value)).toChars =
        Decimal.signed value.negative (digit :: (whole ++ (fraction ++ tail))) := by
      rw [← hchars]
      rfl
    have hread : doubleOrText (Decimal.signed value.negative (digit :: (whole ++ (fraction ++ tail)))) =
        .number (.double value) := by
      rw [doubleOrText, ← hchars, ← Double.toChars_eq_signed,
        Double.toDouble?_toChars (.inr rfl) value]
    rw [htext]
    refine number value.negative hwhole hfraction htail hrest ?_ h
    rw [hpart]
    exact hread

theorem eq_of_lexeme {c : Char} {found : Lexeme} {reading : Reading}
    (hblank : Text.isBlank c = false) (hread : lexeme c rest = .ok reading)
    (h : Lexes (c :: rest) (found :: after)) : found = reading.lexeme := by
  obtain ⟨tokens, htokens, hlexemes⟩ := h (rest.length + 1) 0 (Nat.le_refl _)
  rw [tokensFrom, hblank, hread] at htokens
  simp only [Bool.false_eq_true, if_false] at htokens
  cases hmore : tokensFrom rest.length (0 + utf8Length reading.spelling) reading.rest with
  | error fault =>
    rw [hmore] at htokens
    cases htokens
  | ok more =>
    rw [hmore] at htokens
    cases htokens
    exact (List.cons.inj hlexemes).1.symm

/-- No operand makes the operator in front of it longer. -/
theorem endsOperator {cs : List Char} {operand : Operand} {found : Lexeme}
    (h : Lexes cs (found :: after)) (hoperand : Grammar.IsOperand operand found) :
    EndsOperator cs := by
  have hkind : ∀ value, found ≠ .comparator value := by
    rintro value rfl
    cases hoperand
  intro c hc
  obtain ⟨rest, rfl⟩ := List.head?_eq_some_iff.mp hc
  constructor
  · rintro rfl
    exact hkind _ (eq_of_lexeme rfl rfl h)
  · rintro rfl
    by_cases hequal : rest.head? = some '='
    · obtain ⟨tail, rfl⟩ := List.head?_eq_some_iff.mp hequal
      exact hkind _ (eq_of_lexeme rfl rfl h)
    · exact hkind _ (eq_of_lexeme rfl (lexeme_greater fun c hc heq => hequal (heq ▸ hc)) h)

end Lexes

end TableQuery
