import TableQuery.Json.Literal

/-!
# Spelling texts in literals

JSON has more than one spelling for most texts.  `SpellsChar` has a case for each way of writing a
character: characters that stand for themselves, short escapes, escapes by number, and pairs of surrogate
escapes.  A text is spelled character by character (`Spells`).

The reader accepts every spelling and nothing else, whatever follows the closing quote
(`decode_eq_some_iff`).  What the writer makes of a text is one of its spellings (`spells_encode`), so a
text is read back from its literal (`decode_encode`).
-/

namespace TableQuery.Json.Literal

/-! ## Spellings -/

/-- The ways to write a character in a literal. -/
inductive SpellsChar : List Char → Char → Prop where
  /-- A character from U+0020 on stands for itself, unless it is the quote or the backslash. -/
  | plain {c : Char} : c ≠ '"' → c ≠ '\\' → ¬c.toNat < 0x20 → SpellsChar [c] c
  | short {escape c : Char} : shortEscape? escape = some c → SpellsChar ['\\', escape] c
  /-- A character is escaped by its number, in digits of either case. -/
  | unit {a b c d : Char} {n : Nat} : hexUnit? a b c d = some n → isLowSurrogate n = false →
      isHighSurrogate n = false → SpellsChar ['\\', 'u', a, b, c, d] (Char.ofNat n)
  /-- A character beyond U+FFFF is escaped as a pair of surrogates. -/
  | surrogates {a b c d e f g h : Char} {high low : Nat} : hexUnit? a b c d = some high →
      isLowSurrogate high = false → isHighSurrogate high = true → hexUnit? e f g h = some low →
      isLowSurrogate low = true →
      SpellsChar ['\\', 'u', a, b, c, d, '\\', 'u', e, f, g, h] (joinSurrogates high low)

/-- The ways to write a text in a literal. -/
inductive Spells : List Char → List Char → Prop where
  | nil : Spells [] []
  | cons {written more : List Char} {c : Char} {cs : List Char} :
      SpellsChar written c → Spells more cs → Spells (written ++ more) (c :: cs)

/-! ## Reading spellings -/

theorem prepend_eq_some_iff {c : Char} {read : Option (List Char × List Char)}
    {text rest : List Char} :
    prepend c read = some (text, rest) ↔ ∃ cs, read = some (cs, rest) ∧ text = c :: cs := by
  cases read with
  | none => simp [prepend]
  | some pair =>
    obtain ⟨cs, after⟩ := pair
    constructor
    · intro h
      cases h
      exact ⟨cs, rfl, rfl⟩
    · rintro ⟨_, h, rfl⟩
      cases h
      rfl

/-- A character with a short escape is read from it. -/
theorem decode_shortEscape {escape c : Char} (h : shortEscape? escape = some c) (rest : List Char) :
    decode ('\\' :: escape :: rest) = prepend c (decode rest) := by
  have hne : escape ≠ 'u' := by
    intro e
    subst e
    cases h
  rw [decode.eq_def]
  split
  · next heq => cases heq
  · next heq => cases heq
  · next heq =>
    cases heq
    exact absurd rfl hne
  · next heq =>
    cases heq
    simp only [h]
  · next heq => cases heq
  · next hquote hlong hshort hlone heq =>
    cases heq
    exact absurd rfl (hshort _ _ rfl)

/-- Every other character but the quote and the backslash stands for itself. -/
theorem decode_plain {c : Char} (hquote : c ≠ '"') (hslash : c ≠ '\\') (hlow : ¬c.toNat < 0x20)
    (rest : List Char) : decode (c :: rest) = prepend c (decode rest) := by
  rw [decode.eq_def]
  split
  · next heq => cases heq
  · next heq =>
    cases heq
    exact absurd rfl hquote
  · next heq =>
    cases heq
    exact absurd rfl hslash
  · next heq =>
    cases heq
    exact absurd rfl hslash
  · next heq =>
    cases heq
    exact absurd rfl hslash
  · next heq =>
    cases heq
    rw [if_neg hlow]

theorem decode_spelled {written : List Char} {c : Char} (h : SpellsChar written c) (rest : List Char) :
    decode (written ++ rest) = prepend c (decode rest) := by
  cases h with
  | plain hquote hslash hlow => exact decode_plain hquote hslash hlow rest
  | short hescape => exact decode_shortEscape hescape rest
  | unit hunit hnotLow hnotHigh => simp [decode, hunit, hnotLow, hnotHigh]
  | surrogates hunit hnotLow hhigh hlowUnit hlow =>
    simp [decode, hunit, hnotLow, hhigh, hlowUnit, hlow]

/-- A spelled character goes in front of what spells the rest. -/
theorem exists_spells_cons {written more text rest : List Char} {c : Char}
    (hchar : SpellsChar written c) (hread : prepend c (decode more) = some (text, rest))
    (hmore : ∀ {text}, decode more = some (text, rest) →
      ∃ tail, Spells tail text ∧ more = tail ++ '"' :: rest) :
    ∃ whole, Spells whole text ∧ written ++ more = whole ++ '"' :: rest := by
  obtain ⟨cs, hcs, rfl⟩ := prepend_eq_some_iff.mp hread
  obtain ⟨tail, htail, rfl⟩ := hmore hcs
  exact ⟨written ++ tail, .cons hchar htail, (List.append_assoc ..).symm⟩

/-- What is read is a spelling and the closing quote. -/
theorem exists_spells_of_decode {cs text rest : List Char} (h : decode cs = some (text, rest)) :
    ∃ written, Spells written text ∧ cs = written ++ '"' :: rest := by
  fun_induction decode cs generalizing text with
  | case2 after =>
    cases h
    exact ⟨[], .nil, rfl⟩
  | case6 a b c d high hunit hnotLow hhigh e f g h' more low hlowUnit hlow ih =>
    exact exists_spells_cons
      (.surrogates hunit (eq_false_of_ne_true hnotLow) hhigh hlowUnit hlow) h ih
  | case9 a b c d more n hunit hnotLow hnotHigh ih =>
    exact exists_spells_cons
      (.unit hunit (eq_false_of_ne_true hnotLow) (eq_false_of_ne_true hnotHigh)) h ih
  | case11 escape more _ c hescape ih => exact exists_spells_cons (.short hescape) h ih
  | case14 c more hquote _ hescape hlone hlow ih =>
    have hslash : c ≠ '\\' := by
      intro e
      cases more with
      | nil => exact hlone e rfl
      | cons next tail => exact hescape next tail e rfl
    exact exists_spells_cons (.plain hquote hslash hlow) h ih
  -- in all other cases nothing is read
  | _ => cases h

/-- Reading accepts the spellings of a text, up to the closing quote and whatever follows it. -/
theorem decode_eq_some_iff {cs text rest : List Char} :
    decode cs = some (text, rest) ↔ ∃ written, Spells written text ∧ cs = written ++ '"' :: rest := by
  constructor
  · exact exists_spells_of_decode
  · rintro ⟨written, hspells, rfl⟩
    induction hspells with
    | nil => rfl
    | cons hchar _ ih => rw [List.append_assoc, decode_spelled hchar, ih, prepend]

/-! ## Writing -/

theorem hexUnit?_hexDigit :
    ∀ n < 32, hexUnit? '0' '0' (hexDigit (n / 16)) (hexDigit (n % 16)) = some n := by
  decide

theorem not_surrogate {n : Nat} (h : n < 32) :
    isLowSurrogate n = false ∧ isHighSurrogate n = false := by
  constructor
  · simp only [isLowSurrogate, Bool.and_eq_false_iff, decide_eq_false_iff_not]
    omega
  · simp only [isHighSurrogate, Bool.and_eq_false_iff, decide_eq_false_iff_not]
    omega

theorem spellsChar_ofNat {escape c : Char} {n : Nat} (h : shortEscape? escape = some (Char.ofNat n))
    (hc : c.toNat = n) : SpellsChar ['\\', escape] c := by
  rw [← hc, Char.ofNat_toNat] at h
  exact .short h

/-- What is written for a character spells it. -/
theorem spellsChar_encodeChar (c : Char) : SpellsChar (encodeChar c) c := by
  unfold encodeChar
  split
  · next h =>
    subst h
    exact .short rfl
  split
  · next h =>
    subst h
    exact .short rfl
  split
  · next h => exact spellsChar_ofNat rfl h
  split
  · next h => exact spellsChar_ofNat rfl h
  split
  · next h => exact spellsChar_ofNat rfl h
  split
  · next h => exact spellsChar_ofNat rfl h
  split
  · next h => exact spellsChar_ofNat rfl h
  split
  · next hlow =>
    obtain ⟨hnotLow, hnotHigh⟩ := not_surrogate hlow
    have hunit := SpellsChar.unit (hexUnit?_hexDigit c.toNat hlow) hnotLow hnotHigh
    rwa [Char.ofNat_toNat] at hunit
  · next hquote hslash _ _ _ _ _ hlow => exact .plain hquote hslash hlow

/-- What is written for a text spells it. -/
theorem spells_encode (cs : List Char) : Spells (encode cs) cs := by
  induction cs with
  | nil => exact .nil
  | cons c cs ih => exact .cons (spellsChar_encodeChar c) ih

/-- A text is read back from its literal. -/
theorem decode_encode (cs rest : List Char) :
    decode (encode cs ++ '"' :: rest) = some (cs, rest) :=
  decode_eq_some_iff.mpr ⟨encode cs, spells_encode cs, rfl⟩

end TableQuery.Json.Literal
