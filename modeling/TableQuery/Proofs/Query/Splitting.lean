import TableQuery.Proofs.Query.Lexeme

/-!
# Where tokens stand

A text that starts at some offset is split into tokens from its front: a blank is passed over, and at any
other character a lexeme is read (`Splits`).  The tokens of a source are those that this relation gives
(`tokenize_eq_ok_iff`).

A lexeme is read in one of six ways (`Lexer.ReadsFirst`), and each of them takes characters off the front
(`exists_eq_append_of_lexeme`).  So the offsets of tokens increase (`Splits.pairwise_offset`), the source
from a token on is what is left there to be split (`Splits.of_suffix`), and it gets shorter from
token to token (`Splits.length_textAt_lt`).
-/

namespace TableQuery

/-! ## Counting bytes -/

@[simp] theorem utf8Length_append (front rest : List Char) :
    utf8Length (front ++ rest) = utf8Length front + utf8Length rest := by
  induction front with
  | nil => simp [utf8Length]
  | cons c front ih =>
    rw [List.cons_append, utf8Length, utf8Length, ih, Nat.add_assoc]

theorem utf8Length_cons_pos (c : Char) (rest : List Char) : 0 < utf8Length (c :: rest) :=
  Nat.add_pos_left c.utf8Size_pos _

theorem Source.dropBytes_append (front rest : List Char) :
    dropBytes (utf8Length front) (front ++ rest) = rest := by
  induction front with
  | nil => cases rest <;> rfl
  | cons c front ih =>
    obtain ⟨n, hn⟩ := Nat.exists_eq_add_one_of_ne_zero (Nat.ne_zero_of_lt (utf8Length_cons_pos c front))
    have hrest : n + 1 - c.utf8Size = utf8Length front := by
      rw [← hn]
      exact Nat.add_sub_cancel_left ..
    rw [hn, List.cons_append, dropBytes, hrest, ih]

/-- Of two fronts of a text, the one of fewer bytes is a front of the other. -/
theorem exists_eq_append_of_utf8Length_le {shorter longer rest rest' : List Char}
    (h : shorter ++ rest = longer ++ rest') (hle : utf8Length shorter ≤ utf8Length longer) :
    ∃ between, longer = shorter ++ between ∧ rest = between ++ rest' := by
  obtain ⟨between, rfl, rfl⟩ | ⟨between, rfl, rfl⟩ := List.append_eq_append_iff.mp h
  · exact ⟨between, rfl, rfl⟩
  · cases between with
    | nil => exact ⟨[], by simp, rfl⟩
    | cons c between =>
      have hpos := utf8Length_cons_pos c between
      rw [utf8Length_append] at hle
      omega

namespace Lexer

/-! ## What a lexeme takes off the front -/

theorem append_of_closingQuote? {escaped : Bool} {cs inside rest : List Char}
    (h : closingQuote? escaped cs = some (inside, rest)) : cs = inside ++ rest := by
  induction cs generalizing escaped inside with
  | nil => cases escaped <;> cases h
  | cons c cs ih =>
    cases escaped with
    | true =>
      obtain ⟨⟨front, behind⟩, hmore, heq⟩ := Option.map_eq_some_iff.mp h
      cases heq
      rw [List.cons_append, ← ih hmore]
    | false =>
      rw [closingQuote?] at h
      split at h
      · cases h
        rfl
      · obtain ⟨⟨front, behind⟩, hmore, heq⟩ := Option.map_eq_some_iff.mp h
        cases heq
        rw [List.cons_append, ← ih hmore]

/-- A string literal that is read is a spelling of its text between quotes. -/
theorem exists_spells_of_stringLiteral? {cs : List Char} {reading : Reading}
    (h : stringLiteral? cs = some reading) :
    ∃ written value, Json.Literal.Spells written value.toList ∧ reading.lexeme = .text value ∧
      reading.spelling = '"' :: (written ++ ['"']) ∧ cs = written ++ '"' :: reading.rest := by
  unfold stringLiteral? at h
  split at h
  next => cases h
  next inside rest hclosing =>
    split at h
    next value hdecode =>
      cases h
      obtain ⟨written, hspells, rfl⟩ := Json.Literal.exists_spells_of_decode hdecode
      rw [← String.toList_ofList (l := value)] at hspells
      refine ⟨written, String.ofList value, hspells, rfl, rfl, ?_⟩
      rw [append_of_closingQuote? hclosing, List.append_assoc, List.singleton_append]
    next => cases h

theorem append_fractionSpan (cs : List Char) : (fractionSpan cs).1 ++ (fractionSpan cs).2 = cs := by
  unfold fractionSpan
  split
  next tail =>
    simp only
    split
    · rfl
    · rw [List.cons_append, Decimal.splitDigits_append]
  next => rfl

theorem append_exponentSign (cs : List Char) : (exponentSign cs).1 ++ (exponentSign cs).2 = cs := by
  unfold exponentSign
  split <;> rfl

theorem append_exponentSpan (cs : List Char) : (exponentSpan cs).1 ++ (exponentSpan cs).2 = cs := by
  cases cs with
  | nil => rfl
  | cons mark cs =>
    simp only [exponentSpan]
    split
    · split
      · rfl
      · rw [List.cons_append, List.append_assoc, Decimal.splitDigits_append, append_exponentSign]
    · rfl

/-- A number is its sign, digits, a fraction and an exponent, and the rest stands behind it. -/
theorem append_number (negative : Bool) (cs : List Char) :
    (number negative cs).spelling ++ (number negative cs).rest = Decimal.signed negative cs := by
  have hspans := Decimal.splitDigits_append cs
  rw [← append_fractionSpan (Decimal.splitDigits cs).2,
    ← append_exponentSpan (fractionSpan (Decimal.splitDigits cs).2).2] at hspans
  cases negative <;> simpa [number, Decimal.signed] using hspans

/-- A lexeme takes the character at the front, and perhaps more. -/
theorem exists_eq_append_of_lexeme {c : Char} {cs : List Char} {reading : Reading}
    (h : lexeme c cs = .ok reading) :
    ∃ more, reading.spelling = c :: more ∧ cs = more ++ reading.rest := by
  -- the way of reading gives what stands in front of the rest, and that its first character is `c`
  have htakes : ∀ {spelling rest : List Char}, spelling ++ rest = c :: cs → spelling ≠ [] →
      ∃ more, spelling = c :: more ∧ cs = more ++ rest := by
    intro spelling rest happend hne
    obtain ⟨first, more, rfl⟩ := List.exists_cons_of_ne_nil hne
    obtain ⟨rfl, rfl⟩ := List.cons.inj happend
    exact ⟨more, rfl, rfl⟩
  cases readsFirst_of_lexeme h with
  | single => exact ⟨[], rfl, rfl⟩
  | comparator hread =>
    unfold comparator? at hread
    split at hread <;> cases hread
    all_goals
      rename_i heq
      cases heq
      exact ⟨_, rfl, rfl⟩
  | text hquote hread =>
    obtain ⟨written, value, -, -, hspelling, rfl⟩ := exists_spells_of_stringLiteral? hread
    exact ⟨written ++ ['"'], by rw [hspelling, hquote], List.append_cons ..⟩
  | number hdigit =>
    refine htakes (append_number false (c :: cs)) ?_
    simp [Lexer.number, Decimal.splitDigits, hdigit]
  | negative hminus =>
    subst hminus
    refine htakes (append_number true cs) ?_
    simp [Lexer.number]
  | word hstarts =>
    refine htakes List.takeWhile_append_dropWhile ?_
    rw [Lexer.word, List.takeWhile_cons, if_pos (continuesWord_of_startsWord hstarts)]
    exact List.cons_ne_nil _ _

/-! ## What the tokens of a text are -/

/-- More fuel than there are characters changes nothing. -/
theorem tokensFrom_congr_fuel {fuel fuel' : Nat} {cs : List Char} (hfuel : cs.length ≤ fuel)
    (hfuel' : cs.length ≤ fuel') (offset : Nat) :
    tokensFrom fuel offset cs = tokensFrom fuel' offset cs := by
  induction fuel generalizing fuel' cs offset with
  | zero =>
    cases List.length_eq_zero_iff.mp (Nat.le_zero.mp hfuel)
    cases fuel' <;> rfl
  | succ fuel ih =>
    cases cs with
    | nil => cases fuel' <;> rfl
    | cons c rest =>
      obtain ⟨fuel', rfl⟩ := Nat.exists_eq_add_one_of_ne_zero (Nat.ne_zero_of_lt hfuel')
      replace hfuel := Nat.le_of_succ_le_succ hfuel
      replace hfuel' := Nat.le_of_succ_le_succ hfuel'
      rw [tokensFrom, tokensFrom, ih hfuel hfuel']
      cases hread : lexeme c rest with
      | error cause => rfl
      | ok reading =>
        obtain ⟨more, -, rfl⟩ := exists_eq_append_of_lexeme hread
        rw [List.length_append] at hfuel hfuel'
        simp only [ih (Nat.le_trans (Nat.le_add_left ..) hfuel) (Nat.le_trans (Nat.le_add_left ..) hfuel')]

/-- The tokens from a blank on are those behind it. -/
theorem tokensFrom_blank {c : Char} (h : Text.isBlank c = true) (offset : Nat) (rest : List Char) :
    tokensFrom (c :: rest).length offset (c :: rest) =
      tokensFrom rest.length (offset + c.utf8Size) rest := by
  rw [List.length_cons, tokensFrom, if_pos h]

/-- The tokens from a lexeme on are the lexeme and those behind it. -/
theorem tokensFrom_lexeme {c : Char} {more rest : List Char} {next : Lexeme}
    (hblank : Text.isBlank c = false) (hread : lexeme c (more ++ rest) = .ok ⟨next, c :: more, rest⟩)
    (offset : Nat) :
    tokensFrom (c :: (more ++ rest)).length offset (c :: (more ++ rest)) =
      (tokensFrom rest.length (offset + utf8Length (c :: more)) rest).map (⟨next, offset⟩ :: ·) := by
  have hle : rest.length ≤ (more ++ rest).length := by
    rw [List.length_append]
    exact Nat.le_add_left ..
  rw [List.length_cons, tokensFrom, hblank, hread]
  simp only [Bool.false_eq_true, if_false]
  rw [tokensFrom_congr_fuel hle (Nat.le_refl _)]

end Lexer

open Lexer

/-! ## Splitting a text -/

/-- A text that starts at an offset is split into tokens. -/
inductive Splits : Nat → List Char → List Token → Prop where
  | nil {offset : Nat} : Splits offset [] []
  | blank {offset : Nat} {c : Char} {rest : List Char} {tokens : List Token} :
      Text.isBlank c = true → Splits (offset + c.utf8Size) rest tokens →
      Splits offset (c :: rest) tokens
  | token {offset : Nat} {c : Char} {more rest : List Char} {found : Lexeme} {tokens : List Token} :
      Text.isBlank c = false → lexeme c (more ++ rest) = .ok ⟨found, c :: more, rest⟩ →
      Splits (offset + utf8Length (c :: more)) rest tokens →
      Splits offset (c :: (more ++ rest)) (⟨found, offset⟩ :: tokens)

theorem splits_of_tokensFrom {fuel offset : Nat} {cs : List Char} {tokens : List Token}
    (hfuel : cs.length ≤ fuel) (h : tokensFrom fuel offset cs = .ok tokens) :
    Splits offset cs tokens := by
  induction fuel generalizing offset cs tokens with
  | zero =>
    cases List.length_eq_zero_iff.mp (Nat.le_zero.mp hfuel)
    cases h
    exact .nil
  | succ fuel ih =>
    cases cs with
    | nil =>
      cases h
      exact .nil
    | cons c cs =>
      rw [List.length_cons] at hfuel
      rw [tokensFrom] at h
      split at h
      next hblank => exact .blank hblank (ih (Nat.le_of_succ_le_succ hfuel) h)
      next hblank =>
        split at h
        next => cases h
        next reading hreading =>
          obtain ⟨found, spelling, rest⟩ := reading
          obtain ⟨more, rfl, rfl⟩ := exists_eq_append_of_lexeme hreading
          cases hmore : tokensFrom fuel (offset + utf8Length (c :: more)) rest with
          | error fault =>
            rw [hmore] at h
            cases h
          | ok tokens =>
            rw [hmore] at h
            cases h
            rw [List.length_append] at hfuel
            exact .token (Bool.eq_false_iff.mpr hblank) hreading (ih (by omega) hmore)

theorem Splits.tokensFrom_eq {offset : Nat} {cs : List Char} {tokens : List Token}
    (h : Splits offset cs tokens) : tokensFrom cs.length offset cs = .ok tokens := by
  induction h with
  | nil => rfl
  | blank hblank _ ih => rw [tokensFrom_blank hblank, ih]
  | token hblank hread _ ih => rw [tokensFrom_lexeme hblank hread, ih, Except.map]

/-- The tokens of a source are those that it is split into. -/
theorem tokenize_eq_ok_iff {source : List Char} {tokens : List Token} :
    tokenize source = .ok tokens ↔ Splits 0 source tokens :=
  ⟨splits_of_tokensFrom (Nat.le_refl _), Splits.tokensFrom_eq⟩

namespace Splits

variable {offset : Nat} {cs before rest : List Char} {tokens here later : List Token}

theorem unique {other : List Token} (h : Splits offset cs tokens) (h' : Splits offset cs other) :
    tokens = other :=
  Except.ok.inj (h.tokensFrom_eq.symm.trans h'.tokensFrom_eq)

/-- A text moves with its tokens. -/
theorem moved (h : Splits offset cs tokens) (distance : Nat) :
    Splits (offset + distance) cs
      (tokens.map fun token => ⟨token.lexeme, token.offset + distance⟩) := by
  induction h with
  | nil => exact .nil
  | blank hblank _ ih =>
    rw [Nat.add_right_comm] at ih
    exact .blank hblank ih
  | token hblank hread _ ih =>
    rw [Nat.add_right_comm] at ih
    exact .token hblank hread ih

/-- White space in front of a text only moves it. -/
theorem blanks_append {gap : List Char} (hgap : ∀ c ∈ gap, Text.isBlank c = true)
    (h : Splits (offset + utf8Length gap) cs tokens) : Splits offset (gap ++ cs) tokens := by
  induction gap generalizing offset with
  | nil => exact h
  | cons c gap ih =>
    obtain ⟨hblank, hgap⟩ := List.forall_mem_cons.mp hgap
    rw [utf8Length, ← Nat.add_assoc] at h
    exact .blank hblank (ih hgap h)

theorem le_offset (h : Splits offset cs tokens) : ∀ token ∈ tokens, offset ≤ token.offset := by
  induction h with
  | nil => simp
  | blank _ _ ih => exact fun token hmem => Nat.le_trans (Nat.le_add_right ..) (ih token hmem)
  | token _ _ _ ih =>
    exact List.forall_mem_cons.mpr
      ⟨Nat.le_refl _, fun token hmem => Nat.le_trans (Nat.le_add_right ..) (ih token hmem)⟩

/-- The offsets of tokens increase. -/
theorem pairwise_offset (h : Splits offset cs tokens) :
    (tokens.map Token.offset).Pairwise (· < ·) := by
  induction h with
  | nil => exact .nil
  | blank _ _ ih => exact ih
  | @token offset c more rest found tokens _ _ hmore ih =>
    refine .cons ?_ ih
    intro other hother
    obtain ⟨token, hmem, rfl⟩ := List.mem_map.mp hother
    have hpos := utf8Length_cons_pos c more
    have hle := hmore.le_offset token hmem
    show offset < token.offset
    omega

/-! ## The text from a token on -/

/-- What is left to be split at some of the tokens is the source from there on. -/
theorem of_suffix (h : Splits (utf8Length before) cs tokens) (hhere : here <:+ tokens)
    (hne : here ≠ []) : ∃ skipped, cs = skipped ++ Source.textAt (before ++ cs) here ∧
      Splits (utf8Length (before ++ skipped)) (Source.textAt (before ++ cs) here) here := by
  generalize hoffset : utf8Length before = offset at h
  induction h generalizing before with
  | nil => exact absurd (List.suffix_nil.mp hhere) hne
  | @blank offset c rest tokens hblank h ih =>
    have hnext : utf8Length (before ++ [c]) = offset + c.utf8Size := by
      rw [utf8Length_append, hoffset]
      rfl
    obtain ⟨skipped, hskipped, hsplits⟩ := ih hhere hnext
    rw [List.append_assoc, List.singleton_append] at hskipped hsplits
    exact ⟨c :: skipped, by rw [List.cons_append, ← hskipped], by simpa using hsplits⟩
  | @token offset c more rest found tokens hblank hread h ih =>
    obtain rfl | hhere := List.suffix_cons_iff.mp hhere
    · have htext : Source.textAt (before ++ c :: (more ++ rest)) (⟨found, offset⟩ :: tokens) =
          c :: (more ++ rest) := by
        rw [Source.textAt, ← hoffset, Source.dropBytes_append]
      have hplace : utf8Length (before ++ []) = offset := by rw [List.append_nil, hoffset]
      rw [htext]
      exact ⟨[], rfl, hplace.symm ▸ .token hblank hread h⟩
    · have hnext : utf8Length (before ++ c :: more) = offset + utf8Length (c :: more) := by
        rw [utf8Length_append, hoffset]
      obtain ⟨skipped, hskipped, hsplits⟩ := ih hhere hnext
      rw [List.append_assoc, List.cons_append] at hskipped hsplits
      exact ⟨c :: (more ++ skipped), by rw [List.cons_append, List.append_assoc, ← hskipped],
        by simpa using hsplits⟩

variable {source : List Char}

/-- Going on to later tokens skips some of the source. -/
theorem exists_skipped (h : Splits 0 source tokens) (hhere : here <:+ tokens)
    (hlater : later <:+ here) : ∃ skipped, (skipped = [] → later = here) ∧
      Source.textAt source here = skipped ++ Source.textAt source later := by
  by_cases hne : here = []
  · subst hne
    cases List.suffix_nil.mp hlater
    exact ⟨[], fun _ => rfl, rfl⟩
  have hstart : Splits (utf8Length []) source tokens := h
  obtain ⟨front, hfront, hsplits⟩ := hstart.of_suffix hhere hne
  simp only [List.nil_append] at hfront hsplits
  by_cases hend : later = []
  · subst hend
    refine ⟨Source.textAt source here, fun hnil => ?_, (List.append_nil _).symm⟩
    rw [hnil] at hsplits
    exact hsplits.unique .nil |>.symm
  · obtain ⟨skipped, hskipped, hlaterSplits⟩ := of_suffix hsplits hlater hend
    rw [← hfront] at hskipped hlaterSplits
    refine ⟨skipped, fun hnil => ?_, hskipped⟩
    rw [hnil, List.nil_append] at hskipped
    rw [hnil, List.append_nil, ← hskipped] at hlaterSplits
    exact hlaterSplits.unique hsplits

/-- From later tokens on a source is shorter. -/
theorem length_textAt_lt (h : Splits 0 source tokens) (hhere : here <:+ tokens)
    (hlater : later <:+ here) (hne : later ≠ here) :
    (Source.textAt source later).length < (Source.textAt source here).length := by
  obtain ⟨skipped, hnil, htext⟩ := h.exists_skipped hhere hlater
  have hpos := List.length_pos_iff.mpr (mt hnil hne)
  rw [htext, List.length_append]
  omega

theorem textAt_suffix (h : Splits 0 source tokens) (hhere : here <:+ tokens)
    (hlater : later <:+ here) : Source.textAt source later <:+ Source.textAt source here := by
  obtain ⟨skipped, _, htext⟩ := h.exists_skipped hhere hlater
  exact ⟨skipped, htext.symm⟩

/-- The text from a token on tells the token. -/
theorem textAt_injective (h : Splits 0 source tokens) (hhere : here <:+ tokens)
    (hlater : later <:+ tokens) (htext : Source.textAt source here = Source.textAt source later) :
    here = later := by
  refine Decidable.byContradiction fun hne => ?_
  obtain hsuffix | hsuffix := List.suffix_or_suffix_of_suffix hhere hlater
  · have hlt := h.length_textAt_lt hlater hsuffix hne
    rw [htext] at hlt
    exact Nat.lt_irrefl _ hlt
  · have hlt := h.length_textAt_lt hhere hsuffix (Ne.symm hne)
    rw [htext] at hlt
    exact Nat.lt_irrefl _ hlt

end Splits

end TableQuery
