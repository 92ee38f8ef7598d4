import TableQuery.Proofs.Query.Parsing
import TableQuery.Proofs.Query.Splitting

/-!
# White space between tokens

White space put between two tokens changes where tokens stand and nothing else
(`parse_insert_blanks`).  Where it is put may be any place that lies inside no token
(`IsBoundary`).

How a lexeme is read depends on what stands behind it, for a few characters at most: a comparison operator
or a word may go on, and a point or an exponent belongs to a number only if digits follow.  None of the
characters looked at is white space or a bracket or a comma (`separates`).  So a lexeme is read alike
in front of a text and of another one that opens like it up to the first such character
(`lexeme_of_opensLike`), and white space put into a text makes one that opens like it
(`OpensLike.insert`).
-/

namespace TableQuery

namespace Lexer

/-! ## Characters that end a lexeme -/

/-- Whether a character ends every lexeme in front of it. -/
def separates (c : Char) : Bool := Text.isBlank c || ['(', ')', '[', ']', ','].contains c

theorem separates_of_isBlank {c : Char} (h : Text.isBlank c = true) : separates c = true := by
  rw [separates, h, Bool.true_or]

theorem not_separates_of_mem {c : Char} (h : c ∈ ['.', '=', '>', 'e', 'E', '+', '-']) :
    separates c = false := by
  have hall : ∀ c ∈ ['.', '=', '>', 'e', 'E', '+', '-'], (!separates c) = true :=
    List.all_eq_true.mp (by decide +kernel)
  simpa using hall c h

/-- A class has no separators if it has no white space and none of the marks. -/
theorem not_separates_of_class {p : Char → Bool} {c : Char}
    (hblank : ∀ c, Text.isBlank c = true → p c = false)
    (hmarks : ['(', ')', '[', ']', ','].all (fun c => !p c) = true) (h : p c = true) :
    separates c = false := by
  cases hseparates : separates c with
  | false => rfl
  | true =>
    rw [separates, Bool.or_eq_true, List.contains_iff_mem] at hseparates
    obtain hspace | hmark := hseparates
    · cases h.symm.trans (hblank c hspace)
    · simpa [h] using List.all_eq_true.mp hmarks c hmark

theorem not_separates_of_continuesWord {c : Char} (h : continuesWord c = true) :
    separates c = false :=
  not_separates_of_class (fun _ => continuesWord_of_isBlank) (by decide +kernel) h

theorem not_separates_of_isDigit {c : Char} (h : c.isDigit = true) : separates c = false := by
  refine not_separates_of_class (fun c hspace => ?_) (by decide) h
  exact Bool.eq_false_iff.mpr fun hdigit => by cases (isBlank_of_isDigit hdigit).symm.trans hspace

/-! ## Texts that open alike -/

/-- What one text starts with up to its first separator, another one starts with too. -/
def OpensLike (other rest : List Char) : Prop := other.takeWhile (fun c => !separates c) <+: rest

namespace OpensLike

variable {other rest : List Char}

theorem of_prefix {front : List Char} (h : OpensLike other rest) (hfront : front <+: other)
    (hnone : ∀ c ∈ front, separates c = false) : front <+: rest := by
  obtain ⟨behind, rfl⟩ := hfront
  refine List.IsPrefix.trans ?_ h
  rw [List.takeWhile_append_of_pos (by simpa using hnone)]
  exact List.prefix_append ..

theorem head? (h : OpensLike other rest) {c : Char} (hc : other.head? = some c) :
    separates c = true ∨ rest.head? = some c := by
  cases hseparates : separates c with
  | true => exact .inl rfl
  | false =>
    obtain ⟨behind, rfl⟩ := List.head?_eq_some_iff.mp hc
    have hfront : [c] <+: c :: behind := ⟨behind, rfl⟩
    obtain ⟨tail, rfl⟩ := h.of_prefix hfront (by simpa using hseparates)
    exact .inr rfl

/-- White space put into a text. -/
theorem insert {gap : List Char} (hgap : ∀ c ∈ gap, Text.isBlank c = true) (front behind : List Char) :
    OpensLike (front ++ (gap ++ behind)) (front ++ behind) := by
  cases gap with
  | nil => exact List.takeWhile_prefix _
  | cons blank gap =>
    have hstop : (blank :: gap ++ behind).takeWhile (fun c => !separates c) = [] := by
      simp [separates_of_isBlank (hgap blank (List.mem_cons_self ..))]
    rw [OpensLike, List.takeWhile_append, hstop, List.append_nil]
    split
    next => exact List.prefix_append ..
    next => exact (List.takeWhile_prefix _).trans (List.prefix_append ..)

/-- A class without separators stops where it did. -/
theorem stops (h : OpensLike other rest) {p : Char → Bool} (hp : ∀ c, p c = true → separates c = false)
    (hrest : ∀ c, rest.head? = some c → p c = false) :
    ∀ c, other.head? = some c → p c = false := by
  intro c hc
  obtain hseparates | hhead := h.head? hc
  · cases hclass : p c with
    | false => rfl
    | true => cases hseparates.symm.trans (hp c hclass)
  · exact hrest c hhead

theorem append_left (h : OpensLike other rest) (front : List Char) :
    OpensLike (front ++ other) (front ++ rest) := by
  rw [OpensLike, List.takeWhile_append]
  split
  next => exact List.prefix_append_right_inj front |>.mpr h
  next => exact (List.takeWhile_prefix _).trans (List.prefix_append ..)

end OpensLike

/-! ## Lexemes in front of texts that open alike -/

variable {other rest : List Char}

/-- A class without separators is taken from the front alike. -/
theorem takeWhile_of_opensLike {p : Char → Bool} {front : List Char}
    (h : OpensLike other rest) (hp : ∀ c, p c = true → separates c = false)
    (htake : (front ++ rest).takeWhile p = front) :
    (front ++ other).takeWhile p = front ∧ (front ++ other).dropWhile p = other := by
  have hfront : ∀ c ∈ front, p c = true := by
    rw [← htake]
    exact List.all_eq_true.mp List.all_takeWhile
  refine Decimal.takeWhile_append_of_stop hfront (h.stops hp fun c hc => ?_)
  obtain ⟨tail, rfl⟩ := List.head?_eq_some_iff.mp hc
  cases hclass : p c with
  | false => rfl
  | true => simp [List.takeWhile_append_of_pos hfront, hclass] at htake

theorem splitDigits_of_opensLike {digits : List Char} (h : OpensLike other rest)
    (hsplit : Decimal.splitDigits (digits ++ rest) = (digits, rest)) :
    Decimal.splitDigits (digits ++ other) = (digits, other) := by
  obtain ⟨htake, hdrop⟩ := takeWhile_of_opensLike h (fun _ => not_separates_of_isDigit)
    (Prod.mk.inj hsplit).1
  rw [Decimal.splitDigits, htake, hdrop]

theorem exists_digit_of_splitDigits {cs : List Char} (h : (Decimal.splitDigits cs).1.isEmpty = false) :
    ∃ digit more, cs = digit :: more ∧ digit.isDigit = true := by
  cases cs with
  | nil => cases h
  | cons digit more =>
    refine ⟨digit, more, rfl, ?_⟩
    cases hdigit : digit.isDigit with
    | true => rfl
    | false => simp [Decimal.splitDigits, hdigit] at h

theorem fractionSpan_of_opensLike {fraction : List Char} (h : OpensLike other rest)
    (hspan : fractionSpan (fraction ++ rest) = (fraction, rest)) :
    fractionSpan (fraction ++ other) = (fraction, other) := by
  cases fraction with
  | nil =>
    rw [List.nil_append] at hspan ⊢
    match other with
    | [] => rfl
    | c :: tail =>
      by_cases hpoint : c = '.'
      · subst hpoint
        cases hempty : (Decimal.splitDigits tail).1.isEmpty with
        | true => simp [fractionSpan, hempty]
        | false =>
          -- the point and the digit behind it would be a fraction of the one text as well
          obtain ⟨digit, more, rfl, hdigit⟩ := exists_digit_of_splitDigits hempty
          have hfront : ['.', digit] <+: '.' :: digit :: more := ⟨more, rfl⟩
          obtain ⟨behind, rfl⟩ := h.of_prefix hfront
            (by simp [not_separates_of_isDigit hdigit, not_separates_of_mem])
          simp [fractionSpan, Decimal.splitDigits, hdigit] at hspan
      · simp [fractionSpan, hpoint]
  | cons point digits =>
    rw [List.cons_append] at hspan ⊢
    by_cases hpoint : point = '.'
    · subst hpoint
      rw [fractionSpan] at hspan ⊢
      simp only at hspan ⊢
      split at hspan
      next => cases congrArg Prod.fst hspan
      next hdigits =>
        obtain ⟨hfraction, hrest⟩ := Prod.mk.inj hspan
        have hsplit : Decimal.splitDigits (digits ++ rest) = (digits, rest) :=
          Prod.ext (List.cons.inj hfraction).2 hrest
        rw [hsplit] at hdigits
        rw [splitDigits_of_opensLike h hsplit, if_neg hdigits]
    · simp [fractionSpan, hpoint] at hspan

theorem of_mem_exponentSign {cs : List Char} {c : Char} (h : c ∈ (exponentSign cs).1) :
    c = '+' ∨ c = '-' := by
  unfold exponentSign at h
  split at h
  next => exact .inl (List.mem_singleton.mp h)
  next => exact .inr (List.mem_singleton.mp h)
  next => cases h

/-- A sign stays in front of digits. -/
theorem exponentSign_append {cs more : List Char} {digit : Char} (hdigit : digit.isDigit = true)
    (h : (exponentSign cs).2 = digit :: more) (behind : List Char) :
    exponentSign ((exponentSign cs).1 ++ digit :: behind) =
      ((exponentSign cs).1, digit :: behind) := by
  have hne : digit ≠ '+' ∧ digit ≠ '-' := by
    constructor <;> (rintro rfl; cases hdigit)
  unfold exponentSign at h ⊢
  split at h
  next => rfl
  next => rfl
  next => simp [hne]

theorem exponentSpan_of_opensLike {exponent : List Char} (h : OpensLike other rest)
    (hspan : exponentSpan (exponent ++ rest) = (exponent, rest)) :
    exponentSpan (exponent ++ other) = (exponent, other) := by
  cases exponent with
  | nil =>
    rw [List.nil_append] at hspan ⊢
    match other with
    | [] => rfl
    | mark :: tail =>
      by_cases hmark : mark = 'e' ∨ mark = 'E'
      · cases hempty : (Decimal.splitDigits (exponentSign tail).2).1.isEmpty with
        | true => simp [exponentSpan, hempty]
        | false =>
          -- so would the mark, the sign and the digit be an exponent of the one text as well
          obtain ⟨digit, more, hmore, hdigit⟩ := exists_digit_of_splitDigits hempty
          have htail : (exponentSign tail).1 ++ digit :: more = tail := by
            rw [← hmore, append_exponentSign]
          have hfront : mark :: ((exponentSign tail).1 ++ [digit]) <+: mark :: tail :=
            ⟨more, by simp [htail]⟩
          have hnone : ∀ c ∈ mark :: ((exponentSign tail).1 ++ [digit]), separates c = false := by
            intro c hc
            simp only [List.mem_cons, List.mem_append, List.not_mem_nil, or_false] at hc
            obtain rfl | hsign | rfl := hc
            · obtain rfl | rfl := hmark <;> exact not_separates_of_mem (by decide)
            · obtain rfl | rfl := of_mem_exponentSign hsign <;> exact not_separates_of_mem (by decide)
            · exact not_separates_of_isDigit hdigit
          obtain ⟨behind, rfl⟩ := h.of_prefix hfront hnone
          simp [exponentSpan, hmark, exponentSign_append hdigit hmore, Decimal.splitDigits, hdigit]
            at hspan
      · simp [exponentSpan, hmark]
  | cons mark more =>
    rw [List.cons_append] at hspan ⊢
    by_cases hmark : mark = 'e' ∨ mark = 'E'
    · simp only [exponentSpan, if_pos hmark] at hspan ⊢
      split at hspan
      next => cases congrArg Prod.fst hspan
      next hdigits =>
        rw [Bool.not_eq_true] at hdigits
        obtain ⟨digit, tail, htail, hdigit⟩ := exists_digit_of_splitDigits hdigits
        obtain ⟨hexponent, hrest⟩ := Prod.mk.inj hspan
        rw [htail] at hexponent hrest
        have hmore := (List.cons.inj hexponent).2
        have hfirst : (Decimal.splitDigits (digit :: tail)).1 =
            digit :: (Decimal.splitDigits tail).1 := by simp [Decimal.splitDigits, hdigit]
        have hsplit : Decimal.splitDigits (digit :: (Decimal.splitDigits tail).1 ++ rest) =
            (digit :: (Decimal.splitDigits tail).1, rest) := by
          rw [← hfirst, ← hrest, Decimal.splitDigits_append]
        rw [hfirst] at hmore
        have hsign := exponentSign_append hdigit htail ((Decimal.splitDigits tail).1 ++ other)
        rw [← List.cons_append, ← List.append_assoc, hmore] at hsign
        rw [hsign]
        simp only
        rw [splitDigits_of_opensLike h hsplit]
        simp [hmore]
    · simp [exponentSpan, hmark] at hspan

/-- A number is read alike, whether it is given with its sign or without. -/
theorem number_of_opensLike {negative : Bool} {digits : List Char} {found : Lexeme}
    (h : OpensLike other rest)
    (hread : number negative (digits ++ rest) = ⟨found, Decimal.signed negative digits, rest⟩) :
    number negative (digits ++ other) = ⟨found, Decimal.signed negative digits, other⟩ := by
  obtain ⟨⟨whole, afterWhole⟩, hwhole⟩ : ∃ parts, Decimal.splitDigits (digits ++ rest) = parts :=
    ⟨_, rfl⟩
  obtain ⟨⟨fraction, afterFraction⟩, hfraction⟩ : ∃ parts, fractionSpan afterWhole = parts := ⟨_, rfl⟩
  obtain ⟨⟨exponent, behind⟩, hexponent⟩ : ∃ parts, exponentSpan afterFraction = parts := ⟨_, rfl⟩
  simp only [number, hwhole, hfraction, hexponent, Reading.mk.injEq] at hread
  obtain ⟨hfound, hspelling, rfl⟩ := hread
  rw [hspelling] at hfound
  -- the three parts stand behind each other, so each of them can be read again
  have hafterFraction := append_exponentSpan afterFraction
  rw [hexponent] at hafterFraction
  subst hafterFraction
  have hafterWhole := append_fractionSpan afterWhole
  rw [hfraction] at hafterWhole
  subst hafterWhole
  have hdigits := Decimal.splitDigits_append (digits ++ behind)
  rw [hwhole] at hdigits
  simp only at hdigits hfraction hexponent
  obtain rfl : digits = whole ++ (fraction ++ exponent) := by
    rw [← List.append_cancel_right_eq _ behind, ← hdigits]
    simp
  simp only [List.append_assoc] at hwhole ⊢
  have hwhole' := splitDigits_of_opensLike ((h.append_left exponent).append_left fraction) hwhole
  have hfraction' := fractionSpan_of_opensLike (h.append_left exponent) hfraction
  have hexponent' := exponentSpan_of_opensLike h hexponent
  simp only [number, hwhole', hfraction', hexponent', hspelling, hfound]

theorem comparator?_of_opensLike {c : Char} {more : List Char} {found : Lexeme}
    (h : OpensLike other rest)
    (hread : comparator? (c :: (more ++ rest)) = some ⟨found, c :: more, rest⟩) :
    comparator? (c :: (more ++ other)) = some ⟨found, c :: more, other⟩ := by
  -- an operator of one character is one because neither `=` nor `>` stands behind it
  have hends : ∀ {mark : Char}, mark ∈ ['=', '>'] → (∀ tail, rest ≠ mark :: tail) →
      ∀ c, other.head? = some c → c ≠ mark := by
    rintro mark hmark hrest _ hc rfl
    obtain hseparates | hhead := h.head? hc
    · cases hseparates.symm.trans (not_separates_of_mem (by simp at hmark ⊢; tauto))
    · obtain ⟨behind, hbehind⟩ := List.head?_eq_some_iff.mp hhead
      exact hrest behind hbehind
  unfold comparator? at hread
  split at hread
  all_goals
    rename_i heq
    cases hread
  next => rfl
  next => rfl
  next => rfl
  next => rfl
  next hequal hgreater =>
    cases other with
    | nil => rfl
    | cons c tail =>
      have hne := hends (by decide) hequal c rfl
      have hne' := hends (by decide) hgreater c rfl
      simp [comparator?, hne, hne']
  next hequal =>
    cases other with
    | nil => rfl
    | cons c tail =>
      have hne := hends (by decide) hequal c rfl
      simp [comparator?, hne]

/-- Where a string literal ends does not depend on what stands behind it. -/
theorem stringLiteral?_append {more : List Char} {found : Lexeme} (other : List Char)
    (hread : stringLiteral? (more ++ rest) = some ⟨found, '"' :: more, rest⟩) :
    stringLiteral? (more ++ other) = some ⟨found, '"' :: more, other⟩ := by
  obtain ⟨written, value, hspells, hfound, hspelling, -⟩ := exists_spells_of_stringLiteral? hread
  cases hfound
  cases hspelling
  rw [← List.append_cons]
  exact stringLiteral?_spells hspells other

/-- A lexeme is read alike in front of a text that opens like the one behind it. -/
theorem lexeme_of_opensLike {c : Char} {more : List Char} {found : Lexeme} (h : OpensLike other rest)
    (hread : lexeme c (more ++ rest) = .ok ⟨found, c :: more, rest⟩) :
    lexeme c (more ++ other) = .ok ⟨found, c :: more, other⟩ := by
  generalize hreading : (⟨found, c :: more, rest⟩ : Reading) = reading at hread
  cases readsFirst_of_lexeme hread with
  | single hsingle =>
    obtain ⟨rfl, hspelling, -⟩ := Reading.mk.inj hreading
    cases hspelling
    simp [lexeme, hsingle]
  | comparator hcomparator =>
    subst hreading
    have hother := comparator?_of_opensLike h hcomparator
    have hmark : c ∈ ['<', '>', '!'] := by
      refine Decidable.byContradiction fun hmark => ?_
      cases (comparator?_eq_none hmark _).symm.trans hcomparator
    have hsingle : single? c = none := by
      have hnone : ∀ c ∈ ['<', '>', '!'], (single? c).isNone = true :=
        List.all_eq_true.mp (by decide)
      exact Option.isNone_iff_eq_none.mp (hnone c hmark)
    simp [lexeme, hsingle, hother]
  | text hquote hliteral =>
    subst hreading hquote
    simp [lexeme, single?, comparator?, stringLiteral?_append other hliteral]
  | number hdigit =>
    have hnumber : number false (c :: more ++ rest) = ⟨found, Decimal.signed false (c :: more), rest⟩ :=
      hreading.symm
    rw [lexeme_of_isDigit hdigit, ← List.cons_append, number_of_opensLike h hnumber]
    rfl
  | negative hminus hdigit =>
    subst hminus
    have hnumber : Lexer.number true (more ++ rest) = ⟨found, Decimal.signed true more, rest⟩ :=
      hreading.symm
    cases more with
    | nil =>
      -- the digit behind the minus sign belongs to the number
      cases rest with
      | nil => cases hdigit
      | cons digit rest =>
        have hfirst : digit.isDigit = true := hdigit
        simp [Lexer.number, Decimal.splitDigits, hfirst, Decimal.signed] at hnumber
    | cons digit more =>
      have hfirst : digit.isDigit = true := hdigit
      rw [List.cons_append, lexeme_minus hfirst, ← List.cons_append, number_of_opensLike h hnumber]
      rfl
  | word hstarts =>
    obtain ⟨rfl, hspelling, -⟩ := Reading.mk.inj hreading
    rw [← List.cons_append] at hspelling
    obtain ⟨htake, hdrop⟩ := takeWhile_of_opensLike h (fun _ => not_separates_of_continuesWord)
      hspelling.symm
    rw [lexeme_of_startsWord hstarts, Lexer.word, ← List.cons_append, htake, hdrop, ← List.cons_append,
      ← hspelling]

end Lexer

open Lexer

/-! ## Places between tokens -/

/-- Where a token of a source ends, in bytes from the front. -/
def Token.stop (source : List Char) (token : Token) : Nat :=
  match Source.dropBytes token.offset source with
  | [] => token.offset
  | c :: rest =>
    match Lexer.lexeme c rest with
    | .ok reading => token.offset + utf8Length reading.spelling
    | .error _ => token.offset

/-- Whether a place in a source lies inside no token: each token starts there or later, or it ends there or
earlier. -/
def IsBoundary (source : List Char) (tokens : List Token) (place : Nat) : Prop :=
  ∀ token ∈ tokens, place ≤ token.offset ∨ token.stop source ≤ place

instance (source : List Char) (tokens : List Token) (place : Nat) :
    Decidable (IsBoundary source tokens place) :=
  inferInstanceAs (Decidable (∀ token ∈ tokens, place ≤ token.offset ∨ token.stop source ≤ place))

theorem Token.stop_of_lexeme {start : List Char} {c : Char} {cs : List Char} {reading : Reading}
    (h : Lexer.lexeme c cs = .ok reading) (found : Lexeme) :
    stop (start ++ c :: cs) ⟨found, utf8Length start⟩ = utf8Length start + utf8Length reading.spelling := by
  simp only [stop, Source.dropBytes_append, h]

namespace Splits

variable {offset : Nat} {cs start before after gap : List Char} {tokens : List Token}

/-- A token ends before the next one starts. -/
theorem pairwise_stop (h : Splits (utf8Length start) cs tokens) :
    tokens.Pairwise fun token later => token.stop (start ++ cs) ≤ later.offset := by
  generalize hoffset : utf8Length start = offset at h
  induction h generalizing start with
  | nil => exact .nil
  | @blank offset c rest tokens _ _ ih =>
    have hnext : utf8Length (start ++ [c]) = offset + c.utf8Size := by simp [utf8Length, hoffset]
    simpa using ih hnext
  | @token offset c more rest found tokens _ hread h ih =>
    have hnext : utf8Length (start ++ c :: more) = offset + utf8Length (c :: more) := by simp [hoffset]
    have htail := ih hnext
    rw [List.append_assoc, List.cons_append] at htail
    refine .cons (fun later hlater => ?_) htail
    rw [← hoffset, Token.stop_of_lexeme hread, hoffset]
    exact h.le_offset later hlater

/-- Both ends of every token are boundaries. -/
theorem isBoundary (h : Splits 0 cs tokens) {token : Token} (hmem : token ∈ tokens) :
    IsBoundary cs tokens token.offset ∧ IsBoundary cs tokens (token.stop cs) := by
  have hstart : Splits (utf8Length []) cs tokens := h
  have hle : token.offset ≤ token.stop cs := by
    unfold Token.stop
    repeat' split
    all_goals omega
  obtain ⟨front, back, rfl⟩ := List.append_of_mem hmem
  obtain ⟨-, hback, hfront⟩ := List.pairwise_append.mp hstart.pairwise_stop
  obtain ⟨hback, -⟩ := List.pairwise_cons.mp hback
  simp only [IsBoundary, List.forall_mem_append, List.forall_mem_cons]
  refine ⟨⟨fun other hother => ?_, ?_, fun other hother => ?_⟩,
    fun other hother => ?_, ?_, fun other hother => ?_⟩
  · exact .inr (hfront other hother token (List.mem_cons_self ..))
  · exact .inl (Nat.le_refl _)
  · exact .inl (Nat.le_trans hle (hback other hother))
  · exact .inr (Nat.le_trans (hfront other hother token (List.mem_cons_self ..)) hle)
  · exact .inr (Nat.le_refl _)
  · exact .inl (hback other hother)

theorem exists_splits_blanks_append (hgap : ∀ c ∈ gap, Text.isBlank c = true)
    (h : Splits offset cs tokens) :
    ∃ spread, Splits offset (gap ++ cs) spread ∧ lexemes spread = lexemes tokens :=
  ⟨_, blanks_append hgap (h.moved (utf8Length gap)), by simp [lexemes, Function.comp_def]⟩

/-- White space put at a boundary keeps the lexemes. -/
theorem exists_splits_insert (hgap : ∀ c ∈ gap, Text.isBlank c = true)
    (h : Splits (utf8Length start) (before ++ after) tokens)
    (hplace : IsBoundary (start ++ (before ++ after)) tokens (utf8Length (start ++ before))) :
    ∃ spread, Splits (utf8Length start) (before ++ (gap ++ after)) spread ∧
      lexemes spread = lexemes tokens := by
  generalize hoffset : utf8Length start = offset at h
  generalize hcs : before ++ after = cs at h hplace
  induction h generalizing start before with
  | nil =>
    obtain ⟨rfl, rfl⟩ := List.append_eq_nil_iff.mp hcs
    rw [List.nil_append]
    exact exists_splits_blanks_append hgap .nil
  | @blank offset c rest tokens hblank h ih =>
    cases before with
    | nil =>
      cases hcs
      rw [List.nil_append]
      exact exists_splits_blanks_append hgap (.blank hblank h)
    | cons first before =>
      obtain ⟨rfl, hrest⟩ := List.cons.inj hcs
      have hstart : ∀ behind, start ++ first :: behind = start ++ [first] ++ behind := by simp
      rw [hstart rest, hstart before] at hplace
      have hnext : utf8Length (start ++ [first]) = offset + first.utf8Size := by simp [utf8Length, hoffset]
      obtain ⟨spread, hspread, hlexemes⟩ := ih hnext hrest hplace
      exact ⟨spread, .blank hblank hspread, hlexemes⟩
  | @token offset c more rest found tokens hblank hread h ih =>
    cases before with
    | nil =>
      cases hcs
      rw [List.nil_append]
      exact exists_splits_blanks_append hgap (.token hblank hread h)
    | cons first before =>
      obtain ⟨rfl, hsame⟩ := List.cons.inj hcs
      obtain ⟨hfirst, hplace⟩ := List.forall_mem_cons.mp hplace
      -- the place is not in front of this token, so the token ends there or earlier
      have hle : utf8Length more ≤ utf8Length before := by
        have hpos := utf8Length_cons_pos first before
        rw [← hoffset, Token.stop_of_lexeme hread, utf8Length_append] at hfirst
        simp only [utf8Length] at hfirst hpos
        omega
      obtain ⟨between, rfl, rfl⟩ := exists_eq_append_of_utf8Length_le hsame.symm hle
      have hstart : ∀ behind, start ++ first :: (more ++ behind) = start ++ first :: more ++ behind := by
        simp
      rw [hstart (between ++ after), hstart between] at hplace
      have hnext : utf8Length (start ++ first :: more) = offset + utf8Length (first :: more) := by
        simp [hoffset]
      obtain ⟨spread, hspread, hlexemes⟩ := ih hnext rfl hplace
      have hinsert := lexeme_of_opensLike (.insert hgap between after) hread
      refine ⟨⟨found, offset⟩ :: spread, ?_, by rw [lexemes_cons, lexemes_cons, hlexemes]⟩
      rw [List.cons_append, List.append_assoc]
      exact .token hblank hinsert hspread

end Splits

/-! ## Sources -/

/-- White space put between two tokens of a source, in front of them or behind them, changes no lexeme and
not what the source is parsed as. -/
theorem parse_insert_blanks {before after gap : List Char} {tokens : List Token}
    (htokens : tokenize (before ++ after) = .ok tokens)
    (hplace : IsBoundary (before ++ after) tokens (utf8Length before))
    (hgap : ∀ c ∈ gap, Text.isBlank c = true) :
    ∃ spread, tokenize (before ++ gap ++ after) = .ok spread ∧ lexemes spread = lexemes tokens ∧
      (spread.map Token.offset).Pairwise (· < ·) ∧
      ∀ knows program, parse knows (String.ofList (before ++ gap ++ after)) = .ok program ↔
        parse knows (String.ofList (before ++ after)) = .ok program := by
  have hstart : Splits (utf8Length []) (before ++ after) tokens := tokenize_eq_ok_iff.mp htokens
  obtain ⟨spread, hspread, hlexemes⟩ := hstart.exists_splits_insert hgap hplace
  rw [← List.append_assoc] at hspread
  have hsource : tokenize (before ++ gap ++ after) = .ok spread := tokenize_eq_ok_iff.mpr hspread
  refine ⟨spread, hsource, hlexemes, hspread.pairwise_offset, fun knows program => ?_⟩
  simp only [parse_eq_ok_iff, String.toList_ofList, hsource, htokens, Except.ok.injEq,
    exists_eq_left', hlexemes]

/-- An ideographic space and a line feed between the operator `<` and a negative number. -/
theorem parse_insert_blanks_of_touching :
    ∃ tokens spread, tokenize ("select(x<".toList ++ "-7.50,é.s)".toList) = .ok tokens ∧
      IsBoundary ("select(x<".toList ++ "-7.50,é.s)".toList) tokens (utf8Length "select(x<".toList) ∧
      (∀ c ∈ ['\u3000', '\n'], Text.isBlank c = true) ∧
      tokenize ("select(x<".toList ++ ['\u3000', '\n'] ++ "-7.50,é.s)".toList) = .ok spread ∧
      lexemes spread = lexemes tokens ∧ (spread.map Token.offset).Pairwise (· < ·) ∧
      ∀ knows program,
        parse knows (String.ofList ("select(x<".toList ++ ['\u3000', '\n'] ++ "-7.50,é.s)".toList)) =
            .ok program ↔
          parse knows (String.ofList ("select(x<".toList ++ "-7.50,é.s)".toList)) = .ok program := by
  obtain ⟨tokens, htokens, hplace⟩ : ∃ tokens,
      tokenize ("select(x<".toList ++ "-7.50,é.s)".toList) = .ok tokens ∧
      IsBoundary ("select(x<".toList ++ "-7.50,é.s)".toList) tokens (utf8Length "select(x<".toList) := by
    have htokens : tokenize ("select(x<".toList ++ "-7.50,é.s)".toList) =
        .ok [⟨.word "select", 0⟩, ⟨.openParen, 6⟩, ⟨.word "x", 7⟩, ⟨.comparator .less, 8⟩,
          ⟨.number (.number (.double ⟨true, 0x401E000000000000, by decide⟩)), 9⟩, ⟨.comma, 14⟩,
          ⟨.word "é", 15⟩, ⟨.dot, 17⟩, ⟨.word "s", 18⟩, ⟨.closeParen, 19⟩] := by decide +kernel
    exact ⟨_, htokens, by decide +kernel⟩
  have hgap : ∀ c ∈ ['\u3000', '\n'], Text.isBlank c = true := List.all_eq_true.mp (by decide)
  obtain ⟨spread, hspread⟩ := parse_insert_blanks htokens hplace hgap
  exact ⟨tokens, spread, htokens, hplace, hgap, hspread⟩

end TableQuery
