import TableQuery.Proofs.Query.Compile
import TableQuery.Proofs.Query.WhiteSpace

/-!
# A table and its display

A source describes a table expression by itself exactly if the source in `display( )` displays this
expression (`parse_inDisplay`).  Then both compile to the same collection, or fail to build with the
same fault (`compile_inDisplay`).

The tokens of the two texts have to agree although they are read in front of different texts.  In the
one direction this is so because a parenthesis ends every lexeme.  In the other direction the parenthesis
that was put behind the source might belong to an earlier token, as it does in a string literal that the
source leaves open.  But the parser asks for a closing parenthesis as the last token, and only the
character itself is read as one (`Splits.exists_of_append_closeParen`).
-/

namespace TableQuery

open Lexer Grammar

/-! ## A parenthesis behind a text -/

namespace Lexer

/-- Only the character itself is read as a closing parenthesis. -/
theorem eq_of_lexeme_closeParen {c : Char} {cs spelling rest : List Char}
    (h : lexeme c cs = .ok ⟨.closeParen, spelling, rest⟩) : c = ')' ∧ spelling = [')'] := by
  generalize hreading : (⟨.closeParen, spelling, rest⟩ : Reading) = reading at h
  cases readsFirst_of_lexeme h with
  | single hsingle =>
    obtain ⟨rfl, rfl, -⟩ := Reading.mk.inj hreading
    have hc : c = ')' := by grind [single?]
    exact ⟨hc, by rw [hc]⟩
  | comparator hcomparator =>
    subst hreading
    unfold comparator? at hcomparator
    split at hcomparator <;> cases hcomparator
  | text _ hliteral =>
    subst hreading
    unfold stringLiteral? at hliteral
    split at hliteral
    · cases hliteral
    · split at hliteral <;> cases hliteral
  | number => cases hreading
  | negative => cases hreading
  | word => cases hreading

/-- A text opens like the text with a parenthesis behind it, and the other way round. -/
theorem OpensLike.append_closeParen (rest : List Char) :
    OpensLike (rest ++ [')']) rest ∧ OpensLike rest (rest ++ [')']) := by
  refine ⟨?_, (List.takeWhile_prefix _).trans (List.prefix_append ..)⟩
  have hstop : [')'].takeWhile (fun c => !separates c) = [] := rfl
  rw [OpensLike, List.takeWhile_append, hstop, List.append_nil]
  split
  next => exact List.prefix_refl _
  next => exact List.takeWhile_prefix _

end Lexer

namespace Splits

variable {offset : Nat} {cs rest : List Char} {tokens : List Token} {found : List Lexeme}

/-- A text has the same lexemes wherever it starts. -/
theorem exists_splits_at (h : Splits offset cs tokens) (other : Nat) :
    ∃ elsewhere, Splits other cs elsewhere ∧ lexemes elsewhere = lexemes tokens := by
  induction h generalizing other with
  | nil => exact ⟨[], .nil, rfl⟩
  | blank hblank _ ih =>
    obtain ⟨elsewhere, hsplits, hlexemes⟩ := ih _
    exact ⟨elsewhere, .blank hblank hsplits, hlexemes⟩
  | token hblank hread _ ih =>
    obtain ⟨elsewhere, hsplits, hlexemes⟩ := ih _
    exact ⟨_, .token hblank hread hsplits, by rw [lexemes_cons, hlexemes, lexemes_cons]⟩

/-- The lexeme read at the front of a text is its first token. -/
theorem of_lexeme {c : Char} {spelling : List Char} {first : Lexeme} (hblank : Text.isBlank c = false)
    (hread : lexeme c cs = .ok ⟨first, spelling, rest⟩) (h : Splits offset (c :: cs) tokens) :
    ∃ later, tokens = ⟨first, offset⟩ :: later ∧ Splits (offset + utf8Length spelling) rest later := by
  cases h with
  | blank hspace => cases hblank.symm.trans hspace
  | token _ hfound hlater =>
    cases hfound.symm.trans hread
    exact ⟨_, rfl, hlater⟩

/-- A parenthesis behind a text is one more token. -/
theorem append_closeParen (h : Splits offset cs tokens) :
    Splits offset (cs ++ [')']) (tokens ++ [⟨.closeParen, offset + utf8Length cs⟩]) := by
  induction h with
  | @nil offset =>
    have hread : lexeme ')' ([] ++ []) = .ok ⟨.closeParen, [')'], []⟩ := rfl
    exact .token rfl hread .nil
  | blank hblank _ ih =>
    rw [utf8Length, ← Nat.add_assoc]
    exact .blank hblank ih
  | @token offset c more rest _ _ hblank hread _ ih =>
    have hplace : offset + utf8Length (c :: (more ++ rest)) =
        offset + utf8Length (c :: more) + utf8Length rest := by
      rw [← List.cons_append, utf8Length_append, Nat.add_assoc]
    rw [hplace, List.cons_append, List.append_assoc]
    exact .token hblank (lexeme_of_opensLike (OpensLike.append_closeParen rest).1 hread) ih

/-- If the last token of a text with a parenthesis behind it is a closing one, it is this parenthesis,
and the other tokens are those of the text. -/
theorem exists_of_append_closeParen (h : Splits offset (cs ++ [')']) tokens) :
    ∃ front last, tokens = front ++ [last] ∧ (last.lexeme = .closeParen → Splits offset cs front) := by
  generalize hwhole : cs ++ [')'] = whole at h
  induction h generalizing cs with
  | nil => cases List.append_eq_nil_iff.mp hwhole |>.2
  | @blank offset c rest tokens hblank _ ih =>
    cases cs with
    | nil =>
      cases hwhole
      cases hblank
    | cons first behind =>
      cases hwhole
      obtain ⟨front, last, htokens, hlast⟩ := ih rfl
      exact ⟨front, last, htokens, fun hclose => .blank hblank (hlast hclose)⟩
  | @token offset c more rest found tokens hblank hread hlater ih =>
    obtain rfl | ⟨behind, last, rfl⟩ := List.eq_nil_or_concat' rest
    · cases hlater
      refine ⟨[], ⟨found, offset⟩, rfl, fun hclose => ?_⟩
      subst hclose
      obtain ⟨-, hspelling⟩ := eq_of_lexeme_closeParen hread
      rw [List.append_nil, hspelling] at hwhole
      cases List.append_left_eq_self.mp hwhole
      exact .nil
    · rw [← List.append_assoc, ← List.cons_append] at hwhole
      obtain ⟨rfl, hlast⟩ := List.append_inj' hwhole rfl
      cases hlast
      obtain ⟨front, token, rfl, htoken⟩ := ih rfl
      have hfirst := lexeme_of_opensLike (OpensLike.append_closeParen behind).2 hread
      exact ⟨⟨found, offset⟩ :: front, token, rfl, fun hclose => .token hblank hfirst (htoken hclose)⟩

/-- The last lexeme of a text with a parenthesis behind it is a closing one exactly if the others are those
of the text. -/
theorem exists_append_closeParen_iff :
    (∃ tokens, Splits offset (cs ++ [')']) tokens ∧ lexemes tokens = found ++ [.closeParen]) ↔
      ∃ tokens, Splits offset cs tokens ∧ lexemes tokens = found := by
  constructor
  · rintro ⟨tokens, htokens, hlexemes⟩
    obtain ⟨front, last, rfl, hfront⟩ := htokens.exists_of_append_closeParen
    rw [lexemes_append] at hlexemes
    obtain ⟨hfound, hlast⟩ := List.append_inj' hlexemes rfl
    exact ⟨front, hfront (List.head_eq_of_cons_eq hlast), hfound⟩
  · rintro ⟨tokens, htokens, rfl⟩
    exact ⟨_, htokens.append_closeParen, lexemes_append ..⟩

/-- A word and an opening parenthesis in front of a text are two more lexemes. -/
theorem exists_opened_iff {word : String} (hword : isWord word = true) :
    (∃ tokens, Splits offset (word.toList ++ '(' :: cs) tokens ∧
        lexemes tokens = .word word :: .openParen :: found) ↔
      ∃ tokens, Splits offset cs tokens ∧ lexemes tokens = found := by
  obtain ⟨first, more, htext, hfirst, hmore⟩ := exists_cons_of_isWord hword
  have hread := lexeme_word hfirst hmore (endsWord_openParen cs)
  rw [← htext, String.ofList_toList, htext] at hread
  have hopen : lexeme '(' ([] ++ cs) = .ok ⟨.openParen, ['('], cs⟩ := rfl
  have hblank := isBlank_of_startsWord hfirst
  rw [htext, List.cons_append]
  constructor
  · rintro ⟨tokens, htokens, hlexemes⟩
    obtain ⟨later, rfl, hlater⟩ := of_lexeme hblank hread htokens
    obtain ⟨inside, rfl, hinside⟩ := of_lexeme rfl hopen hlater
    obtain ⟨moved, hmoved, hsame⟩ := hinside.exists_splits_at offset
    cases hlexemes
    exact ⟨moved, hmoved, hsame⟩
  · rintro ⟨tokens, htokens, rfl⟩
    obtain ⟨moved, hmoved, hsame⟩ := htokens.exists_splits_at _
    refine ⟨_, .token hblank hread (.token rfl hopen hmoved), ?_⟩
    rw [lexemes_cons, lexemes_cons, hsame]

end Splits

/-! ## A source in a display -/

/-- The source that displays what a source describes. -/
def Source.inDisplay (source : String) : String := "display(" ++ source ++ ")"

/-- Displaying puts three lexemes around those of a source. -/
theorem exists_tokens_inDisplay_iff {source : String} {found : List Lexeme} :
    (∃ tokens, tokenize (Source.inDisplay source).toList = .ok tokens ∧
        lexemes tokens = .word "display" :: .openParen :: (found ++ [.closeParen])) ↔
      ∃ tokens, tokenize source.toList = .ok tokens ∧ lexemes tokens = found := by
  have hword : isWord "display" = true := isWord_keyword "display" (by simp)
  have htext : (Source.inDisplay source).toList =
      "display".toList ++ '(' :: (source.toList ++ [')']) := by
    simp [Source.inDisplay]
  simp only [htext, tokenize_eq_ok_iff]
  rw [Splits.exists_opened_iff hword, Splits.exists_append_closeParen_iff]

/-- A source is a table expression exactly if the source in a display displays it. -/
theorem parse_inDisplay {knows : String → Bool} {source : String} {table : Table} :
    parse knows source = .ok (.table table) ↔
      parse knows (Source.inDisplay source) = .ok (.display table) := by
  rw [parse_eq_ok_iff, parse_eq_ok_iff]
  constructor
  · rintro ⟨tokens, htokens, hprogram⟩
    generalize hfound : lexemes tokens = all at hprogram
    cases hprogram with
    | table htable =>
      obtain ⟨used, rfl, hfollowed⟩ := htable.exists_used
      rw [List.append_nil] at hfound
      obtain ⟨wrapped, hwrapped, hlexemes⟩ :=
        exists_tokens_inDisplay_iff.mpr ⟨tokens, htokens, hfound⟩
      refine ⟨wrapped, hwrapped, ?_⟩
      rw [hlexemes]
      exact .display (hfollowed [.closeParen])
  · rintro ⟨wrapped, hwrapped, hprogram⟩
    generalize hlexemes : lexemes wrapped = all at hprogram
    cases hprogram with
    | display htable =>
      obtain ⟨used, rfl, hfollowed⟩ := htable.exists_used
      obtain ⟨tokens, htokens, hused⟩ := exists_tokens_inDisplay_iff.mp ⟨wrapped, hwrapped, hlexemes⟩
      have htable := hfollowed []
      rw [List.append_nil, ← hused] at htable
      exact ⟨tokens, htokens, .table htable⟩

/-! ## Compiling -/

variable {catalog : Catalog} {source : String}

namespace Query

theorem ofProgram_display (input : Table) :
    ofProgram catalog (.display input) = (input.build catalog).map .display := by
  rw [ofProgram]
  cases input.build catalog <;> rfl

theorem ofProgram_table (input : Table) :
    ofProgram catalog (.table input) = (input.build catalog).map .table := by
  rw [ofProgram]
  cases input.build catalog <;> rfl

theorem ofProgram_draw (dataset : String) :
    ofProgram catalog (.draw dataset) = .ok (.draw dataset) := rfl

variable {program : Program} {tree : Operator}

theorem ofProgram_eq_table_iff : ofProgram catalog program = .ok (.table tree) ↔
    ∃ input, program = .table input ∧ input.build catalog = .ok tree := by
  cases program <;> simp [ofProgram_display, ofProgram_draw, ofProgram_table, map_eq_ok_iff]

theorem ofProgram_eq_display_iff : ofProgram catalog program = .ok (.display tree) ↔
    ∃ input, program = .display input ∧ input.build catalog = .ok tree := by
  cases program <;> simp [ofProgram_display, ofProgram_draw, ofProgram_table, map_eq_ok_iff]

end Query

theorem compile_eq_algebra_iff {fault : Fault} : compile catalog source = .error (.algebra fault) ↔
    ∃ program, parse catalog.knows source = .ok program ∧
      Query.ofProgram catalog program = .error fault := by
  rw [compile]
  cases parse catalog.knows source with
  | error failure => simp
  | ok program =>
    cases hquery : Query.ofProgram catalog program with
    | error fault => simp [hquery]
    | ok query => simp [hquery]

/-- A source compiles to a table exactly if the source in a display compiles to the display of the same
collection, and is a table that cannot be built exactly if the source in a display fails to build, with
the same fault. -/
theorem compile_inDisplay (catalog : Catalog) (source : String) :
    (∀ tree, compile catalog source = .ok (.table tree) ↔
      compile catalog (Source.inDisplay source) = .ok (.display tree)) ∧
    ∀ fault, (∃ table, parse catalog.knows source = .ok (.table table) ∧
        table.build catalog = .error fault) ↔
      (∃ table, parse catalog.knows (Source.inDisplay source) = .ok (.display table)) ∧
        compile catalog (Source.inDisplay source) = .error (.algebra fault) := by
  constructor
  · intro tree
    simp only [compile_eq_ok_iff, Query.ofProgram_eq_table_iff, Query.ofProgram_eq_display_iff]
    constructor
    · rintro ⟨_, hparse, table, rfl, hbuild⟩
      exact ⟨_, parse_inDisplay.mp hparse, table, rfl, hbuild⟩
    · rintro ⟨_, hparse, table, rfl, hbuild⟩
      exact ⟨_, parse_inDisplay.mpr hparse, table, rfl, hbuild⟩
  · intro fault
    constructor
    · rintro ⟨table, hparse, hbuild⟩
      have hwrapped := parse_inDisplay.mp hparse
      refine ⟨⟨table, hwrapped⟩, compile_eq_algebra_iff.mpr ⟨_, hwrapped, ?_⟩⟩
      rw [Query.ofProgram_display, hbuild]
      rfl
    · rintro ⟨⟨table, hparse⟩, hcompile⟩
      obtain ⟨program, hsame, hquery⟩ := compile_eq_algebra_iff.mp hcompile
      cases hparse.symm.trans hsame
      rw [Query.ofProgram_display] at hquery
      exact ⟨table, parse_inDisplay.mpr hparse, map_eq_error_iff.mp hquery⟩

end TableQuery
