import TableQuery.Proofs.Query.Splitting

/-!
# Where splitting stops

A source is split from its front to its end.  On the way there is always a text that is split already, with
the tokens found in it, and a rest (`Reaches`).  Both together are the source (`Reaches.source_eq`), and its tokens
are those that were found and those of the rest (`Reaches.tokenize_eq`).

So a source has no tokens exactly if a character is reached where no lexeme starts.  The fault then tells
why it does not start and how many bytes precede the character (`tokenize_eq_error_iff`).
-/

namespace TableQuery

open Lexer

/-- Splitting a source reaches a place: the text before it is split into the tokens found, and the rest is
still to be split. -/
inductive Reaches (source : List Char) : List Char → List Token → List Char → Prop where
  | start : Reaches source [] [] source
  | blank {before rest : List Char} {found : List Token} {c : Char} :
      Reaches source before found (c :: rest) → Text.isBlank c = true →
      Reaches source (before ++ [c]) found rest
  | token {before more rest : List Char} {found : List Token} {c : Char} {next : Lexeme} :
      Reaches source before found (c :: (more ++ rest)) → Text.isBlank c = false →
      lexeme c (more ++ rest) = .ok ⟨next, c :: more, rest⟩ →
      Reaches source (before ++ c :: more) (found ++ [⟨next, utf8Length before⟩]) rest

namespace Reaches

variable {source before rest : List Char} {found : List Token}

theorem source_eq (h : Reaches source before found rest) : source = before ++ rest := by
  induction h with
  | start => rfl
  | blank _ _ ih => rw [ih, List.append_assoc, List.singleton_append]
  | token _ _ _ ih => rw [ih, List.append_assoc, List.cons_append]

/-- The tokens of a source are those found before a place and those of the rest. -/
theorem tokenize_eq (h : Reaches source before found rest) :
    tokenize source = (tokensFrom rest.length (utf8Length before) rest).map (found ++ ·) := by
  induction h with
  | start =>
    show _ = (tokenize source).map ([] ++ ·)
    cases tokenize source <;> rfl
  | @blank before rest found c _ hblank ih =>
    have hoffset : utf8Length (before ++ [c]) = utf8Length before + c.utf8Size := utf8Length_append ..
    rw [ih, tokensFrom_blank hblank, hoffset]
  | @token before more rest found c next _ hblank hread ih =>
    rw [ih, tokensFrom_lexeme hblank hread, utf8Length_append]
    cases tokensFrom rest.length (utf8Length before + utf8Length (c :: more)) rest with
    | error fault => rfl
    | ok tokens => exact congrArg Except.ok (List.append_cons ..)

/-- Where no lexeme starts, splitting fails. -/
theorem tokenize_eq_error {c : Char} {cause : LexCause} (h : Reaches source before found (c :: rest))
    (hblank : Text.isBlank c = false) (hread : lexeme c rest = .error cause) :
    tokenize source = .error ⟨cause, utf8Length before⟩ := by
  rw [h.tokenize_eq, List.length_cons, tokensFrom, hblank, hread]
  rfl

/-- A fault behind a place that is reached comes from a later one. -/
theorem exists_of_error {fuel : Nat} {fault : LexFault} (h : Reaches source before found rest)
    (hfault : tokensFrom fuel (utf8Length before) rest = .error fault) :
    ∃ before found c rest, Reaches source before found (c :: rest) ∧ Text.isBlank c = false ∧
      lexeme c rest = .error fault.cause ∧ fault.offset = utf8Length before := by
  induction fuel generalizing before found rest with
  | zero => cases hfault
  | succ fuel ih =>
    cases rest with
    | nil => cases hfault
    | cons c rest =>
      rw [tokensFrom] at hfault
      split at hfault
      next hblank =>
        have hoffset : utf8Length (before ++ [c]) = utf8Length before + c.utf8Size :=
          utf8Length_append ..
        rw [← hoffset] at hfault
        exact ih (h.blank hblank) hfault
      next hblank =>
        have hblank := Bool.eq_false_iff.mpr hblank
        split at hfault
        next cause hread =>
          cases hfault
          exact ⟨before, found, c, rest, h, hblank, hread, rfl⟩
        next reading hread =>
          obtain ⟨next, spelling, rest⟩ := reading
          obtain ⟨more, rfl, rfl⟩ := exists_eq_append_of_lexeme hread
          rw [← utf8Length_append] at hfault
          cases hmore : tokensFrom fuel (utf8Length (before ++ c :: more)) rest with
          | ok tokens =>
            rw [hmore] at hfault
            cases hfault
          | error later =>
            rw [hmore] at hfault
            cases hfault
            exact ih (h.token hblank hread) hmore

end Reaches

/-- A source has no tokens exactly if a character is reached where no lexeme starts, and that is the
place of the fault. -/
theorem tokenize_eq_error_iff {source : List Char} {fault : LexFault} :
    tokenize source = .error fault ↔
      ∃ before found c rest, Reaches source before found (c :: rest) ∧ Text.isBlank c = false ∧
        lexeme c rest = .error fault.cause ∧ fault.offset = utf8Length before := by
  constructor
  · intro h
    exact Reaches.start.exists_of_error h
  · rintro ⟨before, found, c, rest, hreaches, hblank, hread, hoffset⟩
    rw [hreaches.tokenize_eq_error hblank hread, ← hoffset]

end TableQuery
