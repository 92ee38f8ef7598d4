import Mathlib.Data.List.Forall2
import TableQuery.Proofs.Text.Trim
import TableQuery.Schema.TypeTag

/-!
# Lists with commas in type tags

The parts of a list are separated by the commas outside parentheses.  A list that is written with commas
between its parts is read as these parts exactly if it is one that can be read (`IsList`,
`isList_iff`).

How deep in parentheses a text ends, and whether it has a comma outside of them, does not depend on
white space (`depthAfter_visible`).  Commas keep pieces apart if no piece has a comma outside parentheses
and all but the last end outside of them, where a closing parenthesis too many does not count
(`Separated`).  So trimming pieces keeps them apart, and changing white space inside of them does too
(`Separated.of_visible`).
-/

namespace TableQuery.TypeTag

open Text (isBlank visible trim)

/-! ## Depth -/

/-- How deep in parentheses one is after a character; none if it is a comma outside of them. -/
def depthStep (depth : Nat) (c : Char) : Option Nat :=
  if c = '(' then some (depth + 1)
  else if c = ')' then some (depth - 1)
  else if c = ',' ∧ depth = 0 then none
  else some depth

/-- How deep in parentheses one is after a text; none if it has a comma outside of them. -/
def depthAfter (depth : Nat) (cs : List Char) : Option Nat := cs.foldlM depthStep depth

variable {depth after : Nat} {cs piece front : List Char} {ps qs : List (List Char)}

theorem depthAfter_cons (depth : Nat) (c : Char) (cs : List Char) :
    depthAfter depth (c :: cs) = (depthStep depth c).bind fun after => depthAfter after cs := rfl

theorem depthAfter_append (depth : Nat) (front cs : List Char) :
    depthAfter depth (front ++ cs) = (depthAfter depth front).bind fun after => depthAfter after cs :=
  List.foldlM_append ..

theorem depthStep_eq_none_iff {c : Char} : depthStep depth c = none ↔ c = ',' ∧ depth = 0 := by
  unfold depthStep
  split
  next h => simp [h]
  next => split <;> simp_all

theorem depthStep_of_isBlank {c : Char} (h : isBlank c = true) (depth : Nat) :
    depthStep depth c = some depth := by
  have hne : ∀ mark : Char, isBlank mark = false → c ≠ mark := by
    rintro mark hmark rfl
    cases h.symm.trans hmark
  simp [depthStep, hne '(' rfl, hne ')' rfl, hne ',' rfl]

/-- White space has no depth. -/
theorem depthAfter_visible (depth : Nat) (cs : List Char) :
    depthAfter depth (visible cs) = depthAfter depth cs := by
  induction cs generalizing depth with
  | nil => rfl
  | cons c cs ih =>
    cases hblank : isBlank c with
    | true =>
      rw [Text.visible_cons_of_isBlank hblank, ih, depthAfter_cons, depthStep_of_isBlank hblank]
      rfl
    | false =>
      rw [Text.visible_cons hblank, depthAfter_cons, depthAfter_cons]
      simp only [ih]

/-- A character goes on with a piece, or it is a comma that ends the piece. -/
theorem splitAtDepth_cons (depth : Nat) (piece : List Char) (c : Char) (cs : List Char) :
    splitAtDepth depth piece (c :: cs) =
      match depthStep depth c with
      | some after => splitAtDepth after (c :: piece) cs
      | none => piece.reverse :: splitAtDepth 0 [] cs := by
  rw [splitAtDepth, depthStep]
  split
  · rfl
  · split
    · rfl
    · split <;> rfl

/-! ## Pieces with commas between them -/

theorem commaSeparated_cons (hne : ps ≠ []) (piece : List Char) :
    commaSeparated (piece :: ps) = piece ++ ',' :: commaSeparated ps := by
  cases ps with
  | nil => exact absurd rfl hne
  | cons other ps => rfl

/-- Commas between the pieces keep them apart. -/
inductive Separated : List (List Char) → Prop where
  | last {piece : List Char} {depth : Nat} : depthAfter 0 piece = some depth → Separated [piece]
  | more {piece : List Char} {pieces : List (List Char)} : depthAfter 0 piece = some 0 →
      Separated pieces → Separated (piece :: pieces)

theorem Separated.ne_nil (h : Separated ps) : ps ≠ [] := by
  cases h <;> exact List.cons_ne_nil _ _

/-- White space does not keep pieces apart. -/
theorem Separated.of_visible (h : Separated ps)
    (hsame : List.Forall₂ (fun p q => visible p = visible q) ps qs) : Separated qs := by
  induction h generalizing qs with
  | last hdepth =>
    obtain ⟨q, rest, hq, hrest, rfl⟩ := List.forall₂_cons_left_iff.mp hsame
    cases hrest
    rw [← depthAfter_visible, hq, depthAfter_visible] at hdepth
    exact .last hdepth
  | more hdepth _ ih =>
    obtain ⟨q, rest, hq, hrest, rfl⟩ := List.forall₂_cons_left_iff.mp hsame
    rw [← depthAfter_visible, hq, depthAfter_visible] at hdepth
    exact .more hdepth (ih hrest)

/-- A text without a comma outside parentheses goes on with the piece. -/
theorem splitAtDepth_append (h : depthAfter depth front = some after) (piece cs : List Char) :
    splitAtDepth depth piece (front ++ cs) = splitAtDepth after (front.reverse ++ piece) cs := by
  induction front generalizing depth piece with
  | nil =>
    cases h
    rfl
  | cons c front ih =>
    rw [depthAfter_cons] at h
    obtain ⟨next, hnext, hfront⟩ := Option.bind_eq_some_iff.mp h
    rw [List.cons_append, splitAtDepth_cons, hnext, List.reverse_cons, List.append_assoc]
    exact ih hfront (c :: piece)

/-- Pieces that commas keep apart are found again. -/
theorem Separated.splitAtDepth_eq (h : Separated ps) : splitAtDepth 0 [] (commaSeparated ps) = ps := by
  induction h with
  | @last piece depth hdepth =>
    have hsplit := splitAtDepth_append hdepth [] []
    rw [List.append_nil, List.append_nil] at hsplit
    rw [commaSeparated, hsplit, splitAtDepth, List.reverse_reverse]
  | @more piece pieces hdepth hpieces ih =>
    have hcomma : depthStep 0 ',' = none := rfl
    rw [commaSeparated_cons hpieces.ne_nil, splitAtDepth_append hdepth, List.append_nil,
      splitAtDepth_cons, hcomma, ih, List.reverse_reverse]

/-- Splitting keeps the pieces apart that it finds. -/
theorem separated_splitAtDepth (h : depthAfter 0 piece.reverse = some depth) (cs : List Char) :
    Separated (splitAtDepth depth piece cs) := by
  induction cs generalizing depth piece with
  | nil => exact .last h
  | cons c cs ih =>
    rw [splitAtDepth_cons]
    cases hstep : depthStep depth c with
    | none =>
      obtain ⟨-, rfl⟩ := depthStep_eq_none_iff.mp hstep
      exact .more h (ih rfl)
    | some after =>
      refine ih ?_
      rw [List.reverse_cons, depthAfter_append, h]
      show (depthStep depth c).bind (fun after => depthAfter after []) = some after
      rw [hstep]
      rfl

/-- Only the commas between the pieces of a text are not in the pieces. -/
theorem commaSeparated_splitAtDepth (depth : Nat) (piece cs : List Char) :
    commaSeparated (splitAtDepth depth piece cs) = piece.reverse ++ cs := by
  induction cs generalizing depth piece with
  | nil => simp [splitAtDepth, commaSeparated]
  | cons c cs ih =>
    rw [splitAtDepth_cons]
    cases hstep : depthStep depth c with
    | none =>
      obtain ⟨rfl, -⟩ := depthStep_eq_none_iff.mp hstep
      have hrest : Separated (splitAtDepth 0 [] cs) := separated_splitAtDepth rfl cs
      simp only
      rw [commaSeparated_cons hrest.ne_nil, ih]
      rfl
    | some after =>
      simp only
      rw [ih, List.reverse_cons, List.append_assoc]
      rfl

theorem length_le_commaSeparated (h : piece ∈ ps) :
    piece.length ≤ (commaSeparated ps).length := by
  induction ps with
  | nil => cases h
  | cons first ps ih =>
    cases ps with
    | nil =>
      cases List.mem_singleton.mp h
      exact Nat.le_refl _
    | cons other ps =>
      rw [commaSeparated_cons (List.cons_ne_nil _ _), List.length_append, List.length_cons]
      rcases List.mem_cons.mp h with rfl | h
      · omega
      · have hle := ih h
        omega

theorem visible_commaSeparated (hsame : List.Forall₂ (fun p q => visible p = visible q) ps qs) :
    visible (commaSeparated ps) = visible (commaSeparated qs) := by
  induction hsame with
  | nil => rfl
  | @cons p q ps qs hpiece hrest ih =>
    cases hrest with
    | nil => exact hpiece
    | cons =>
      have hcomma : isBlank ',' = false := rfl
      rw [commaSeparated_cons (List.cons_ne_nil _ _), commaSeparated_cons (List.cons_ne_nil _ _)]
      rw [Text.visible_append, Text.visible_append, Text.visible_cons hcomma,
        Text.visible_cons hcomma, hpiece, ih]

/-! ## Lists -/

/-- The lists of parts that can be written and read. -/
structure IsList (ps : List (List Char)) : Prop where
  /-- No part starts or ends with white space. -/
  trimmed : ∀ piece ∈ ps, trim piece = piece
  /-- Commas keep the parts apart. -/
  separated : ps ≠ [] → Separated ps
  /-- The parts are not a single empty one, which is written like no part. -/
  ne_blank : ps ≠ [[]]

theorem forall₂_visible_trim (ps : List (List Char)) :
    List.Forall₂ (fun p q => visible p = visible q) ps (ps.map trim) := by
  rw [List.forall₂_map_right_iff]
  exact List.forall₂_same.mpr fun piece _ => (Text.visible_trim piece).symm

theorem parts_of_visible (h : visible cs = []) : parts cs = [] := by
  rw [parts, Text.trim_eq_nil_iff.mpr h]
  rfl

theorem parts_of_visible_ne (h : visible cs ≠ []) : parts cs = (splitAtDepth 0 [] cs).map trim := by
  rw [parts, if_neg]
  rw [List.isEmpty_iff]
  exact mt Text.trim_eq_nil_iff.mp h

theorem length_le_of_mem_parts (h : piece ∈ parts cs) : piece.length ≤ cs.length := by
  by_cases hblank : visible cs = []
  · rw [parts_of_visible hblank] at h
    cases h
  · rw [parts_of_visible_ne hblank] at h
    obtain ⟨whole, hwhole, rfl⟩ := List.mem_map.mp h
    have hle : whole.length ≤ (commaSeparated (splitAtDepth 0 [] cs)).length :=
      length_le_commaSeparated hwhole
    rw [commaSeparated_splitAtDepth] at hle
    exact Nat.le_trans (Text.trim_sublist whole).length_le hle

/-- Writing the parts of a text leaves out white space only. -/
theorem visible_commaSeparated_parts (cs : List Char) :
    visible (commaSeparated (parts cs)) = visible cs := by
  by_cases hblank : visible cs = []
  · rw [parts_of_visible hblank, hblank]
    rfl
  · rw [parts_of_visible_ne hblank, ← visible_commaSeparated (forall₂_visible_trim _),
      commaSeparated_splitAtDepth]
    rfl

/-- The parts of a text can be written and read. -/
theorem isList_parts (cs : List Char) : IsList (parts cs) := by
  by_cases hblank : visible cs = []
  · rw [parts_of_visible hblank]
    exact ⟨by simp, fun hne => absurd rfl hne, List.cons_ne_nil _ _ |>.symm⟩
  · constructor
    · rw [parts_of_visible_ne hblank]
      intro piece hpiece
      obtain ⟨whole, -, rfl⟩ := List.mem_map.mp hpiece
      exact Text.trim_trim whole
    · intro _
      rw [parts_of_visible_ne hblank]
      exact (separated_splitAtDepth rfl cs).of_visible (forall₂_visible_trim _)
    · intro hsingle
      have hvisible := visible_commaSeparated_parts cs
      rw [hsingle] at hvisible
      exact hblank hvisible.symm

/-- Trimmed parts can be written and read if parts can that differ from them in white space. -/
theorem IsList.of_visible (h : IsList ps)
    (hsame : List.Forall₂ (fun p q => visible p = visible q) ps qs)
    (htrimmed : ∀ piece ∈ qs, trim piece = piece) : IsList qs where
  trimmed := htrimmed
  separated := by
    intro hne
    refine (h.separated ?_).of_visible hsame
    rintro rfl
    cases hsame
    exact hne rfl
  ne_blank := by
    rintro rfl
    obtain ⟨piece, rest, hpiece, hrest, rfl⟩ := List.forall₂_cons_right_iff.mp hsame
    cases hrest
    have hempty := Text.trim_eq_nil_iff.mpr hpiece
    rw [h.trimmed piece (List.mem_cons_self ..)] at hempty
    exact h.ne_blank (by rw [hempty])

/-- A list that can be written and read is read back. -/
theorem IsList.parts_eq (h : IsList ps) : parts (commaSeparated ps) = ps := by
  cases ps with
  | nil => rfl
  | cons piece rest =>
    have hvisible : visible (commaSeparated (piece :: rest)) ≠ [] := by
      cases rest with
      | nil =>
        intro hblank
        have hempty := Text.trim_eq_nil_iff.mpr hblank
        rw [commaSeparated, h.trimmed piece (List.mem_cons_self ..)] at hempty
        exact h.ne_blank (by rw [hempty])
      | cons other rest =>
        have hcomma : isBlank ',' = false := rfl
        rw [commaSeparated_cons (List.cons_ne_nil _ _), Text.visible_append, Text.visible_cons hcomma]
        simp
    have htrim : (piece :: rest).map trim = piece :: rest :=
      (List.map_congr_left h.trimmed).trans (List.map_id' _)
    rw [parts_of_visible_ne hvisible, (h.separated (List.cons_ne_nil _ _)).splitAtDepth_eq, htrim]

/-- What is read back is just what can be written and read. -/
theorem isList_iff : IsList ps ↔ parts (commaSeparated ps) = ps := by
  constructor
  · exact IsList.parts_eq
  · intro h
    rw [← h]
    exact isList_parts _

end TableQuery.TypeTag
