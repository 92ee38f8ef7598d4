import TableQuery.Comparison
import TableQuery.Proofs.Decimal.Character

/-!
# Tokens and comparison

Two values share a token exactly if they compare equal (`agrees_iff_token_eq`), so the rows that an
index keeps under a token are those that a scan would find.

Two facts carry this.  Different doubles have different texts (`Double.toChars_injective`), apart from
the two zeros, whose token is made alike.  And the text of a value is numeric exactly if the value is
(`toDouble?_string_rendered`), so a number never compares equal to a value that is not one, just as
their tokens begin differently.

So comparing equal is an equivalence.  Comparing the other way round gives the opposite outcome
(`order_swap`).
-/

namespace TableQuery

/-! ## Texts that are no numerals -/

namespace Decimal

/-- The first characters of `null`, the truth values, arrays and objects. -/
def IsOpening (c : Char) : Prop := c ∈ ['n', 't', 'f', '[', '\x7b']

theorem ofChars?_of_isOpening {c : Char} (hc : IsOpening c) (cs : List Char) :
    ofChars? (c :: cs) = none := by
  simp only [IsOpening, List.mem_cons, List.not_mem_nil, or_false] at hc
  rcases hc with rfl | rfl | rfl | rfl | rfl <;> rfl

theorem not_isBlank_of_isOpening {c : Char} (hc : IsOpening c) : Text.isBlank c = false := by
  simp only [IsOpening, List.mem_cons, List.not_mem_nil, or_false] at hc
  rcases hc with rfl | rfl | rfl | rfl | rfl <;> rfl

/-- A text that starts like a value other than a number spells no number. -/
theorem ofChars?_trim_of_isOpening {c last : Char} (hc : IsOpening c)
    (hlast : Text.isBlank last = false) (cs : List Char) :
    ofChars? (Text.trim (c :: (cs ++ [last]))) = none := by
  have htrim : Text.trim (c :: (cs ++ [last])) = c :: (cs ++ [last]) := by
    apply Text.trim_eq_self
    · intro d hd
      cases hd
      exact not_isBlank_of_isOpening hc
    · intro d hd
      rw [← List.cons_append, List.getLast?_concat] at hd
      cases hd
      exact hlast
  rw [htrim]
  exact ofChars?_of_isOpening hc _

/-- An integer of 64 bits is read back from its text as the double nearest to it. -/
theorem toDouble?_intChars {i : Int} (h : i.natAbs < 2 ^ 64) :
    (ofChars? (intChars i)).bind toDouble? = some (Double.ofInt i) := by
  have hread := ofChars?_whole (decide (i < 0)) (fun _ hc => isDigit_of_mem_digitsOf hc)
    (digitsOf_ne_nil i.natAbs) isExponentPart_nil
  rw [List.append_nil, ← intChars_eq_signed] at hread
  have hparts : ofParts (decide (i < 0)) (digitsOf i.natAbs) [] 0 =
      ⟨decide (i < 0), i.natAbs, 0⟩ := by
    rw [ofParts, List.append_nil, digitsValue_digitsOf]
    rfl
  obtain ⟨m, hm, hmagnitude⟩ := magnitude?_integer (decide (i < 0)) h
  have hsome : (Decimal.mk (decide (i < 0)) i.natAbs 0).toDouble? = some ⟨decide (i < 0), m, hm⟩ := by
    rw [toDouble?, hmagnitude]
    simp [hm]
  rw [hread, hparts, Option.bind_some, Double.ofInt, hsome]
  rfl

end Decimal

namespace Json

open Decimal

/-- The number that a text spells. -/
theorem toDouble?_string_ofList (cs : List Char) :
    (Json.string (String.ofList cs)).toDouble? = (ofChars? (Text.trim cs)).bind Decimal.toDouble? := by
  rw [toDouble?, String.toList_ofList]

theorem toDouble?_string_number (n : Number) :
    (Json.string (String.ofList n.toChars)).toDouble? = some n.toDouble := by
  rw [toDouble?_string_ofList]
  cases n with
  | integer i inRange =>
    rw [Number.toChars, trim_of_plain (plain_intChars i)]
    exact toDouble?_intChars (by omega)
  | double d =>
    have hmark : Double.IsWholeMark Number.style.wholeMark := .inr rfl
    rw [Number.toChars, trim_of_plain (Double.plain_toChars hmark d)]
    exact Double.toDouble?_toChars hmark d

/-- The text that a value is compared as is numeric exactly if the value is, and then as the same
number. -/
theorem toDouble?_string_rendered (value : Json) :
    (Json.string value.rendered).toDouble? = value.toDouble? := by
  cases value with
  | null => rfl
  | bool b =>
    show (Json.string (String.ofList (toChars (.bool b)))).toDouble? = none
    rw [toDouble?_string_ofList]
    cases b <;> rfl
  | number n => exact toDouble?_string_number n
  | string text => rfl
  | array items =>
    show (Json.string (String.ofList (toChars (.array items)))).toDouble? = none
    rw [toDouble?_string_ofList, toChars, ofChars?_trim_of_isOpening (by simp [IsOpening]) rfl]
    rfl
  | object members =>
    show (Json.string (String.ofList (toChars (.object members)))).toDouble? = none
    rw [toDouble?_string_ofList, toChars, ofChars?_trim_of_isOpening (by simp [IsOpening]) rfl]
    rfl

/-! ## Comparing equal -/

theorem agrees_of_toDouble? {a b : Json} {x y : Double} (ha : a.toDouble? = some x)
    (hb : b.toDouble? = some y) : a.agrees b = true ↔ x.rank = y.rank := by
  rw [agrees, order, ha, hb]
  simp

theorem agrees_of_not_numeric {a b : Json} (h : a.toDouble? = none ∨ b.toDouble? = none) :
    a.agrees b = true ↔ a.rendered = b.rendered := by
  have horder : a.order b = compare a.rendered b.rendered := by
    rw [order]
    rcases h with h | h
    · rw [h]
    · rw [h]
      cases a.toDouble? <;> rfl
  rw [agrees, horder]
  simp

/-- Comparing equal does not depend on which value comes first. -/
theorem agrees_comm (a b : Json) : a.agrees b = b.agrees a := by
  apply Bool.eq_iff_iff.mpr
  cases ha : a.toDouble? with
  | none => rw [agrees_of_not_numeric (.inl ha), agrees_of_not_numeric (.inr ha), eq_comm]
  | some x =>
    cases hb : b.toDouble? with
    | none => rw [agrees_of_not_numeric (.inr hb), agrees_of_not_numeric (.inl hb), eq_comm]
    | some y => rw [agrees_of_toDouble? ha hb, agrees_of_toDouble? hb ha, eq_comm]

end Json

namespace Double

/-- Doubles have one rank exactly if they are the same or both zero. -/
theorem rank_eq_iff (x y : Double) :
    x.rank = y.rank ↔ x = y ∨ (x.magnitude = 0 ∧ y.magnitude = 0) := by
  obtain ⟨xneg, xmag, hx⟩ := x
  obtain ⟨yneg, ymag, hy⟩ := y
  simp only [rank, mk.injEq]
  cases xneg <;> cases yneg <;> simp <;> omega

/-- The text of a double in a token. -/
def tokenChars (d : Double) : List Char :=
  if d.magnitude = 0 then ['0'] else d.toChars Json.tokenStyle

theorem isWholeMark_tokenStyle : IsWholeMark Json.tokenStyle.wholeMark := .inl rfl

theorem tokenChars_eq_iff (x y : Double) : x.tokenChars = y.tokenChars ↔ x.rank = y.rank := by
  have hzero : ∀ d : Double, d.magnitude ≠ 0 → d.toChars Json.tokenStyle ≠ ['0'] := by
    intro d hd h
    have hread := toDouble?_toChars isWholeMark_tokenStyle d
    rw [h] at hread
    have hmagnitude := congrArg magnitude (Option.some.inj hread)
    exact hd hmagnitude.symm
  rw [rank_eq_iff]
  by_cases hx : x.magnitude = 0
  · by_cases hy : y.magnitude = 0
    · simp [tokenChars, hx, hy]
    · have hne : x ≠ y := fun e => hy (e ▸ hx)
      simp [tokenChars, hx, hy, hne, (hzero y hy).symm]
  · by_cases hy : y.magnitude = 0
    · have hne : x ≠ y := fun e => hx (e ▸ hy)
      simp [tokenChars, hx, hy, hne, hzero x hx]
    · simp only [tokenChars, hx, hy, if_false, false_and, or_false]
      exact ⟨toChars_injective isWholeMark_tokenStyle, fun e => e ▸ rfl⟩

end Double

namespace Json

theorem token_of_toDouble? {value : Json} {d : Double} (h : value.toDouble? = some d) :
    value.token = "n:" ++ String.ofList d.tokenChars := by
  rw [token, h, Double.tokenChars]
  by_cases hz : d.magnitude = 0 <;> simp [hz]

theorem token_of_not_numeric {value : Json} (h : value.toDouble? = none) :
    value.token = "s:" ++ value.rendered := by
  rw [token, h]

theorem token_ne_of_mixed {a b : Json} {x : Double} (ha : a.toDouble? = some x)
    (hb : b.toDouble? = none) : a.token ≠ b.token := by
  rw [token_of_toDouble? ha, token_of_not_numeric hb]
  intro h
  have hchars := congrArg String.toList h
  simp at hchars

/-- The text of a number is numeric, so no value that is not numeric has it. -/
theorem not_agrees_of_mixed {a b : Json} {x : Double} (ha : a.toDouble? = some x)
    (hb : b.toDouble? = none) : ¬a.agrees b = true := by
  rw [agrees_of_not_numeric (.inr hb)]
  intro h
  have hread := toDouble?_string_rendered a
  rw [h, toDouble?_string_rendered b, hb, ha] at hread
  cases hread

/-- Values share a token exactly if they compare equal. -/
theorem agrees_iff_token_eq (a b : Json) : a.agrees b = true ↔ a.token = b.token := by
  cases ha : a.toDouble? with
  | some x =>
    cases hb : b.toDouble? with
    | some y =>
      rw [agrees_of_toDouble? ha hb, token_of_toDouble? ha, token_of_toDouble? hb,
        ← Double.tokenChars_eq_iff]
      simp [String.ofList_inj]
    | none => exact ⟨fun h => absurd h (not_agrees_of_mixed ha hb),
        fun h => absurd h (token_ne_of_mixed ha hb)⟩
  | none =>
    cases hb : b.toDouble? with
    | some y =>
      rw [agrees_comm]
      exact ⟨fun h => absurd h (not_agrees_of_mixed hb ha),
        fun h => absurd h.symm (token_ne_of_mixed hb ha)⟩
    | none =>
      rw [agrees_of_not_numeric (.inl ha), token_of_not_numeric ha, token_of_not_numeric hb]
      simp

/-! ## Comparing the other way round -/

/-- Both ways two values are compared alike, as numbers or as texts. -/
theorem order_swap (a b : Json) : b.order a = (a.order b).swap := by
  rw [order, order]
  cases a.toDouble? with
  | none =>
    cases b.toDouble? with
    | none => exact Std.OrientedOrd.eq_swap
    | some y => exact Std.OrientedOrd.eq_swap
  | some x =>
    cases b.toDouble? with
    | none => exact Std.OrientedOrd.eq_swap
    | some y => exact Std.OrientedOrd.eq_swap

/-- Values compare equal exactly if they share a token, this is an equivalence, and comparing the other
way round gives the opposite outcome. -/
theorem comparison_coherent :
    (∀ a b : Json, a.agrees b = true ↔ a.token = b.token) ∧
      Equivalence (fun a b : Json => a.agrees b = true) ∧
      ∀ a b : Json, b.order a = (a.order b).swap := by
  refine ⟨agrees_iff_token_eq, ⟨?_, ?_, ?_⟩, order_swap⟩
  · intro a
    exact (agrees_iff_token_eq a a).mpr rfl
  · intro a b hab
    rwa [agrees_comm]
  · intro a b c hab hbc
    rw [agrees_iff_token_eq] at hab hbc ⊢
    exact hab.trans hbc

end Json

end TableQuery
