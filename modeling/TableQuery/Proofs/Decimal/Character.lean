import TableQuery.Proofs.Decimal.Numeral

/-!
# The characters of numerals

Integers and doubles are written in digits, signs, points and exponent marks (`Decimal.IsPlain`,
`Decimal.plain_intChars`, `Double.plain_toChars`).  So nothing is lost when a numeral is trimmed
(`Decimal.trim_of_plain`).
-/

namespace TableQuery

namespace Decimal

/-- The characters of numerals. -/
def IsPlain (c : Char) : Prop := c.isDigit = true ∨ c ∈ ['-', '+', '.', 'e']

theorem not_isBlank_of_isPlain {c : Char} (h : IsPlain c) : Text.isBlank c = false := by
  cases h with
  | inl h =>
    have hlow : 48 ≤ c.toNat := by
      simp only [Char.isDigit, Bool.and_eq_true, decide_eq_true_eq] at h
      exact h.1
    have hhigh : c.toNat ≤ 57 := by
      simp only [Char.isDigit, Bool.and_eq_true, decide_eq_true_eq] at h
      exact h.2
    simp only [Text.isBlank, Bool.or_eq_false_iff, Bool.and_eq_false_iff, decide_eq_false_iff_not,
      beq_eq_false_iff_ne]
    omega
  | inr h =>
    simp only [List.mem_cons, List.not_mem_nil, or_false] at h
    rcases h with rfl | rfl | rfl | rfl <;> rfl

theorem trim_of_plain {cs : List Char} (h : ∀ c ∈ cs, IsPlain c) : Text.trim cs = cs :=
  Text.trim_eq_self (fun c hc => not_isBlank_of_isPlain (h c (List.mem_of_mem_head? hc)))
    (fun c hc => not_isBlank_of_isPlain (h c (List.mem_of_mem_getLast? hc)))

theorem plain_signed {negative : Bool} {cs : List Char} (h : ∀ c ∈ cs, IsPlain c) :
    ∀ c ∈ signed negative cs, IsPlain c := by
  cases negative with
  | false => exact h
  | true =>
    intro c hc
    cases List.mem_cons.mp hc with
    | inl he =>
      subst he
      exact .inr (by decide)
    | inr hc => exact h c hc

theorem plain_digitsOf (n : Nat) : ∀ c ∈ digitsOf n, IsPlain c :=
  fun _ hc => .inl (isDigit_of_mem_digitsOf hc)

theorem plain_intChars (i : Int) : ∀ c ∈ intChars i, IsPlain c := by
  rw [intChars_eq_signed]
  exact plain_signed (plain_digitsOf _)

end Decimal

namespace Double

open Decimal

theorem plain_placePoint {mark ds : List Char} (hmark : IsWholeMark mark)
    (hds : ∀ c ∈ ds, c.isDigit = true) (point : Int) : ∀ c ∈ placePoint mark ds point, IsPlain c := by
  have hzero : ∀ n, ∀ c ∈ List.replicate n '0', IsPlain c :=
    fun n c hc => .inl (isDigit_of_mem_replicate_zero hc)
  have hpoint : IsPlain '.' := .inr (by decide)
  have hlast : ∀ c ∈ mark, IsPlain c := by
    cases hmark with
    | inl h => simp [h]
    | inr h =>
      subst h
      intro c hc
      simp only [List.mem_cons, List.not_mem_nil, or_false] at hc
      rcases hc with rfl | rfl
      · exact hpoint
      · exact .inl rfl
  intro c hc
  simp only [placePoint] at hc
  split at hc
  · simp only [List.mem_cons, List.mem_append] at hc
    rcases hc with rfl | rfl | hc | hc
    · exact .inl rfl
    · exact hpoint
    · exact hzero _ c hc
    · exact .inl (hds c hc)
  · split at hc
    · simp only [List.mem_cons, List.mem_append] at hc
      rcases hc with hc | rfl | hc
      · exact .inl (hds c (List.mem_of_mem_take hc))
      · exact hpoint
      · exact .inl (hds c (List.mem_of_mem_drop hc))
    · simp only [List.mem_append] at hc
      rcases hc with (hc | hc) | hc
      · exact .inl (hds c hc)
      · exact hzero _ c hc
      · exact hlast c hc

theorem plain_exponentChars (exponent : Int) : ∀ c ∈ exponentChars exponent, IsPlain c := by
  simp only [exponentChars]
  split
  · exact plain_intChars exponent
  · intro c hc
    cases List.mem_cons.mp hc with
    | inl he =>
      subst he
      exact .inr (by decide)
    | inr hc => exact plain_intChars exponent c hc

theorem plain_withExponent {ds : List Char} (hds : ∀ c ∈ ds, c.isDigit = true) (exponent : Int) :
    ∀ c ∈ withExponent ds exponent, IsPlain c := by
  intro c hc
  cases List.mem_append.mp hc with
  | inl hc =>
    match ds, hds, hc with
    | [], _, hc =>
      cases List.mem_singleton.mp hc
      exact .inl rfl
    | [d], hds, hc => exact .inl (hds c hc)
    | d :: e :: ds, hds, hc =>
      simp only [List.mem_cons] at hc
      rcases hc with rfl | rfl | hc
      · exact .inl (hds _ (List.mem_cons_self ..))
      · exact .inr (by decide)
      · exact .inl (hds c (by simp [hc]))
  | inr hc =>
    cases List.mem_cons.mp hc with
    | inl he =>
      subst he
      exact .inr (by decide)
    | inr hc => exact plain_exponentChars exponent c hc

theorem plain_toChars {style : Style} (hmark : IsWholeMark style.wholeMark) (d : Double) :
    ∀ c ∈ d.toChars style, IsPlain c := by
  rw [toChars_eq_signed]
  apply plain_signed
  by_cases hz : d.magnitude = 0
  · rw [magnitudeChars, if_pos hz]
    exact plain_placePoint hmark isDigit_of_mem_zero 1
  · obtain ⟨ds, exponent, hds, _, _, _, hchars⟩ := exists_magnitudeChars style false d.finite hz
    rw [hchars]
    split
    · exact plain_placePoint hmark hds _
    · exact plain_withExponent hds _

end Double

end TableQuery
