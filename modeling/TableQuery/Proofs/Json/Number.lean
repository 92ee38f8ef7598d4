import TableQuery.Json.Reader
import TableQuery.Proofs.Decimal.Numeral

/-!
# Reading numbers

A number is read part by part: a sign, the digits before the point, a fraction and an exponent
(`read_signed`).  What is written for a number has these parts, so it is read back up to what cannot extend
it (`read_toChars`).

JSON has one spelling for a natural number that is kept as an integer: its digits.  A number that is read
as such an integer stands there in its digits (`eq_digitsOf_of_read`).  With a sign, a leading zero, a
point or an exponent it would be another number, a double, or none.
-/

namespace TableQuery.Number

open Decimal

/-- What stands here does not extend a number. -/
def EndsNumber (rest : List Char) : Prop :=
  ∀ c, rest.head? = some c → c.isDigit = false ∧ c ≠ '.' ∧ c ≠ 'e' ∧ c ≠ 'E'

/-! ## From the parts of a number -/

section Parts

variable {digit : Char} {whole fraction tail rest : List Char} {exponent : Int}

theorem wholePart?_append (hwhole : ∀ c ∈ digit :: whole, c.isDigit = true)
    (hlead : digit = '0' → whole = []) (hrest : ∀ c, rest.head? = some c → c.isDigit = false) :
    wholePart? (digit :: (whole ++ rest)) = some (digit :: whole, rest) := by
  by_cases hzero : digit = '0'
  · rw [hlead hzero, hzero]
    rfl
  · have hsplit := splitDigits_append_of_digits hwhole hrest
    rw [List.cons_append] at hsplit
    simp [wholePart?, hzero, hsplit]

theorem fractionPart?_append (hfraction : IsFractionPart fraction)
    (hrest : ∀ c, rest.head? = some c → c.isDigit = false ∧ c ≠ '.') :
    fractionPart? (fraction ++ rest) = some (fraction.tail?, rest) := by
  obtain rfl | ⟨digits, hne, hdigits, rfl⟩ := hfraction
  · rw [List.nil_append]
    unfold fractionPart?
    split
    · exact absurd rfl (hrest _ rfl).2
    · rfl
  · have hsplit := splitDigits_append_of_digits hdigits fun c hc => (hrest c hc).1
    simp [fractionPart?, hsplit, hne]

theorem exponentPart?_append (htail : IsExponentPart tail exponent) (hrest : EndsNumber rest) :
    exponentPart? (tail ++ rest) = some (if tail = [] then none else some exponent, rest) := by
  obtain ⟨rfl, -⟩ | rfl := htail
  · cases rest with
    | nil => rfl
    | cons c cs =>
      obtain ⟨-, -, hsmall, hlarge⟩ := hrest c rfl
      simp [exponentPart?, hsmall, hlarge]
  · simp [exponentPart?, exponentTail?_append exponent fun c hc => (hrest c hc).1]

/-- What stands behind a fraction does not extend the fraction. -/
theorem endsFraction_append (htail : IsExponentPart tail exponent) (hrest : EndsNumber rest) :
    ∀ c, (tail ++ rest).head? = some c → c.isDigit = false ∧ c ≠ '.' := by
  intro c hc
  obtain ⟨rfl, -⟩ | rfl := htail
  · exact ⟨(hrest c hc).1, (hrest c hc).2.1⟩
  · cases hc
    decide

/-- What stands behind the digits before the point is no digit. -/
theorem endsWhole_append (hfraction : IsFractionPart fraction)
    (hrest : ∀ c, rest.head? = some c → c.isDigit = false ∧ c ≠ '.') :
    ∀ c, (fraction ++ rest).head? = some c → c.isDigit = false := by
  intro c hc
  obtain rfl | ⟨digits, -, -, rfl⟩ := hfraction
  · exact (hrest c hc).1
  · cases hc
    rfl

/-- A number is read part by part. -/
theorem read_signed (negative : Bool) (hwhole : ∀ c ∈ digit :: whole, c.isDigit = true)
    (hlead : digit = '0' → whole = []) (hfraction : IsFractionPart fraction)
    (htail : IsExponentPart tail exponent) (hrest : EndsNumber rest) :
    read (signed negative (digit :: (whole ++ (fraction ++ (tail ++ rest))))) =
      (ofParts? negative (digit :: whole) fraction.tail?
        (if tail = [] then none else some exponent)).map fun n => (n, rest) := by
  have hbehind := endsFraction_append htail hrest
  have hparts := wholePart?_append hwhole hlead (endsWhole_append hfraction hbehind)
  have hminus : digit ≠ '-' := by
    rintro rfl
    cases hwhole '-' (List.mem_cons_self ..)
  unfold read
  split
  next isNegative unsigned hsign =>
    have hsplit : isNegative = negative ∧
        unsigned = digit :: (whole ++ (fraction ++ (tail ++ rest))) := by
      cases negative with
      | true =>
        cases hsign
        exact ⟨rfl, rfl⟩
      | false =>
        rw [signed, if_neg Bool.false_ne_true] at hsign
        split at hsign
        · next heq =>
          cases heq
          exact absurd rfl hminus
        · cases hsign
          exact ⟨rfl, rfl⟩
    obtain ⟨rfl, rfl⟩ := hsplit
    simp only [hparts, fractionPart?_append hfraction hbehind, exponentPart?_append htail hrest,
      Option.bind_eq_bind, Option.bind_some, Option.map_eq_bind]
    rfl

end Parts

/-! ## Reading back -/

theorem ofParts?_digitsOf {value : Int}
    (inRange : -0x8000000000000000 ≤ value ∧ value < 0x10000000000000000) :
    ofParts? (decide (value < 0)) (digitsOf value.natAbs) none none = some (.integer value inRange) := by
  have hnotZero : (decide (value < 0) && (value.natAbs : Int) == 0) = false := by
    rw [Bool.and_eq_false_iff, decide_eq_false_iff_not, beq_eq_false_iff_ne]
    omega
  have hvalue : (if decide (value < 0) = true then -(value.natAbs : Int) else value.natAbs) = value := by
    simp only [decide_eq_true_eq]
    split <;> omega
  have hfits : ofInt? value = some (.integer value inRange) := dif_pos inRange
  simp only [ofParts?, digitsValue_digitsOf, hnotZero, hvalue, hfits]
  rfl

/-- With a fraction or an exponent a number is a double. -/
theorem ofParts?_double {negative : Bool} {whole fraction tail : List Char} {exponent : Int} {d : Double}
    (hpart : (fraction.isEmpty && tail.isEmpty) = false) (htail : IsExponentPart tail exponent)
    (hdouble : (Decimal.ofParts negative whole fraction.tail exponent).toDouble? = some d) :
    ofParts? negative whole fraction.tail? (if tail = [] then none else some exponent) =
      some (.double d) := by
  obtain ⟨rfl, rfl⟩ | rfl := htail
  · cases fraction with
    | nil => cases hpart
    | cons point digits => simpa [ofParts?] using hdouble
  · cases fraction with
    | nil => simpa [ofParts?] using hdouble
    | cons point digits => simpa [ofParts?] using hdouble

/-- An integer is read up to what cannot extend it. -/
theorem read_intChars {value : Int}
    (inRange : -0x8000000000000000 ≤ value ∧ value < 0x10000000000000000)
    {rest : List Char} (hrest : EndsNumber rest) :
    read (intChars value ++ rest) = some (.integer value inRange, rest) := by
  obtain ⟨digit, whole, hdigits⟩ := List.exists_cons_of_ne_nil (digitsOf_ne_nil value.natAbs)
  have hwhole : ∀ c ∈ digit :: whole, c.isDigit = true := by
    rw [← hdigits]
    exact fun c => isDigit_of_mem_digitsOf
  have hlead : digit = '0' → whole = [] := by
    rintro rfl
    by_cases hzero : value.natAbs = 0
    · rw [hzero] at hdigits
      exact (List.cons.inj hdigits).2.symm
    · exact absurd (congrArg List.head? hdigits) (head?_digitsOf (Nat.pos_of_ne_zero hzero))
  have hparts := ofParts?_digitsOf inRange
  rw [hdigits] at hparts
  have hread := read_signed (decide (value < 0)) hwhole hlead (.inl rfl) isExponentPart_nil hrest
  rw [List.tail?_nil, if_pos rfl, hparts, List.nil_append, List.nil_append, ← List.cons_append,
    ← hdigits, signed_append, ← intChars_eq_signed] at hread
  exact hread

/-- A double is read up to what cannot extend it. -/
theorem read_doubleChars (d : Double) {rest : List Char} (hrest : EndsNumber rest) :
    read (d.toChars style ++ rest) = some (.double d, rest) := by
  obtain ⟨digit, whole, fraction, tail, exponent, hwhole, hlead, hfraction, htail, hpart, hchars⟩ :=
    Double.exists_parts_magnitudeChars d.finite
  have htext : d.toChars style = signed d.negative (digit :: (whole ++ (fraction ++ tail))) := by
    rw [Double.toChars_eq_signed, hchars]
  have hdouble := Double.toDouble?_toChars (.inr rfl : Double.IsWholeMark style.wholeMark) d
  have hread := ofChars?_parts d.negative hwhole (List.cons_ne_nil _ _) hfraction htail
  rw [List.cons_append] at hread
  rw [htext, hread, Option.bind_some] at hdouble
  have hall := read_signed d.negative hwhole hlead hfraction htail hrest
  rw [ofParts?_double hpart htail hdouble] at hall
  rw [htext, ← signed_append]
  simp only [List.cons_append, List.append_assoc]
  exact hall

/-- The text of a number starts with a digit or a sign. -/
theorem exists_cons_toChars (n : Number) :
    ∃ c cs, n.toChars = c :: cs ∧ (c.isDigit = true ∨ c = '-') := by
  have hsigned : ∀ negative digit whole, digit.isDigit = true →
      ∃ c cs, signed negative (digit :: whole) = c :: cs ∧ (c.isDigit = true ∨ c = '-') := by
    intro negative digit whole hdigit
    cases negative with
    | true => exact ⟨'-', digit :: whole, rfl, .inr rfl⟩
    | false => exact ⟨digit, whole, rfl, .inl hdigit⟩
  cases n with
  | integer value inRange =>
    obtain ⟨digit, whole, hdigits⟩ := List.exists_cons_of_ne_nil (digitsOf_ne_nil value.natAbs)
    rw [toChars, intChars_eq_signed, hdigits]
    exact hsigned _ digit whole (isDigit_of_mem_digitsOf (hdigits ▸ List.mem_cons_self ..))
  | double d =>
    obtain ⟨digit, whole, _, _, _, hwhole, -, -, -, -, hchars⟩ :=
      Double.exists_parts_magnitudeChars d.finite
    rw [toChars, Double.toChars_eq_signed, hchars]
    exact hsigned _ digit _ (hwhole digit (List.mem_cons_self ..))

/-- A number is read back from its text, up to what cannot extend it. -/
theorem read_toChars (n : Number) {rest : List Char} (hrest : EndsNumber rest) :
    read (n.toChars ++ rest) = some (n, rest) := by
  cases n with
  | integer value inRange => exact read_intChars inRange hrest
  | double d => exact read_doubleChars d hrest

/-! ## Back to digits -/

/-- The digits before the point have no leading zero. -/
theorem of_wholePart? {cs whole rest : List Char} (h : wholePart? cs = some (whole, rest)) :
    cs = whole ++ rest ∧ digitsOf (digitsValue whole) = whole := by
  unfold wholePart? at h
  split at h
  · cases h
    exact ⟨rfl, rfl⟩
  · next hzero =>
    dsimp only [splitDigits] at h
    split at h
    · cases h
    · next hne =>
      cases h
      have happend := splitDigits_append cs
      refine ⟨happend.symm, digitsOf_digitsValue ?_ (by simpa using hne) fun hhead => ?_⟩
      · exact fun c hc => List.all_eq_true.mp List.all_takeWhile c hc
      · obtain ⟨ds, hds⟩ := List.head?_eq_some_iff.mp hhead
        rw [splitDigits, hds] at happend
        exact absurd happend.symm (hzero _)

theorem of_fractionPart?_eq_none {cs rest : List Char} (h : fractionPart? cs = some (none, rest)) :
    cs = rest := by
  unfold fractionPart? at h
  split at h
  · dsimp only [splitDigits] at h
    split at h <;> cases h
  · cases h
    rfl

theorem of_exponentPart?_eq_none {cs rest : List Char} (h : exponentPart? cs = some (none, rest)) :
    cs = rest := by
  unfold exponentPart? at h
  split at h
  · cases h
    rfl
  · split at h
    · simp at h
    · cases h
      rfl

theorem eq_of_ofInt?_eq_some {size value : Int}
    {inRange : -0x8000000000000000 ≤ value ∧ value < 0x10000000000000000}
    (h : ofInt? size = some (.integer value inRange)) : size = value := by
  unfold ofInt? at h
  split at h
  · cases h
    rfl
  · cases h

/-- Only a number without point and exponent is kept as an integer, and only without a sign as a natural
one. -/
theorem of_ofParts?_eq_natural {negative : Bool} {whole : List Char} {fraction : Option (List Char)}
    {exponent : Option Int} {n : Nat}
    {inRange : -0x8000000000000000 ≤ (n : Int) ∧ (n : Int) < 0x10000000000000000}
    (h : ofParts? negative whole fraction exponent = some (.integer n inRange)) :
    negative = false ∧ fraction = none ∧ exponent = none ∧ digitsValue whole = n := by
  have hdouble : ∀ double? : Option Double, double?.map Number.double ≠ some (integer n inRange) := by
    intro double? heq
    obtain ⟨_, _, hne⟩ := Option.map_eq_some_iff.mp heq
    cases hne
  unfold ofParts? at h
  dsimp only at h
  split at h
  · split at h
    · cases h
    · next hnotZero =>
      split at h
      · next found hfound =>
        cases h
        have hsize := eq_of_ofInt?_eq_some hfound
        cases negative with
        | false => exact ⟨rfl, rfl, rfl, Int.ofNat.inj hsize⟩
        | true =>
          simp only [Bool.true_and, beq_iff_eq, if_true] at hnotZero hsize
          omega
      · exact absurd h (hdouble _)
  · exact absurd h (hdouble _)

/-- A natural number stands where it is read, in its digits. -/
theorem eq_digitsOf_of_read {cs rest : List Char} {n : Nat}
    {inRange : -0x8000000000000000 ≤ (n : Int) ∧ (n : Int) < 0x10000000000000000}
    (h : read cs = some (.integer n inRange, rest)) : cs = digitsOf n ++ rest := by
  unfold read at h
  split at h
  next negative unsigned hsign =>
    simp only [Option.bind_eq_bind, Option.bind_eq_some_iff] at h
    obtain ⟨⟨whole, atFraction⟩, hwhole, ⟨fraction, atExponent⟩, hfraction, ⟨exponent, after⟩,
      hexponent, number, hparts, heq⟩ := h
    dsimp only at hfraction hexponent hparts heq
    cases heq
    obtain ⟨rfl, rfl, rfl, rfl⟩ := of_ofParts?_eq_natural hparts
    obtain ⟨hunsigned, hdigits⟩ := of_wholePart? hwhole
    rw [hdigits, ← of_exponentPart?_eq_none hexponent, ← of_fractionPart?_eq_none hfraction,
      ← hunsigned]
    split at hsign
    · cases hsign
    · cases hsign
      rfl

end TableQuery.Number
