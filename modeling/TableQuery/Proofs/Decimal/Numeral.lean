import Mathlib.Data.List.Induction
import TableQuery.Proofs.Decimal.Rounding
import TableQuery.Json.Printer
import TableQuery.Text.Blank

/-!
# Numerals read back

A *numeral* is a text of digits, signs, points and exponent marks, as integers and doubles are written.
`Denotes` says which number a text is read as, up to zeros at the end of its digits: the magnitude of
a decimal does not tell such decimals apart.

The digits of `Double.shortest` read back (`shortest_readsBack`), and every place the point can have
denotes the same number (`denotes_placePoint`, `denotes_withExponent`).  So the text of a double is
read as that double (`toDouble?_toChars`), in every style, and two doubles with one text are the same.
-/

namespace TableQuery

namespace Decimal

/-! ## Runs of digits -/

/-- Characters of a class in front of one that is not of the class are read up to that one. -/
theorem takeWhile_append_of_stop {p : Char → Bool} {cs rest : List Char} (hcs : ∀ c ∈ cs, p c = true)
    (hrest : ∀ c, rest.head? = some c → p c = false) :
    (cs ++ rest).takeWhile p = cs ∧ (cs ++ rest).dropWhile p = rest := by
  have hnone : rest.takeWhile p = [] ∧ rest.dropWhile p = rest := by
    cases rest with
    | nil => exact ⟨rfl, rfl⟩
    | cons c cs => simp [hrest c rfl]
  rw [List.takeWhile_append_of_pos hcs, List.dropWhile_append_of_pos hcs, hnone.1, hnone.2,
    List.append_nil]
  exact ⟨rfl, rfl⟩

/-- Digits in front of something else are split off whole. -/
theorem splitDigits_append_of_digits {ds rest : List Char} (hds : ∀ c ∈ ds, c.isDigit = true)
    (hrest : ∀ c, rest.head? = some c → c.isDigit = false) :
    splitDigits (ds ++ rest) = (ds, rest) := by
  obtain ⟨htake, hdrop⟩ := takeWhile_append_of_stop hds hrest
  rw [splitDigits, htake, hdrop]

theorem digitsValue_append (ds es : List Char) :
    digitsValue (ds ++ es) = digitsValue ds * 10 ^ es.length + digitsValue es := by
  rw [digitsValue, Nat.ofDigitChars_append, Nat.ofDigitChars_eq_ofDigitChars_zero]
  rw [Nat.mul_comm]
  rfl

theorem toNat_of_isDigit {c : Char} (h : c.isDigit = true) : 48 ≤ c.toNat ∧ c.toNat ≤ 57 := by
  simp only [Char.isDigit, Bool.and_eq_true, decide_eq_true_eq] at h
  exact ⟨UInt32.le_iff_toNat_le.mp h.1, UInt32.le_iff_toNat_le.mp h.2⟩

theorem digitsOf_digitsValue_single {d : Char} (h : d.isDigit = true) :
    digitsOf (digitsValue [d]) = [d] := by
  obtain ⟨hle, hge⟩ := toNat_of_isDigit h
  have hvalue : digitsValue [d] = d.toNat - 48 := by
    simp [digitsValue, Nat.ofDigitChars_cons]
  rw [hvalue, digitsOf, Nat.toDigits_of_lt_base (by omega), List.cons.injEq]
  refine ⟨Char.toNat_inj.mp ?_, rfl⟩
  rw [Nat.toNat_digitChar_of_lt_ten (by omega)]
  omega

/-- Only the digits of zero start with a zero. -/
theorem head?_digitsOf {n : Nat} (h : 0 < n) : (digitsOf n).head? ≠ some '0' := by
  induction n using Nat.strongRecOn with
  | _ n ih =>
    by_cases hsmall : n < 10
    · rw [digitsOf, Nat.toDigits_of_lt_base hsmall]
      simp
      omega
    -- all digits but the last are those of the tenth part
    · rw [digitsOf, Nat.toDigits_of_base_le (by omega) (by omega)]
      have hhead := ih (n / 10) (by omega) (by omega)
      obtain ⟨d, ds, hds⟩ := List.exists_cons_of_ne_nil (digitsOf_ne_nil (n / 10))
      rw [digitsOf] at hds hhead
      rw [hds] at hhead ⊢
      exact hhead

/-- Digits without a leading zero are those of the number that they denote. -/
theorem digitsOf_digitsValue {ds : List Char} (hds : ∀ c ∈ ds, c.isDigit = true) (hne : ds ≠ [])
    (hzero : ds.head? = some '0' → ds = ['0']) : digitsOf (digitsValue ds) = ds := by
  induction ds using List.reverseRecOn with
  | nil => exact absurd rfl hne
  | append_singleton front d ih =>
    have hlast := digitsOf_digitsValue_single (hds d (by simp))
    by_cases hfront : front = []
    · rw [hfront]
      exact hlast
    have hhead : front.head? ≠ some '0' := by
      intro h
      have hsingle := hzero (by simp [List.head?_append, h])
      simp [List.append_eq_singleton_iff, hfront] at hsingle
    have hrest := ih (fun c hc => hds c (List.mem_append_left _ hc)) hfront (fun h => absurd h hhead)
    have hpos : 0 < digitsValue front := by
      refine Nat.pos_of_ne_zero fun h => hhead ?_
      rw [← hrest, h]
      rfl
    have hlt : digitsValue [d] < 10 := by
      have hle := (toNat_of_isDigit (hds d (by simp))).2
      simp [digitsValue, Nat.ofDigitChars_cons]
      omega
    rw [digitsValue_append, Nat.mul_comm, digitsOf, List.length_singleton, Nat.pow_one,
      ← Nat.toDigits_append_toDigits (by decide) hpos hlt]
    exact congr (congrArg _ hrest) hlast

theorem digitsValue_replicate_zero (n : Nat) : digitsValue (List.replicate n '0') = 0 := by
  rw [digitsValue, Nat.ofDigitChars_replicate_zero, Nat.mul_zero]

theorem isDigit_of_mem_replicate_zero {n : Nat} {c : Char} (h : c ∈ List.replicate n '0') :
    c.isDigit = true := by
  rw [List.eq_of_mem_replicate h]
  rfl

theorem isDigit_of_mem_zero : ∀ c ∈ ['0'], c.isDigit = true := by
  intro c hc
  cases List.mem_singleton.mp hc
  rfl

/-! ## Signs and exponents -/

/-- A text with a minus sign if the number is negative. -/
def signed (negative : Bool) (cs : List Char) : List Char := if negative then '-' :: cs else cs

theorem signed_append (negative : Bool) (cs rest : List Char) :
    signed negative (cs ++ rest) = signed negative cs ++ rest := by
  cases negative <;> rfl

theorem splitSign_signed (negative : Bool) {cs : List Char}
    (h : ∀ c, cs.head? = some c → c.isDigit = true) :
    splitSign (signed negative cs) = (negative, cs) := by
  cases negative with
  | true => rfl
  | false =>
    match cs, h with
    | [], _ => rfl
    | c :: cs, h =>
      have hc := h c rfl
      have hminus : c ≠ '-' := by
        intro e
        subst e
        exact absurd hc (by decide)
      have hplus : c ≠ '+' := by
        intro e
        subst e
        exact absurd hc (by decide)
      simp [signed, splitSign, hminus, hplus]

theorem intChars_eq_signed (i : Int) : intChars i = signed (decide (i < 0)) (digitsOf i.natAbs) := by
  simp [intChars, signed]

theorem intChars_natCast (n : Nat) : intChars n = digitsOf n := if_neg (by omega)

/-- What may follow the digits of a numeral: nothing, or an exponent. -/
def IsExponentPart (tail : List Char) (exponent : Int) : Prop :=
  (tail = [] ∧ exponent = 0) ∨ tail = 'e' :: Double.exponentChars exponent

theorem isExponentPart_nil : IsExponentPart [] 0 := .inl ⟨rfl, rfl⟩

/-- A point and digits after it, or nothing. -/
def IsFractionPart (fraction : List Char) : Prop :=
  fraction = [] ∨ ∃ digits, digits ≠ [] ∧ (∀ c ∈ digits, c.isDigit = true) ∧ fraction = '.' :: digits

theorem isFractionPart_cons {digit : Char} {more : List Char}
    (h : ∀ c ∈ digit :: more, c.isDigit = true) : IsFractionPart ('.' :: digit :: more) :=
  .inr ⟨digit :: more, List.cons_ne_nil _ _, h, rfl⟩

theorem exponentTail?_digitsOf (n : Nat) {rest : List Char}
    (hrest : ∀ c, rest.head? = some c → c.isDigit = false) :
    exponentTail? ('-' :: (digitsOf n ++ rest)) = some (-(n : Int), rest) ∧
      exponentTail? ('+' :: (digitsOf n ++ rest)) = some ((n : Int), rest) := by
  have hsplit := splitDigits_append_of_digits (fun c hc => isDigit_of_mem_digitsOf (n := n) hc) hrest
  have hne : (digitsOf n).isEmpty = false := by simpa using digitsOf_ne_nil n
  constructor
  · simp [exponentTail?, splitSign, hsplit, hne]
  · simp [exponentTail?, splitSign, hsplit, hne]

/-- An exponent is read up to what is no digit. -/
theorem exponentTail?_append (exponent : Int) {rest : List Char}
    (hrest : ∀ c, rest.head? = some c → c.isDigit = false) :
    exponentTail? (Double.exponentChars exponent ++ rest) = some (exponent, rest) := by
  obtain ⟨hminus, hplus⟩ := exponentTail?_digitsOf exponent.natAbs hrest
  by_cases h : exponent < 0
  · have hvalue : -(exponent.natAbs : Int) = exponent := by omega
    rw [Double.exponentChars, if_pos h, intChars, if_pos h, List.cons_append, hminus, hvalue]
  · have hvalue : (exponent.natAbs : Int) = exponent := by omega
    rw [Double.exponentChars, if_neg h, intChars, if_neg h, List.cons_append, hplus, hvalue]

theorem exponentTail?_exponentChars (exponent : Int) :
    exponentTail? (Double.exponentChars exponent) = some (exponent, []) := by
  have hnil : ∀ c, ([] : List Char).head? = some c → c.isDigit = false := by simp
  simpa using exponentTail?_append exponent hnil

theorem not_isDigit_of_exponentPart {tail : List Char} {exponent : Int}
    (h : IsExponentPart tail exponent) : ∀ c, tail.head? = some c → c.isDigit = false := by
  intro c hc
  obtain ⟨rfl, _⟩ | rfl := h
  · cases hc
  · cases hc
    rfl

/-! ## Reading numerals -/

theorem isDigit_of_head?_append {ds : List Char} (rest : List Char)
    (hds : ∀ c ∈ ds, c.isDigit = true) (hne : ds ≠ []) :
    ∀ c, (ds ++ rest).head? = some c → c.isDigit = true := by
  obtain ⟨d, ds, rfl⟩ := List.exists_cons_of_ne_nil hne
  intro c hc
  cases hc
  exact hds d (List.mem_cons_self ..)

theorem splitFraction_exponentPart {tail : List Char} {exponent : Int}
    (h : IsExponentPart tail exponent) : splitFraction tail = ([], tail) := by
  obtain ⟨rfl, _⟩ | rfl := h <;> rfl

/-- Digits with an exponent or none. -/
theorem ofChars?_whole (negative : Bool) {whole tail : List Char} {exponent : Int}
    (hw : ∀ c ∈ whole, c.isDigit = true) (hne : whole ≠ []) (ht : IsExponentPart tail exponent) :
    ofChars? (signed negative (whole ++ tail)) = some (ofParts negative whole [] exponent) := by
  have hsign := splitSign_signed negative (isDigit_of_head?_append tail hw hne)
  have hsplit := splitDigits_append_of_digits hw (not_isDigit_of_exponentPart ht)
  simp only [ofChars?, hsign, hsplit, splitFraction_exponentPart ht]
  obtain ⟨rfl, rfl⟩ | rfl := ht
  · simp [hne]
  · simp [hne, exponentTail?_exponentChars]

/-- Digits with a point between them, and an exponent or none. -/
theorem ofChars?_point (negative : Bool) {whole fraction tail : List Char} {exponent : Int}
    (hw : ∀ c ∈ whole, c.isDigit = true) (hf : ∀ c ∈ fraction, c.isDigit = true) (hne : whole ≠ [])
    (ht : IsExponentPart tail exponent) :
    ofChars? (signed negative (whole ++ '.' :: (fraction ++ tail))) =
      some (ofParts negative whole fraction exponent) := by
  have hsign := splitSign_signed negative (isDigit_of_head?_append ('.' :: (fraction ++ tail)) hw hne)
  have hwhole : splitDigits (whole ++ '.' :: (fraction ++ tail)) =
      (whole, '.' :: (fraction ++ tail)) := by
    apply splitDigits_append_of_digits hw
    intro c hc
    cases hc
    rfl
  have hsplit := splitDigits_append_of_digits hf (not_isDigit_of_exponentPart ht)
  simp only [ofChars?, hsign, hwhole, splitFraction, hsplit]
  obtain ⟨rfl, rfl⟩ | rfl := ht
  · simp [hne]
  · simp [hne, exponentTail?_exponentChars]

/-- Digits with a fraction, an exponent, both or none. -/
theorem ofChars?_parts (negative : Bool) {whole fraction tail : List Char} {exponent : Int}
    (hw : ∀ c ∈ whole, c.isDigit = true) (hne : whole ≠ []) (hf : IsFractionPart fraction)
    (ht : IsExponentPart tail exponent) :
    ofChars? (signed negative (whole ++ (fraction ++ tail))) =
      some (ofParts negative whole fraction.tail exponent) := by
  obtain rfl | ⟨digits, -, hdigits, rfl⟩ := hf
  · exact ofChars?_whole negative hw hne ht
  · exact ofChars?_point negative hw hdigits hne ht

/-- A text is read as a number of the given sign, and of the magnitude of the given digits and
exponent. -/
def Denotes (cs : List Char) (negative : Bool) (digits : Nat) (exponent : Int) : Prop :=
  ∃ d, ofChars? cs = some d ∧ d.negative = negative ∧
    d.magnitude? = (Decimal.mk negative digits exponent).magnitude?

end Decimal

namespace Double

open Decimal

/-! ## The digits of a double -/

/-- A text of digits is what is left of it without the zeros at its end, and these zeros. -/
theorem exists_stripZeros_append (ds : List Char) :
    ∃ k, ds = stripZeros ds ++ List.replicate k '0' := by
  have hzeros : (ds.reverse.takeWhile (· == '0')).reverse =
      List.replicate (ds.reverse.takeWhile (· == '0')).length '0' := by
    rw [← List.reverse_replicate]
    congr 1
    apply List.eq_replicate_of_mem
    intro c hc
    simpa using (List.all_eq_true.mp List.all_takeWhile) c hc
  refine ⟨(ds.reverse.takeWhile (· == '0')).length, ?_⟩
  rw [stripZeros, ← hzeros, ← List.reverse_append, List.takeWhile_append_dropWhile,
    List.reverse_reverse]

theorem of_pick? {reads : Nat → Int → Bool} {preferBelow : Bool} {below : Nat} {place : Int}
    {r : Nat × Int}
    (h : pick? preferBelow below place (reads below place) (reads (below + 1) place) = some r) :
    reads r.1 r.2 = true := by
  cases hbelow : reads below place <;> cases habove : reads (below + 1) place <;>
    rw [hbelow, habove] at h
  · cases h
  · cases h
    exact habove
  · cases h
    exact hbelow
  · cases h
    cases preferBelow with
    | true => exact hbelow
    | false => exact habove

/-- The digits that the search finds read back, since the full expansion does. -/
theorem magnitude?_shortest (tieUp negative : Bool) {m : Nat} (hm : m < infinity) :
    (Decimal.mk negative (shortest tieUp m).1 (shortest tieUp m).2).magnitude? = some m := by
  have hall : ∀ found : Option (Nat × Int),
      (∀ r, found = some r → readsBack m r.1 r.2 = true) →
      (Decimal.mk negative (found.getD (expansion m, -1074)).1
        (found.getD (expansion m, -1074)).2).magnitude? = some m := by
    intro found hfound
    cases found with
    | none => exact magnitude?_expansion negative hm
    | some r => exact eq_of_beq (hfound r rfl)
  refine hall _ fun r hr => ?_
  obtain ⟨i, _, hcut⟩ := List.exists_of_findSome?_eq_some hr
  exact of_pick? hcut

/-! ## Where the point stands -/

/-- The two ways in which a whole number ends: with nothing, or with one zero after a point. -/
def IsWholeMark (mark : List Char) : Prop := mark = [] ∨ mark = ['.', '0']

/-- Zeros between the point and the digits. -/
theorem denotes_zerosBefore (negative : Bool) {ds : List Char} (hds : ∀ c ∈ ds, c.isDigit = true)
    (zeros : Nat) :
    Denotes (signed negative ('0' :: '.' :: (List.replicate zeros '0' ++ ds))) negative
      (digitsValue ds) (-(ds.length + zeros : Int)) := by
  have hf : ∀ c ∈ List.replicate zeros '0' ++ ds, c.isDigit = true := by
    intro c hc
    cases List.mem_append.mp hc with
    | inl h => exact isDigit_of_mem_replicate_zero h
    | inr h => exact hds c h
  have hread := ofChars?_point negative isDigit_of_mem_zero hf (by decide) isExponentPart_nil
  rw [List.append_nil] at hread
  refine ⟨_, hread, rfl, ?_⟩
  have hvalue : digitsValue (['0'] ++ (List.replicate zeros '0' ++ ds)) = digitsValue ds := by
    have hzero : digitsValue ['0'] = 0 := rfl
    rw [digitsValue_append, digitsValue_append, digitsValue_replicate_zero, hzero, Nat.zero_mul,
      Nat.zero_mul, Nat.zero_add, Nat.zero_add]
  have hexp : (0 : Int) - (List.replicate zeros '0' ++ ds).length = -(ds.length + zeros : Int) := by
    rw [List.length_append, List.length_replicate]
    omega
  rw [ofParts, hvalue, hexp]

/-- The point between two digits. -/
theorem denotes_pointBetween (negative : Bool) {ds : List Char} (hds : ∀ c ∈ ds, c.isDigit = true)
    {place : Nat} (hpos : 0 < place) (hlt : place < ds.length) :
    Denotes (signed negative (ds.take place ++ '.' :: ds.drop place)) negative (digitsValue ds)
      ((place : Int) - ds.length) := by
  have hw : ∀ c ∈ ds.take place, c.isDigit = true := fun c hc => hds c (List.mem_of_mem_take hc)
  have hf : ∀ c ∈ ds.drop place, c.isDigit = true := fun c hc => hds c (List.mem_of_mem_drop hc)
  have hnz : ds.take place ≠ [] := by
    intro h
    have hlen := congrArg List.length h
    rw [List.length_take] at hlen
    simp only [List.length_nil] at hlen
    omega
  have hread := ofChars?_point negative hw hf hnz isExponentPart_nil
  rw [List.append_nil] at hread
  refine ⟨_, hread, rfl, ?_⟩
  have hexp : (0 : Int) - (ds.drop place).length = (place : Int) - ds.length := by
    rw [List.length_drop]
    omega
  rw [ofParts, List.take_append_drop, hexp]

/-- Zeros after the digits, and the mark of a whole number. -/
theorem denotes_zerosAfter (negative : Bool) {mark ds : List Char} (hmark : IsWholeMark mark)
    (hds : ∀ c ∈ ds, c.isDigit = true) (hne : ds ≠ []) (zeros : Nat) :
    Denotes (signed negative (ds ++ List.replicate zeros '0' ++ mark)) negative (digitsValue ds)
      zeros := by
  have hwhole : ∀ c ∈ ds ++ List.replicate zeros '0', c.isDigit = true := by
    intro c hc
    cases List.mem_append.mp hc with
    | inl h => exact hds c h
    | inr h => exact isDigit_of_mem_replicate_zero h
  have hnz : ds ++ List.replicate zeros '0' ≠ [] := by simp [hne]
  cases hmark with
  | inl hmark =>
    subst hmark
    refine ⟨_, ofChars?_whole negative hwhole hnz isExponentPart_nil, rfl, ?_⟩
    have hvalue : digitsValue (ds ++ List.replicate zeros '0' ++ []) = digitsValue ds * 10 ^ zeros := by
      rw [List.append_nil, digitsValue_append, digitsValue_replicate_zero, List.length_replicate,
        Nat.add_zero]
    have hexp : (0 : Int) - ([] : List Char).length + (zeros : Int) = zeros := by
      simp only [List.length_nil]
      omega
    rw [ofParts, hvalue, magnitude?_mul_pow, hexp]
  | inr hmark =>
    subst hmark
    have hread := ofChars?_point negative hwhole isDigit_of_mem_zero hnz isExponentPart_nil
    refine ⟨_, hread, rfl, ?_⟩
    have hvalue : digitsValue (ds ++ List.replicate zeros '0' ++ ['0']) =
        digitsValue ds * 10 ^ (zeros + 1) := by
      have hlast : List.replicate zeros '0' ++ ['0'] = List.replicate (zeros + 1) '0' :=
        List.replicate_succ'.symm
      rw [List.append_assoc, hlast, digitsValue_append, digitsValue_replicate_zero,
        List.length_replicate, Nat.add_zero]
    have hexp : (0 : Int) - (['0'] : List Char).length + ((zeros + 1 : Nat) : Int) = zeros := by
      simp only [List.length_cons, List.length_nil]
      omega
    rw [ofParts, hvalue, magnitude?_mul_pow, hexp]

/-- Wherever the point falls, digits with it in place denote the same number. -/
theorem denotes_placePoint (negative : Bool) {mark ds : List Char} (hmark : IsWholeMark mark)
    (hds : ∀ c ∈ ds, c.isDigit = true) (hne : ds ≠ []) (exponent : Int) :
    Denotes (signed negative (placePoint mark ds (ds.length + exponent))) negative (digitsValue ds)
      exponent := by
  simp only [placePoint]
  split
  next hle =>
    have hdenotes := denotes_zerosBefore negative hds (-((ds.length : Int) + exponent)).toNat
    have hexp : -(ds.length + (-((ds.length : Int) + exponent)).toNat : Int) = exponent := by omega
    rwa [hexp] at hdenotes
  next hle =>
    have hplace : ((((ds.length : Int) + exponent).toNat : Nat) : Int) = ds.length + exponent := by
      omega
    split
    next hlt =>
      have hdenotes := denotes_pointBetween negative hds (by omega)
        (by omega : ((ds.length : Int) + exponent).toNat < ds.length)
      have hexp : ((((ds.length : Int) + exponent).toNat : Nat) : Int) - ds.length = exponent := by
        omega
      rwa [hexp] at hdenotes
    next hlt =>
      have hdenotes := denotes_zerosAfter negative hmark hds hne
        (((ds.length : Int) + exponent).toNat - ds.length)
      have hexp : (((((ds.length : Int) + exponent).toNat - ds.length : Nat)) : Int) = exponent := by
        omega
      rwa [hexp] at hdenotes

/-- Digits with a point after the first and the exponent that belongs to it. -/
theorem denotes_withExponent (negative : Bool) {ds : List Char} (hds : ∀ c ∈ ds, c.isDigit = true)
    (hne : ds ≠ []) (exponent : Int) :
    Denotes (signed negative (withExponent ds (ds.length + exponent - 1))) negative (digitsValue ds)
      exponent := by
  match ds, hne with
  | [d], _ =>
    have hread := ofChars?_whole negative hds (by simp) (.inr rfl : IsExponentPart _ (1 + exponent - 1))
    refine ⟨_, hread, rfl, ?_⟩
    have hexp : (1 + exponent - 1) - (([] : List Char).length : Int) = exponent := by
      simp only [List.length_nil]
      omega
    rw [ofParts, List.append_nil, hexp]
  | d :: e :: ds, _ =>
    have hw : ∀ c ∈ [d], c.isDigit = true := fun c hc => hds c (by simp_all)
    have hf : ∀ c ∈ e :: ds, c.isDigit = true := fun c hc => hds c (List.mem_cons_of_mem d hc)
    have hread := ofChars?_point negative hw hf (by simp)
      (.inr rfl : IsExponentPart _ ((d :: e :: ds).length + exponent - 1))
    refine ⟨_, hread, rfl, ?_⟩
    have hexp : ((d :: e :: ds).length + exponent - 1) - ((e :: ds).length : Int) = exponent := by
      simp only [List.length_cons]
      omega
    rw [ofParts, hexp]
    rfl

/-! ## The text of a double -/

theorem toDouble?_of_denotes {cs : List Char} {d : Double} {digits : Nat} {exponent : Int}
    (h : Denotes cs d.negative digits exponent)
    (hm : (Decimal.mk d.negative digits exponent).magnitude? = some d.magnitude) :
    (ofChars? cs).bind toDouble? = some d := by
  obtain ⟨decimal, hread, hnegative, hmagnitude⟩ := h
  rw [hread, Option.bind_some, toDouble?, hmagnitude, hm]
  simp [d.finite, hnegative]

theorem toChars_eq_signed (style : Style) (d : Double) :
    d.toChars style = signed d.negative (magnitudeChars style d.magnitude) := rfl

/-- What is laid out is digits without zeros at their ends, with the point in its place. -/
theorem exists_layOut (style : Style) (negative : Bool) {m : Nat} (hz : m ≠ 0) {found : Nat × Int}
    (hread : (Decimal.mk negative found.1 found.2).magnitude? = some m) :
    ∃ ds : List Char, ∃ exponent : Int, (∀ c ∈ ds, c.isDigit = true) ∧ ds ≠ [] ∧
      ds.head? ≠ some '0' ∧
      (Decimal.mk negative (digitsValue ds) exponent).magnitude? = some m ∧
      layOut style found =
        if style.positional (ds.length + exponent - 1) then
          placePoint style.wholeMark ds (ds.length + exponent)
        else withExponent ds (ds.length + exponent - 1) := by
  obtain ⟨digits, exponent⟩ := found
  obtain ⟨k, hk⟩ := exists_stripZeros_append (digitsOf digits)
  have hvalue : digits = digitsValue (stripZeros (digitsOf digits)) * 10 ^ k := by
    rw [← Nat.add_zero (_ * _), ← digitsValue_replicate_zero k]
    conv => lhs; rw [← digitsValue_digitsOf digits, hk]
    rw [digitsValue_append, List.length_replicate]
  have hpoint : ((digitsOf digits).length : Int) + exponent =
      (stripZeros (digitsOf digits)).length + (exponent + k) := by
    have hlen := congrArg List.length hk
    rw [List.length_append, List.length_replicate] at hlen
    omega
  have hpos : 0 < digits := by
    refine Nat.pos_of_ne_zero ?_
    rintro rfl
    exact hz (Option.some.inj hread).symm
  have hne : stripZeros (digitsOf digits) ≠ [] := by
    intro hnil
    rw [hnil] at hvalue
    exact Nat.ne_of_gt hpos (hvalue.trans (Nat.zero_mul _))
  refine ⟨stripZeros (digitsOf digits), exponent + k, ?_, hne, ?_, ?_, ?_⟩
  · intro c hc
    apply isDigit_of_mem_digitsOf (n := digits)
    rw [hk]
    exact List.mem_append_left _ hc
  · intro hzero
    have hhead := head?_digitsOf hpos
    rw [hk, List.head?_append, hzero] at hhead
    exact hhead rfl
  · rw [← magnitude?_mul_pow, ← hvalue]
    exact hread
  · simp only [layOut, hpoint]

/-- The digits that a double is written with denote it. -/
theorem exists_magnitudeChars (style : Style) (negative : Bool) {m : Nat} (hm : m < infinity)
    (hz : m ≠ 0) :
    ∃ ds : List Char, ∃ exponent : Int, (∀ c ∈ ds, c.isDigit = true) ∧ ds ≠ [] ∧
      ds.head? ≠ some '0' ∧
      (Decimal.mk negative (digitsValue ds) exponent).magnitude? = some m ∧
      magnitudeChars style m =
        if style.positional (ds.length + exponent - 1) then
          placePoint style.wholeMark ds (ds.length + exponent)
        else withExponent ds (ds.length + exponent - 1) := by
  rw [magnitudeChars, if_neg hz]
  exact exists_layOut style negative hz (magnitude?_shortest style.tieUp negative hm)

/-- Wherever the point is placed, there is a digit on either side of it, and no zero leads. -/
theorem exists_parts_placePoint {ds : List Char} (hds : ∀ c ∈ ds, c.isDigit = true) (hne : ds ≠ [])
    (hhead : ds.head? ≠ some '0') (point : Int) :
    ∃ digit whole digit' fraction, (∀ c ∈ digit :: whole, c.isDigit = true) ∧
      (digit = '0' → whole = []) ∧ (∀ c ∈ digit' :: fraction, c.isDigit = true) ∧
      placePoint ['.', '0'] ds point = digit :: (whole ++ '.' :: digit' :: fraction) := by
  have hzero : ∀ (n : Nat), ∀ c ∈ List.replicate n '0', c.isDigit = true :=
    fun _ _ => isDigit_of_mem_replicate_zero
  simp only [placePoint]
  split
  next =>
    obtain ⟨digit', fraction, hcons⟩ : ∃ digit' fraction,
        List.replicate (-point).toNat '0' ++ ds = digit' :: fraction :=
      List.exists_cons_of_ne_nil (by simp [hne])
    refine ⟨'0', [], digit', fraction, isDigit_of_mem_zero, fun _ => rfl, ?_, by rw [hcons]; rfl⟩
    rw [← hcons]
    exact List.forall_mem_append.mpr ⟨hzero _, hds⟩
  next hpoint =>
    obtain ⟨digit, more, rfl⟩ := List.exists_cons_of_ne_nil hne
    have hlead : digit ≠ '0' := fun h => hhead (congrArg some h)
    split
    next hlt =>
      obtain ⟨place, hplace⟩ : ∃ place, point.toNat = place + 1 :=
        Nat.exists_eq_add_one_of_ne_zero (by omega)
      obtain ⟨digit', fraction, hfraction⟩ : ∃ digit' fraction,
          more.drop place = digit' :: fraction := by
        refine List.exists_cons_of_ne_nil ?_
        rw [List.length_cons] at hlt
        rw [Ne, List.drop_eq_nil_iff]
        omega
      obtain ⟨hdigit, hmore⟩ := List.forall_mem_cons.mp hds
      refine ⟨digit, more.take place, digit', fraction, ?_, fun h => absurd h hlead, ?_, ?_⟩
      · exact List.forall_mem_cons.mpr ⟨hdigit, fun c hc => hmore c (List.mem_of_mem_take hc)⟩
      · rw [← hfraction]
        exact fun c hc => hmore c (List.mem_of_mem_drop hc)
      · rw [hplace, List.take_succ_cons, List.drop_succ_cons, hfraction, List.cons_append]
    next =>
      refine ⟨digit, more ++ List.replicate (point.toNat - (digit :: more).length) '0', '0', [], ?_,
        fun h => absurd h hlead, isDigit_of_mem_zero, rfl⟩
      rw [← List.cons_append]
      exact List.forall_mem_append.mpr ⟨hds, hzero _⟩

/-- A double is written without a leading zero, and with a fraction or an exponent, which tells it from an
integer. -/
theorem exists_parts_magnitudeChars {magnitude : Nat} (hfinite : magnitude < infinity) :
    ∃ digit whole fraction tail exponent, (∀ c ∈ digit :: whole, c.isDigit = true) ∧
      (digit = '0' → whole = []) ∧ IsFractionPart fraction ∧ IsExponentPart tail exponent ∧
      (fraction.isEmpty && tail.isEmpty) = false ∧
      magnitudeChars Number.style magnitude = digit :: (whole ++ (fraction ++ tail)) := by
  by_cases hz : magnitude = 0
  · subst hz
    exact ⟨'0', [], ['.', '0'], [], 0, isDigit_of_mem_zero, fun _ => rfl,
      isFractionPart_cons isDigit_of_mem_zero, isExponentPart_nil, rfl, rfl⟩
  · obtain ⟨ds, exponent, hds, hne, hhead, _, hchars⟩ :=
      exists_magnitudeChars Number.style false hfinite hz
    rw [hchars]
    split
    · obtain ⟨digit, whole, digit', fraction, hwhole, hlead, hfraction, hplaced⟩ :=
        exists_parts_placePoint hds hne hhead (ds.length + exponent)
      refine ⟨digit, whole, '.' :: digit' :: fraction, [], 0, hwhole, hlead,
        isFractionPart_cons hfraction, isExponentPart_nil, rfl, ?_⟩
      rw [List.append_nil]
      exact hplaced
    · match ds, hne with
      | [digit], _ => exact ⟨digit, [], [], _, _, hds, fun _ => rfl, .inl rfl, .inr rfl, rfl, rfl⟩
      | digit :: digit' :: more, _ =>
        obtain ⟨hdigit, hmore⟩ := List.forall_mem_cons.mp hds
        exact ⟨digit, [], '.' :: digit' :: more, _, _, by simpa using hdigit, fun _ => rfl,
          isFractionPart_cons hmore, .inr rfl, rfl, rfl⟩

/-- A double is read back from its text. -/
theorem toDouble?_toChars {style : Style} (hmark : IsWholeMark style.wholeMark) (d : Double) :
    (ofChars? (d.toChars style)).bind toDouble? = some d := by
  rw [toChars_eq_signed]
  by_cases hz : d.magnitude = 0
  · have hzero : (Decimal.mk d.negative 0 0).magnitude? = some d.magnitude := by rw [hz]; rfl
    refine toDouble?_of_denotes ?_ hzero
    rw [hz, magnitudeChars, if_pos rfl]
    cases hmark with
    | inl hmark =>
      rw [hmark]
      exact ⟨_, ofChars?_whole d.negative isDigit_of_mem_zero (by decide) isExponentPart_nil, rfl, rfl⟩
    | inr hmark =>
      rw [hmark]
      exact ⟨_, ofChars?_point d.negative isDigit_of_mem_zero isDigit_of_mem_zero (by decide)
        isExponentPart_nil, rfl, rfl⟩
  · obtain ⟨ds, exponent, hds, hne, _, hread, hchars⟩ :=
      exists_magnitudeChars style d.negative d.finite hz
    refine toDouble?_of_denotes ?_ hread
    rw [hchars]
    split
    · exact denotes_placePoint d.negative hmark hds hne exponent
    · exact denotes_withExponent d.negative hds hne exponent

/-- Doubles with one text are the same. -/
theorem toChars_injective {style : Style} (hmark : IsWholeMark style.wholeMark) {d e : Double}
    (h : d.toChars style = e.toChars style) : d = e := by
  have hd := toDouble?_toChars hmark d
  rw [h, toDouble?_toChars hmark e] at hd
  exact (Option.some.inj hd).symm

end Double

end TableQuery
