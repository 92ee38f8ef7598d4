import Mathlib.Algebra.Group.Nat.Defs
import TableQuery.Decimal.Shortest

/-!
# Rounding decimals to doubles

The magnitude nearest to a ratio depends on the ratio alone: numerator and denominator may be
multiplied by the same number (`magnitudeOfRatio_congr`).  So the magnitude of a decimal depends on
its value alone, and zeros may move from its digits to its exponent (`magnitude?_mul_pow`).

Rounding changes nothing where there is nothing to round.  The full decimal expansion of a magnitude
has that magnitude (`magnitude?_expansion`), which is why the search for the fewest digits that read
back always ends with digits that do.  An integer of at most 64 bits is in the range of doubles
(`magnitude?_integer`).
-/

namespace TableQuery

namespace Double

/-! ## Rounded quotients -/

theorem roundedQuotient_mul_right (num den : Nat) {c : Nat} (hc : 0 < c) :
    roundedQuotient (num * c) (den * c) = roundedQuotient num den := by
  have hq : num * c / (den * c) = num / den := Nat.mul_div_mul_right num den hc
  have hr : num * c % (den * c) = num % den * c := Nat.mul_mod_mul_right c num den
  have hlt : 2 * (num % den * c) < den * c ↔ 2 * (num % den) < den := by
    rw [← Nat.mul_assoc]
    exact Nat.mul_lt_mul_right hc
  have heq : 2 * (num % den * c) = den * c ↔ 2 * (num % den) = den := by
    rw [← Nat.mul_assoc]
    exact Nat.mul_left_inj (Nat.pos_iff_ne_zero.mp hc)
  simp only [roundedQuotient, hq, hr, hlt, heq]

/-- A quotient that is an integer is not rounded. -/
theorem roundedQuotient_mul_self (quotient : Nat) {den : Nat} (hd : 0 < den) :
    roundedQuotient (quotient * den) den = quotient := by
  simp [roundedQuotient, Nat.mul_div_cancel quotient hd, hd]

theorem roundedQuotient_le (num den : Nat) : roundedQuotient num den ≤ num / den + 1 := by
  simp only [roundedQuotient]
  split <;> omega

/-! ## Ratios -/

theorem magnitudeOfRatio_mul_right (num den : Nat) {c : Nat} (hc : 0 < c) :
    magnitudeOfRatio (num * c) (den * c) = magnitudeOfRatio num den := by
  have hscaled : (num * c) <<< 1074 = num <<< 1074 * c := by
    rw [Nat.shiftLeft_eq, Nat.shiftLeft_eq, Nat.mul_right_comm]
  have hden : ∀ k, (den * c) <<< k = den <<< k * c := fun k => by
    rw [Nat.shiftLeft_eq, Nat.shiftLeft_eq, Nat.mul_right_comm]
  simp only [magnitudeOfRatio, hscaled, hden, Nat.mul_div_mul_right _ _ hc,
    roundedQuotient_mul_right _ _ hc]

/-- Equal ratios have equal magnitudes. -/
theorem magnitudeOfRatio_congr {num den num' den' : Nat} (hd : 0 < den) (hd' : 0 < den')
    (h : num * den' = num' * den) : magnitudeOfRatio num den = magnitudeOfRatio num' den' := by
  rw [← magnitudeOfRatio_mul_right num den hd', ← magnitudeOfRatio_mul_right num' den' hd, h,
    Nat.mul_comm den den']

/-! ## Whole numbers of steps -/

theorem steps_eq_zero_iff {m : Nat} : steps m = 0 ↔ m = 0 := by
  simp only [steps]
  split
  next h => omega
  next h =>
    rw [Nat.shiftLeft_eq]
    have : 0 < 2 ^ (m / 0x10000000000000 - 1) := Nat.two_pow_pos _
    have hpos : 0 < (0x10000000000000 + m % 0x10000000000000) * 2 ^ (m / 0x10000000000000 - 1) :=
      Nat.mul_pos (by omega) this
    omega

/-- A whole number of steps is rounded back to its magnitude. -/
theorem magnitude_of_steps (m : Nat) :
    ((steps m).log2 - 52) <<< 52 + roundedQuotient (steps m) (1 <<< ((steps m).log2 - 52)) = m := by
  by_cases hz : m = 0
  · subst hz
    decide
  have hne : steps m ≠ 0 := fun h => hz (steps_eq_zero_iff.mp h)
  by_cases he : m / 0x10000000000000 = 0
  · -- below the first binade the steps are the significand and nothing is shifted
    have hs : steps m = m := by
      simp only [steps, he, if_pos]
      omega
    have hlog : m.log2 < 52 := (Nat.log2_lt hz).mpr (by omega)
    have hshift : m.log2 - 52 = 0 := by omega
    have hq := roundedQuotient_mul_self m Nat.one_pos
    rw [Nat.mul_one] at hq
    rw [hs, hshift]
    simpa using hq
  · have hs : steps m = (0x10000000000000 + m % 0x10000000000000) * 2 ^ (m / 0x10000000000000 - 1) := by
      simp only [steps, if_neg he, Nat.shiftLeft_eq]
    have hpow : 0 < 2 ^ (m / 0x10000000000000 - 1) := Nat.two_pow_pos _
    have hfrac : m % 0x10000000000000 < 0x10000000000000 := Nat.mod_lt _ (by decide)
    have hlog : (steps m).log2 = 52 + (m / 0x10000000000000 - 1) := by
      rw [Nat.log2_eq_iff hne, hs, Nat.pow_succ, Nat.pow_add]
      constructor
      · exact Nat.mul_le_mul_right _ (by omega)
      · rw [Nat.mul_right_comm]
        exact Nat.mul_lt_mul_of_pos_right (by omega) hpow
    have hshift : (steps m).log2 - 52 = m / 0x10000000000000 - 1 := by omega
    rw [hshift, Nat.one_shiftLeft, hs, roundedQuotient_mul_self _ hpow, Nat.shiftLeft_eq]
    omega

/-- Any ratio that is a whole number of steps is rounded back to its magnitude. -/
theorem magnitudeOfRatio_steps (m : Nat) {den : Nat} (hd : 0 < den) {num : Nat}
    (h : num <<< 1074 = steps m * den) : magnitudeOfRatio num den = m := by
  simp only [magnitudeOfRatio, h, Nat.mul_div_cancel _ hd]
  have hden : den <<< ((steps m).log2 - 52) = 1 <<< ((steps m).log2 - 52) * den := by
    rw [Nat.shiftLeft_eq, Nat.shiftLeft_eq, Nat.one_mul, Nat.mul_comm]
  rw [hden, roundedQuotient_mul_right _ _ hd]
  exact magnitude_of_steps m

/-- A step of 2^-k is 5^k * 10^-k. -/
theorem shiftLeft_five_pow (n k : Nat) : (n * Nat.pow 5 k) <<< k = n * 10 ^ k := by
  show (n * 5 ^ k) <<< k = n * 10 ^ k
  rw [Nat.shiftLeft_eq, Nat.mul_assoc, ← Nat.mul_pow]

theorem steps_lt {m : Nat} (hm : m < infinity) : steps m < 2 ^ 2098 := by
  have hfrac : m % 0x10000000000000 < 0x10000000000000 := Nat.mod_lt _ (by decide)
  have hexp : m / 0x10000000000000 ≤ 2046 := by
    unfold infinity at hm
    omega
  simp only [steps]
  split
  next h =>
    calc m % 0x10000000000000 < 2 ^ 52 := hfrac
      _ ≤ 2 ^ 2098 := Nat.pow_le_pow_right (by decide) (by decide)
  next h =>
    rw [Nat.shiftLeft_eq]
    calc (0x10000000000000 + m % 0x10000000000000) * 2 ^ (m / 0x10000000000000 - 1)
        < 2 ^ 53 * 2 ^ (m / 0x10000000000000 - 1) :=
          Nat.mul_lt_mul_of_pos_right (by omega) (Nat.two_pow_pos _)
      _ = 2 ^ (53 + (m / 0x10000000000000 - 1)) := (Nat.pow_add ..).symm
      _ ≤ 2 ^ 2098 := Nat.pow_le_pow_right (by decide) (by omega)

theorem shiftLeft_div_lt {num den j : Nat} (hd : 0 < den) (h : num < den * 2 ^ j) (k : Nat) :
    num <<< k / den < 2 ^ (j + k) := by
  rw [Nat.div_lt_iff_lt_mul hd, Nat.shiftLeft_eq]
  calc num * 2 ^ k < den * 2 ^ j * 2 ^ k := Nat.mul_lt_mul_of_pos_right h (Nat.two_pow_pos _)
    _ = 2 ^ (j + k) * den := by rw [Nat.mul_assoc, ← Nat.pow_add, Nat.mul_comm]

/-- A ratio below 2^64 is in the range of doubles. -/
theorem magnitudeOfRatio_lt {num den : Nat} (hd : 0 < den) (h : num < den * 2 ^ 64) :
    magnitudeOfRatio num den < infinity := by
  have hs : num <<< 1074 / den < 2 ^ (64 + 1074) := shiftLeft_div_lt hd h 1074
  have hlog : (num <<< 1074 / den).log2 ≤ 1137 := by
    by_cases hz : num <<< 1074 / den = 0
    · rw [hz]
      decide
    · have := (Nat.log2_lt hz).mpr hs
      omega
  have hlt : num <<< 1074 / den < 2 ^ ((num <<< 1074 / den).log2 + 1) := Nat.lt_log2_self
  simp only [magnitudeOfRatio]
  generalize hshift : (num <<< 1074 / den).log2 - 52 = shift
  have hquot : num <<< 1074 / den <<< shift < 2 ^ 53 := by
    rw [Nat.shiftLeft_eq den, ← Nat.div_div_eq_div_mul, Nat.div_lt_iff_lt_mul (Nat.two_pow_pos _),
      ← Nat.pow_add]
    exact Nat.lt_of_lt_of_le hlt (Nat.pow_le_pow_right (by decide) (by omega))
  have hround := roundedQuotient_le (num <<< 1074) (den <<< shift)
  rw [Nat.shiftLeft_eq shift 52]
  unfold infinity
  omega

end Double

namespace Decimal

/-! ## The magnitude of a decimal -/

theorem digitCount_mul_pow {n : Nat} (hn : n ≠ 0) (k : Nat) :
    digitCount (n * 10 ^ k) = digitCount n + k := by
  have bounds : ∀ m j, 0 < j → (digitCount m ≤ j ↔ m < 10 ^ j) := fun m j hj =>
    Nat.length_toDigits_le_iff (by decide) hj
  have hpos : 0 < digitCount n := Nat.length_toDigits_pos
  have hpos' : 0 < digitCount (n * 10 ^ k) := Nat.length_toDigits_pos
  have hpow : 0 < 10 ^ k := Nat.pow_pos (by decide)
  apply Nat.le_antisymm
  · rw [bounds _ _ (by omega), Nat.pow_add]
    exact Nat.mul_lt_mul_of_pos_right ((bounds n _ hpos).mp (Nat.le_refl _)) hpow
  · have hlt : n * 10 ^ k < 10 ^ digitCount (n * 10 ^ k) :=
      (bounds _ _ hpos').mp (Nat.le_refl _)
    have hk : k < digitCount (n * 10 ^ k) := by
      apply (Nat.pow_lt_pow_iff_right (a := 10) (by decide)).mp
      exact Nat.lt_of_le_of_lt (Nat.le_mul_of_pos_left _ (Nat.pos_of_ne_zero hn)) hlt
    have hsplit : digitCount (n * 10 ^ k) = digitCount (n * 10 ^ k) - k + k := by omega
    rw [hsplit, Nat.pow_add] at hlt
    have := (bounds n (digitCount (n * 10 ^ k) - k) (by omega)).mpr (Nat.lt_of_mul_lt_mul_right hlt)
    omega

/-- The magnitude of a decimal in range, as that of one ratio whatever the sign of the exponent. -/
theorem magnitude?_eq (d : Decimal) :
    d.magnitude? =
      if d.digits = 0 then some 0
      else if 310 < (digitCount d.digits : Int) + d.exponent then none
      else if (digitCount d.digits : Int) + d.exponent < -330 then some 0
      else
        let magnitude :=
          Double.magnitudeOfRatio (d.digits * 10 ^ d.exponent.toNat) (10 ^ (-d.exponent).toNat)
        if magnitude < Double.infinity then some magnitude else none := by
  have hratio : (if 0 ≤ d.exponent then
        Double.magnitudeOfRatio (d.digits * Nat.pow 10 d.exponent.toNat) 1
      else Double.magnitudeOfRatio d.digits (Nat.pow 10 (-d.exponent).toNat)) =
      Double.magnitudeOfRatio (d.digits * 10 ^ d.exponent.toNat) (10 ^ (-d.exponent).toNat) := by
    split
    next h =>
      have : (-d.exponent).toNat = 0 := by omega
      rw [this]
      rfl
    next h =>
      have : d.exponent.toNat = 0 := by omega
      rw [this, Nat.pow_zero, Nat.mul_one]
      rfl
  simp only [magnitude?, hratio]

/-- Zeros at the end of the digits may move to the exponent. -/
theorem magnitude?_mul_pow (sign : Bool) (digits k : Nat) (exponent : Int) :
    (Decimal.mk sign (digits * 10 ^ k) exponent).magnitude? =
      (Decimal.mk sign digits (exponent + k)).magnitude? := by
  rw [magnitude?_eq, magnitude?_eq]
  have hpow : 0 < 10 ^ k := Nat.pow_pos (by decide)
  by_cases hz : digits = 0
  · simp [hz]
  have hz' : digits * 10 ^ k ≠ 0 := Nat.mul_ne_zero hz (Nat.pos_iff_ne_zero.mp hpow)
  have hsize : (digitCount (digits * 10 ^ k) : Int) + exponent =
      (digitCount digits : Int) + (exponent + k) := by
    rw [digitCount_mul_pow hz]
    omega
  have hratio : Double.magnitudeOfRatio (digits * 10 ^ k * 10 ^ exponent.toNat)
        (10 ^ (-exponent).toNat) =
      Double.magnitudeOfRatio (digits * 10 ^ (exponent + k).toNat)
        (10 ^ (-(exponent + k)).toNat) := by
    -- both ratios are the same rational number
    apply Double.magnitudeOfRatio_congr (Nat.pow_pos (by decide)) (Nat.pow_pos (by decide))
    rw [Nat.mul_assoc, Nat.mul_assoc, Nat.mul_assoc, ← Nat.pow_add, ← Nat.pow_add, ← Nat.pow_add]
    congr 2
    omega
  simp only [hz, hz', if_false, hsize, hratio]

/-- The full expansion of a magnitude has that magnitude. -/
theorem magnitude?_expansion (sign : Bool) {m : Nat} (hm : m < Double.infinity) :
    (Decimal.mk sign (Double.expansion m) (-1074)).magnitude? = some m := by
  rw [magnitude?_eq]
  by_cases hz : m = 0
  · have hzero : Double.expansion m = 0 :=
      Nat.mul_eq_zero.mpr (.inl (Double.steps_eq_zero_iff.mpr hz))
    rw [if_pos hzero, hz]
  have hone : 1 ≤ Double.steps m :=
    Nat.one_le_iff_ne_zero.mpr fun h => hz (Double.steps_eq_zero_iff.mp h)
  have hfive : 0 < Nat.pow 5 1074 := by decide +kernel
  have hne : Double.expansion m ≠ 0 := Nat.pos_iff_ne_zero.mp (Nat.mul_pos hone hfive)
  have hupper : digitCount (Double.expansion m) ≤ 1384 := by
    refine (Nat.length_toDigits_le_iff (by decide) (by decide)).mpr ?_
    have hlt := Nat.mul_lt_mul_of_pos_right (Double.steps_lt hm) hfive
    exact Nat.lt_of_lt_of_le hlt (by decide +kernel)
  have hlower : 743 < digitCount (Double.expansion m) := by
    have hle : 10 ^ 743 ≤ Double.expansion m :=
      Nat.le_trans (by decide +kernel) (Nat.mul_le_mul_right (Nat.pow 5 1074) hone)
    refine Nat.lt_of_not_le fun h => ?_
    have hlt := (Nat.length_toDigits_le_iff (by decide) (by decide)).mp h
    exact Nat.lt_irrefl _ (Nat.lt_of_le_of_lt hle hlt)
  have hexact : Double.magnitudeOfRatio (Double.expansion m * 10 ^ (-1074 : Int).toNat)
      (10 ^ (-(-1074) : Int).toNat) = m := by
    have hnum : (-1074 : Int).toNat = 0 := rfl
    have hden : (-(-1074) : Int).toNat = 1074 := rfl
    refine Double.magnitudeOfRatio_steps m (Nat.pow_pos (by decide)) ?_
    rw [hnum, hden, Nat.pow_zero, Nat.mul_one, Double.expansion]
    generalize 1074 = k
    exact Double.shiftLeft_five_pow (Double.steps m) k
  simp only [hexact]
  rw [if_neg hne, if_neg (by omega), if_neg (by omega), if_pos hm]

/-- An integer of at most 64 bits is in the range of doubles. -/
theorem magnitude?_integer (sign : Bool) {n : Nat} (hn : n < 2 ^ 64) :
    ∃ m < Double.infinity, (Decimal.mk sign n 0).magnitude? = some m := by
  rw [magnitude?_eq]
  by_cases hz : n = 0
  · exact ⟨0, by decide, by simp [hz]⟩
  have hupper : digitCount n ≤ 20 := by
    refine (Nat.length_toDigits_le_iff (by decide) (by decide)).mpr ?_
    exact Nat.lt_of_lt_of_le hn (by decide)
  have hm : Double.magnitudeOfRatio (n * 10 ^ (0 : Int).toNat) (10 ^ (-0 : Int).toNat) <
      Double.infinity := by
    apply Double.magnitudeOfRatio_lt (by decide)
    show n * 1 < 1 * 2 ^ 64
    omega
  refine ⟨_, hm, ?_⟩
  simp only
  rw [if_neg hz, if_neg (by omega), if_neg (by omega), if_pos hm]

end Decimal

end TableQuery
