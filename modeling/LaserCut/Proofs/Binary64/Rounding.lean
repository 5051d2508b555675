import LaserCut.Decimal.Fixed
import LaserCut.Proofs.Binary64.Canonical

/-!
# Rounding to binary64

Products, quotients and numerals are rounded to the nearest binary64 number, of two equally near
ones to the even one. The exact result is a fraction throughout.

* `extended`: a fraction as rounding keeps it, with two bits beside the whole part;
* `roundedMantissa_extended`: these are enough to round it to the nearest whole number;
* `RoundsTo`: the numbers that are nearest to a binary64 number;
* `roundWithAccuracy_eq`: they are rounded to it;
* `div_eq`, `mul_eq`, `ofScientific_eq`: so are quotients, products and numerals.
-/

namespace LaserCut.Binary64

open Float.Model Float.Model.UnpackedFloat
open Decimal (roundHalfEven)

/-! ## Fractions -/

/-- A fraction as rounding keeps it: the whole part, the next binary digit, and whether anything is
left below that. -/
def extended (num den : Nat) : ExtendedMantissa :=
  ⟨num / den, 2 * num / den % 2 != 0, 2 * num % den != 0⟩

/-- The same by the remainder and one half. -/
theorem extended_eq {den q r : Nat} (less : r < den) :
    extended (den * q + r) den = ⟨q, decide (den ≤ 2 * r), decide (r ≠ 0 ∧ 2 * r ≠ den)⟩ := by
  have positive : 0 < den := Nat.zero_lt_of_lt less
  have divided {n d m : Nat} (split : n = den * d + m) (less : m < den) :
      n / den = d ∧ n % den = m :=
    (Nat.div_mod_unique positive).mpr ⟨by omega, less⟩
  have decides {n : Nat} {p : Prop} [Decidable p] (h : n ≠ 0 ↔ p) : (n != 0) = decide p := by
    rw [Bool.eq_iff_iff, bne_iff_ne, decide_eq_true_iff, h]
  rw [extended, (divided rfl less).1]
  rcases Nat.lt_or_ge (2 * r) den with below | above
  · obtain ⟨digit, rest⟩ := divided (n := 2 * (den * q + r)) (d := 2 * q) (by ring) below
    rw [digit, rest]
    congr 1 <;> exact decides (by omega)
  · obtain ⟨digit, rest⟩ := divided (n := 2 * (den * q + r)) (d := 2 * q + 1) (m := 2 * r - den)
      (by rw [Nat.mul_add den, Nat.mul_left_comm den]; omega) (by omega)
    rw [digit, rest]
    congr 1 <;> exact decides (by omega)

/-- One digit further down, the digit after the whole part counts as left over. -/
theorem shiftRightOne_extended (num den : Nat) :
    (extended num den).shiftRightOne = extended num (den * 2) := by
  have whole : num / den / 2 = num / (den * 2) := Nat.div_div_eq_div_mul ..
  have digit : 2 * num / (den * 2) = num / den := by
    rw [Nat.mul_comm 2, Nat.mul_div_mul_right _ _ Nat.two_pos]
  have rest : 2 * num % (den * 2) = 2 * num % den + den * (2 * num / den % 2) := Nat.mod_mul
  rw [ExtendedMantissa.shiftRightOne, extended, extended, whole, digit, rest]
  congr 1
  rw [Bool.eq_iff_iff, Bool.or_eq_true, bne_iff_ne, bne_iff_ne, bne_iff_ne]
  rcases Nat.eq_zero_or_pos den with rfl | positive
  · rw [Nat.div_zero, Nat.zero_mul]
    simp
  · have bit := Nat.mod_lt (2 * num / den) Nat.two_pos
    rcases Nat.lt_or_ge 0 (2 * num / den % 2) with one | zero
    · have : den * 1 ≤ den * (2 * num / den % 2) := Nat.mul_le_mul_left den one
      omega
    · rw [Nat.le_zero.mp zero, Nat.mul_zero]
      omega

theorem extended_shiftRight (num den k : Nat) :
    extended num den >>> k = extended num (den * 2 ^ k) := by
  induction k with
  | zero => rw [Nat.pow_zero, Nat.mul_one]; rfl
  | succ k ih =>
    have step : extended num den >>> (k + 1) = (extended num den >>> k).shiftRightOne := rfl
    rw [step, ih, shiftRightOne_extended, Nat.mul_assoc, ← Nat.pow_succ]

/-- Rounding starts from the whole part, and from how the remainder compares with one half. -/
theorem ofMantissaAndAccuracy_eq_extended {num den : Nat} (positive : 0 < den) :
    ExtendedMantissa.ofMantissaAndAccuracy (num / den) (accuracyOfFraction (num % den) den) =
      extended num den := by
  have less := Nat.mod_lt num positive
  conv_rhs => rw [← Nat.div_add_mod num den, extended_eq less]
  rw [accuracyOfFraction]
  generalize num % den = r at less ⊢
  split
  · rename_i exact
    rw [exact, decide_eq_false (by omega), decide_eq_false (by omega)]
    rfl
  · rename_i inexact
    rcases Nat.lt_trichotomy (2 * r) den with below | half | above
    · rw [Nat.compare_eq_lt.mpr below, decide_eq_false (by omega), decide_eq_true (by omega)]
      rfl
    · rw [Nat.compare_eq_eq.mpr half, decide_eq_true (by omega), decide_eq_false (by omega)]
      rfl
    · rw [Nat.compare_eq_gt.mpr above, decide_eq_true (by omega), decide_eq_true (by omega)]
      rfl

theorem roundedMantissa_extended {num den : Nat} (positive : 0 < den) :
    (extended num den).roundedMantissa = roundHalfEven num den := by
  have less := Nat.mod_lt num positive
  conv_lhs => rw [← Nat.div_add_mod num den, extended_eq less]
  rw [roundHalfEven]
  generalize num % den = r at less ⊢
  generalize num / den = q
  rcases Nat.lt_trichotomy (2 * r) den with below | half | above
  · rw [if_pos below, decide_eq_false (by omega)]
    by_cases exact : r = 0
    · rw [decide_eq_false (by omega)]
      rfl
    · rw [decide_eq_true (by omega)]
      rfl
  · rw [if_neg (by omega), if_neg (by omega), decide_eq_true (by omega),
      decide_eq_false (by omega)]
    show q + q % 2 = _
    split <;> omega
  · rw [if_neg (by omega), if_pos above, decide_eq_true (by omega), decide_eq_true (by omega)]
    rfl

/-- What lies within one half of a whole number is rounded to it, if even at one half. -/
theorem roundHalfEven_of_near {num den m : Nat} (positive : 0 < den)
    (least : 2 * (m * den) ≤ 2 * num + den) (most : 2 * num ≤ 2 * (m * den) + den)
    (odd : m % 2 = 1 → 2 * (m * den) < 2 * num + den ∧ 2 * num < 2 * (m * den) + den) :
    roundHalfEven num den = m := by
  have split := Nat.div_add_mod num den
  have less := Nat.mod_lt num positive
  rw [roundHalfEven]
  generalize num / den = q at split ⊢
  generalize num % den = r at split less ⊢
  rw [Nat.mul_comm den q] at split
  -- The whole part is the number itself or one less.
  have near : m = q ∨ m = q + 1 := by
    have upper : q ≤ m := by
      by_contra more
      have : (m + 1) * den ≤ q * den := Nat.mul_le_mul_right den (by omega)
      rw [Nat.succ_mul] at this
      omega
    have lower : m ≤ q + 1 := by
      by_contra more
      have : (q + 2) * den ≤ m * den := Nat.mul_le_mul_right den (by omega)
      rw [Nat.add_mul] at this
      omega
    omega
  rcases near with rfl | rfl
  · grind
  · rw [Nat.add_mul] at least most odd
    grind

/-- The same of a fraction. -/
theorem roundHalfEven_eq {num den m : Nat} (positive : 0 < den)
    (low : (m : ℚ) - 1 / 2 ≤ num / den) (high : (num : ℚ) / den ≤ m + 1 / 2)
    (odd : m % 2 = 1 → (m : ℚ) - 1 / 2 < num / den ∧ (num : ℚ) / den < m + 1 / 2) :
    roundHalfEven num den = m := by
  have den_pos : (0 : ℚ) < den := Nat.cast_pos.mpr positive
  rw [le_div_iff₀ den_pos] at low
  rw [div_le_iff₀ den_pos] at high
  rw [lt_div_iff₀ den_pos, div_lt_iff₀ den_pos] at odd
  refine roundHalfEven_of_near positive ?_ ?_ fun h => ⟨?_, ?_⟩
  · have : (2 * (m * den) : ℚ) ≤ 2 * num + den := by linarith
    exact_mod_cast this
  · have : (2 * num : ℚ) ≤ 2 * (m * den) + den := by linarith
    exact_mod_cast this
  · have : (2 * (m * den) : ℚ) < 2 * num + den := by linarith [(odd h).1]
    exact_mod_cast this
  · have : (2 * num : ℚ) < 2 * (m * den) + den := by linarith [(odd h).2]
    exact_mod_cast this

/-! ## Numbers near a binary64 number -/

/-- How far the next number below is, in halves of a unit: below a power of two it is nearer. -/
def gap (m : Nat) (e : Int) : Nat := if m = 2 ^ 52 ∧ -1074 < e then 1 else 2

/-- The number is within half the way from `m * 2 ^ e` to the next numbers, and nearer than that if
`m` is odd. -/
structure RoundsTo (m : Nat) (e : Int) (v : ℚ) : Prop where
  low : (m : ℚ) - gap m e / 4 ≤ v / 2 ^ e
  high : v / 2 ^ e ≤ m + 1 / 2
  odd : m % 2 = 1 → (m : ℚ) - 1 / 2 < v / 2 ^ e ∧ v / 2 ^ e < m + 1 / 2

section Target

variable {num den : Nat} {E : Int} {v : ℚ} (positive : 0 < den) (value : v = num / den * 2 ^ E)

include positive value

/-- A fraction has no fewer digits than its size asks for. -/
theorem le_log2_div {a : Int} (h : 2 ^ a ≤ v) : a ≤ (num / den).log2 + E := by
  have den_pos : (0 : ℚ) < den := Nat.cast_pos.mpr positive
  have less : (num : ℚ) / den < 2 ^ ((num / den).log2 + 1 : ℕ) := by
    rw [div_lt_iff₀ den_pos]
    have : num < 2 ^ ((num / den).log2 + 1) * den :=
      (Nat.div_lt_iff_lt_mul positive).mp Nat.lt_log2_self
    exact_mod_cast this
  have bound : (2 : ℚ) ^ a < 2 ^ (((num / den).log2 + 1 : ℕ) + E : ℤ) := by
    refine h.trans_lt ?_
    rw [value, zpow_add₀ two_ne_zero, zpow_natCast]
    exact mul_lt_mul_of_pos_right less (by positivity)
  have := (zpow_lt_zpow_iff_right₀ one_lt_two).mp bound
  omega

end Target

/-! ## Rounding -/

/-- The exponent that a number with so many digits is rounded at. -/
def target (m : Nat) (e : Int) : Int := Format.binary64.targetExponent (totalExponent m e)

theorem target_eq (m : Nat) (e : Int) : target m e = max (m.log2 + e - 52) (-1074) := by
  rw [target, totalExponent, targetExponent_eq]
  omega

/-- A mantissa that is rounded already stays. -/
theorem shiftToTargetExponent_canonical {m : Nat} {e : Int} (h : IsCanonical m e) :
    shiftToTargetExponent Format.binary64 m e .exact = (⟨m, false, false⟩, e) := by
  have ne : m ≠ 0 := h.pos.ne'
  have digits : (m.log2 : Int) ≤ 52 := by
    have := log2_le_of_lt h.lt
    omega
  have kept : target m e = e := by
    rw [target_eq]
    rcases h.full with least | full
    · omega
    · have := (Nat.le_log2 ne).mpr full
      have := h.least
      omega
  show shiftToExponent m e .exact (target m e) = _
  rw [kept, shiftToExponent, Int.sub_self]
  show ((⟨m, false, false⟩ : ExtendedMantissa), e + 0) = _
  rw [Int.add_zero]

section Round

variable {num den : Nat} {E : Int} {v : ℚ} {m : Nat} {e : Int} (positive : 0 < den)
  (value : v = num / den * 2 ^ E) (low : E ≤ target (num / den) E)

include positive value low

/-- A fraction that is rounded has no more digits than its size asks for. -/
theorem log2_div_lt {a : Int} (h : v < 2 ^ a) (least : -1074 < a) : (num / den).log2 + E < a := by
  by_cases zero : num / den = 0
  · rw [target_eq, zero, Nat.log2_zero] at low
    rw [zero, Nat.log2_zero]
    omega
  have den_pos : (0 : ℚ) < den := Nat.cast_pos.mpr positive
  have leading : (2 ^ (num / den).log2 : ℚ) ≤ num / den := by
    rw [le_div_iff₀ den_pos]
    have : 2 ^ (num / den).log2 * den ≤ num :=
      (Nat.le_div_iff_mul_le positive).mp (Nat.log2_self_le zero)
    exact_mod_cast this
  have bound : (2 : ℚ) ^ ((num / den).log2 + E : ℤ) < 2 ^ a := by
    refine lt_of_le_of_lt ?_ h
    rw [value, zpow_add₀ two_ne_zero, zpow_natCast]
    exact mul_le_mul_of_nonneg_right leading (by positivity)
  exact (zpow_lt_zpow_iff_right₀ one_lt_two).mp bound

theorem shiftToTargetExponent_fraction :
    ∃ k, shiftToTargetExponent Format.binary64 (num / den) E (accuracyOfFraction (num % den) den) =
      (extended num (den * 2 ^ k), target (num / den) E) ∧
      (num : ℚ) / (den * 2 ^ k : ℕ) = v / 2 ^ target (num / den) E := by
  obtain ⟨k, shift⟩ := Int.le.dest low
  refine ⟨k, ?_, ?_⟩
  · have amount : (target (num / den) E - E).toNat = k := by omega
    show shiftToExponent (num / den) E _ (target (num / den) E) = _
    rw [shiftToExponent, amount, shift, ofMantissaAndAccuracy_eq_extended positive,
      extended_shiftRight]
  · rw [← shift, value, zpow_add₀ two_ne_zero, zpow_natCast, mul_comm ((2 : ℚ) ^ E),
      mul_div_mul_right _ _ (zpow_ne_zero E two_ne_zero), div_div, Nat.cast_mul, Nat.cast_pow,
      Nat.cast_ofNat]

variable (canonical : IsCanonical m e) (near : RoundsTo m e v)

include canonical near

/-- A number is rounded at the exponent of the number it is near, or below it if it rounds up to a
power of two. -/
theorem target_cases :
    target (num / den) E = e ∨ target (num / den) E = e - 1 ∧ m = 2 ^ 52 ∧ -1074 < e ∧
      v / 2 ^ e < 2 ^ 52 := by
  have unit : (0 : ℚ) < 2 ^ e := by positivity
  have least := canonical.least
  have less_iff (a : Nat) : v < 2 ^ (e + a) ↔ v / 2 ^ e < 2 ^ a := by
    rw [div_lt_iff₀ unit, zpow_add₀ two_ne_zero, mul_comm, zpow_natCast]
  have small : v < 2 ^ (e + 53 : ℤ) := by
    have mantissa : (m : ℚ) + 1 ≤ 2 ^ 53 := by exact_mod_cast canonical.lt
    refine (less_iff 53).mpr (near.high.trans_lt ?_)
    linarith
  have upper : target (num / den) E ≤ e := by
    have := log2_div_lt positive value low small (by omega)
    rw [target_eq]
    omega
  by_cases reaches : 2 ^ (e + 52 : ℤ) ≤ v
  · have := le_log2_div positive value reaches
    rw [target_eq] at upper ⊢
    omega
  rcases canonical.full with bottom | full
  · rw [target_eq] at upper ⊢
    omega
  -- The number is below all numbers of full mantissa, so it is near the first of them.
  have short : v / 2 ^ e < 2 ^ 52 := (less_iff 52).mp (not_le.mp reaches)
  have first : m = 2 ^ 52 := by
    by_contra other
    have more : (2 : ℚ) ^ 52 + 1 ≤ m := by exact_mod_cast (by omega : 2 ^ 52 + 1 ≤ m)
    have := near.low
    rw [gap, if_neg (fun h => other h.1)] at this
    push_cast at this
    linarith
  by_cases bottom : e = -1074
  · rw [target_eq] at upper ⊢
    omega
  have half : 2 ^ (e + 51 : ℤ) ≤ v := by
    refine not_lt.mp fun less => ?_
    have smaller := (less_iff 51).mp less
    have := near.low
    rw [gap, if_pos ⟨first, by omega⟩, first] at this
    push_cast at this
    linarith
  have lower := le_log2_div positive value half
  have digits := log2_div_lt positive value low (not_le.mp reaches) (by omega)
  refine .inr ⟨?_, first, by omega, short⟩
  rw [target_eq] at upper ⊢
  omega

/-- Rounding gives the number that is near. -/
theorem roundWithAccuracy_eq (s : Sign) :
    roundWithAccuracy Format.binary64 s (num / den) E (accuracyOfFraction (num % den) den) =
      .finite s m e canonical.pos := by
  obtain ⟨k, shifted, quotient⟩ := shiftToTargetExponent_fraction positive value low
  have den_pos : 0 < den * 2 ^ k := Nat.mul_pos positive (Nat.two_pow_pos k)
  have finish {m' : Nat} {e' : Int} (rounded : roundHalfEven num (den * 2 ^ k) = m')
      (exponent : target (num / den) E = e')
      (final : shiftToTargetExponent Format.binary64 m' e' .exact = (⟨m, false, false⟩, e)) :
      roundWithAccuracy Format.binary64 s (num / den) E (accuracyOfFraction (num % den) den) =
        .finite s m e canonical.pos := by
    simp only [roundWithAccuracy, shifted, roundedMantissa_extended den_pos, rounded, exponent,
      final]
    exact dif_neg canonical.pos.ne'
  rcases target_cases positive value low canonical near with same | ⟨less, rfl, least, small⟩
  · rw [same] at quotient
    refine finish (roundHalfEven_eq den_pos ?_ ?_ ?_) same
      (shiftToTargetExponent_canonical canonical)
    · have quarter : (gap m e : ℚ) ≤ 2 := by
        rw [gap]
        split <;> norm_num
      rw [quotient]
      linarith [near.low]
    · rw [quotient]
      exact near.high
    · rw [quotient]
      exact near.odd
  · have doubled : v / 2 ^ (e - 1) = 2 * (v / 2 ^ e) := by
      rw [zpow_sub_one₀ two_ne_zero]
      field_simp
    have close := near.low
    rw [gap, if_pos ⟨rfl, least⟩] at close
    rw [less, doubled] at quotient
    push_cast at close
    have final : shiftToTargetExponent Format.binary64 (2 ^ 52 <<< 1) (e - 1) .exact =
        (⟨2 ^ 52, false, false⟩, e) :=
      shiftToTargetExponent_shiftLeft Nat.log2_two_pow canonical.least 1
    have power : 2 ^ 52 <<< 1 = 2 ^ 53 := Nat.shiftLeft_eq ..
    rw [power] at final
    refine finish (roundHalfEven_eq den_pos ?_ ?_ fun odd => ?_) less final
    · rw [quotient]
      push_cast
      linarith
    · rw [quotient]
      push_cast
      linarith
    · cases odd

end Round

/-! ## Quotients and products -/

section Operations

variable {m : Nat} {e : Int} (canonical : IsCanonical m e)

include canonical

/-- Quotients are rounded to the number that is near. -/
theorem div_eq {m₁ m₂ : Nat} {e₁ e₂ : Int} (h₁ : 0 < m₁) (h₂ : 0 < m₂)
    (near : RoundsTo m e (m₁ * 2 ^ e₁ / (m₂ * 2 ^ e₂))) :
    UnpackedFloat.div Format.binary64 (.finite .positive m₁ e₁ h₁) (.finite .positive m₂ e₂ h₂) =
      .finite .positive m e canonical.pos := by
  obtain ⟨t, ht⟩ : ∃ t, t = min (e₁ - e₂) (Format.binary64.targetExponent
    (totalExponent m₁ e₁ - totalExponent m₂ e₂)) := ⟨_, rfl⟩
  obtain ⟨k, shift⟩ := Int.le.dest (show t ≤ e₁ - e₂ by omega)
  have divided : divCore Format.binary64 m₁ e₁ m₂ e₂ =
      (m₁ <<< k / m₂, t, accuracyOfFraction (m₁ <<< k % m₂) m₂) := by
    have amount : (e₁ - e₂ - t).toNat = k := by omega
    rw [divCore, ← ht, amount]
  have value : (m₁ * 2 ^ e₁ / (m₂ * 2 ^ e₂) : ℚ) = (m₁ <<< k : ℕ) / m₂ * 2 ^ t := by
    have exponent : e₁ = k + t + e₂ := by omega
    rw [Nat.shiftLeft_eq, exponent, zpow_add₀ two_ne_zero, zpow_add₀ two_ne_zero, zpow_natCast]
    push_cast
    field_simp
  have low : t ≤ target (m₁ <<< k / m₂) t := by
    have leading : (2 : ℚ) ^ (m₁.log2 + e₁ - ((m₂.log2 + 1 : ℕ) + e₂) : ℤ) ≤
        m₁ * 2 ^ e₁ / (m₂ * 2 ^ e₂) := by
      have numerator : (2 ^ m₁.log2 : ℚ) ≤ m₁ := by exact_mod_cast Nat.log2_self_le h₁.ne'
      have denominator : (m₂ : ℚ) ≤ 2 ^ (m₂.log2 + 1) := by exact_mod_cast Nat.lt_log2_self.le
      rw [zpow_sub₀ two_ne_zero, zpow_add₀ two_ne_zero, zpow_add₀ two_ne_zero, zpow_natCast,
        zpow_natCast]
      gcongr
    have digits := le_log2_div h₂ value leading
    rw [target_eq]
    rw [totalExponent, totalExponent, targetExponent_eq] at ht
    omega
  rw [div_finite, divided]
  exact roundWithAccuracy_eq h₂ value low canonical near _

/-- Products of full mantissas are rounded to the number that is near. -/
theorem mul_eq {m₁ m₂ : Nat} {e₁ e₂ : Int} (h₁ : 0 < m₁) (h₂ : 0 < m₂)
    (full : 2 ^ 52 ≤ m₁ * m₂) (near : RoundsTo m e (m₁ * 2 ^ e₁ * (m₂ * 2 ^ e₂))) :
    UnpackedFloat.mul Format.binary64 (.finite .positive m₁ e₁ h₁) (.finite .positive m₂ e₂ h₂) =
      .finite .positive m e canonical.pos := by
  have value : (m₁ * 2 ^ e₁ * (m₂ * 2 ^ e₂) : ℚ) = (m₁ * m₂ : ℕ) / (1 : ℕ) * 2 ^ (e₁ + e₂) := by
    rw [zpow_add₀ two_ne_zero]
    push_cast
    ring
  have low : e₁ + e₂ ≤ target (m₁ * m₂ / 1) (e₁ + e₂) := by
    have := (Nat.le_log2 (by omega)).mpr full
    rw [target_eq, Nat.div_one]
    omega
  have rounded := roundWithAccuracy_eq Nat.one_pos value low canonical near .positive
  rw [Nat.div_one, Nat.mod_one] at rounded
  exact rounded

end Operations

/-! ## Decimal numerals -/

/-- A power with a whole exponent as a fraction. -/
theorem zpow_eq_div {b : ℚ} (h : b ≠ 0) (z : Int) : b ^ z = b ^ z.toNat / b ^ (-z).toNat := by
  conv_lhs => rw [← Int.toNat_sub_toNat_neg z, zpow_sub₀ h, zpow_natCast, zpow_natCast]

/-- The number is `10 ^ k`, with a full mantissa. -/
def isPowerOfTen (k : Nat) : UnpackedFloat → Bool
  | .finite .positive p q _ =>
    p * 2 ^ q.toNat == 10 ^ k * 2 ^ (-q).toNat && decide (2 ^ 52 ≤ p)
  | _ => false

theorem isPowerOfTen_table : ∀ k (h : k < Float.exactlyRepresentablePowersOfTen.size),
    isPowerOfTen k Float.exactlyRepresentablePowersOfTen[k].toModel.unpack = true := by
  decide +kernel

/-- The powers of ten that are binary64 numbers. -/
theorem exists_unpack_powerOfTen {k : Nat} (h : k < Float.exactlyRepresentablePowersOfTen.size) :
    ∃ p q hp, Float.exactlyRepresentablePowersOfTen[k].toModel.unpack = .finite .positive p q hp ∧
      2 ^ 52 ≤ p ∧ (p * 2 ^ q : ℚ) = 10 ^ k := by
  have power := isPowerOfTen_table k h
  unfold isPowerOfTen at power
  split at power
  · rename_i p q hp unpacked
    rw [Bool.and_eq_true, beq_iff_eq, decide_eq_true_iff] at power
    refine ⟨p, q, hp, unpacked, power.2, ?_⟩
    rw [zpow_eq_div two_ne_zero, ← mul_div_assoc, div_eq_iff (by positivity)]
    exact_mod_cast power.1
  · cases power

/-- A number of few digits is exact, and has a full mantissa. -/
theorem exists_unpack_toFloat {n : Nat} (ne : n ≠ 0) (few : n < 2 ^ 53) :
    ∃ m e h, n.toUInt64.toFloat.toModel.unpack = .finite .positive m e h ∧ 2 ^ 52 ≤ m ∧
      (m * 2 ^ e : ℚ) = n := by
  refine ⟨n <<< room n, 0 - room n, Nat.pos_of_ne_zero (shiftLeft_ne_zero ne _), ?_, ?_, ?_⟩
  · rw [toFloat_eq_scaled few, unpack_scaled few (by decide) (by decide), scaledParts_of_ne_zero ne]
  · exact (Nat.le_log2 (shiftLeft_ne_zero ne _)).mp (log2_shiftLeft_room ne few).ge
  · rw [Nat.shiftLeft_eq, zpow_sub₀ two_ne_zero, zpow_zero, zpow_natCast]
    push_cast
    field_simp

section Numeral

variable {n k m : Nat} {e : Int} (canonical : IsCanonical m e) (near : RoundsTo m e (n / 10 ^ k))

include canonical near

/-- What is near a number other than zero is not near zero. -/
theorem least_le : (2 : ℚ) ^ (-1075 : ℤ) ≤ n / 10 ^ k := by
  have one : (1 : ℚ) ≤ m := by exact_mod_cast canonical.pos
  have half : (1 / 2 : ℚ) ≤ n / 10 ^ k / 2 ^ e := by
    have quarter : (gap m e : ℚ) ≤ 2 := by
      rw [gap]
      split <;> norm_num
    linarith [near.low]
  calc (2 : ℚ) ^ (-1075 : ℤ) = 1 / 2 * 2 ^ (-1074 : ℤ) := by
        rw [show (-1075 : ℤ) = -1074 - 1 by rfl, zpow_sub_one₀ two_ne_zero]
        ring
    _ ≤ 1 / 2 * 2 ^ e := by
        gcongr
        · norm_num
        · exact canonical.least
    _ ≤ n / 10 ^ k := (le_div_iff₀ (by positivity)).mp half

theorem ne_zero_of_roundsTo : n ≠ 0 := by
  rintro rfl
  have := least_le canonical near
  rw [Nat.cast_zero, zero_div] at this
  exact absurd this (not_le.mpr (by positivity))

/-- A numeral that is near a number has digits beyond the point, but not too many for its size. -/
theorem places_le : 3 * k ≤ n.log2 + 1076 := by
  have bound : (2 : ℚ) ^ (3 * k : ℕ) ≤ 2 ^ (n.log2 + 1 + 1075 : ℕ) := by
    have digits : (n : ℚ) ≤ 2 ^ (n.log2 + 1) := by exact_mod_cast Nat.lt_log2_self.le
    have least := least_le canonical near
    rw [le_div_iff₀ (by positivity), zpow_neg, inv_mul_le_iff₀ (by positivity)] at least
    calc (2 : ℚ) ^ (3 * k) = 8 ^ k := by rw [pow_mul]; norm_num
      _ ≤ 10 ^ k := by gcongr; norm_num
      _ ≤ 2 ^ (1075 : ℤ) * n := least
      _ ≤ 2 ^ (1075 : ℤ) * 2 ^ (n.log2 + 1) := by gcongr
      _ = 2 ^ (n.log2 + 1 + 1075) := by
        rw [pow_add _ (n.log2 + 1), mul_comm]
        rfl
  exact (pow_le_pow_iff_right₀ one_lt_two).mp bound

/-- A numeral of few digits is the quotient or the product of two exact numbers. -/
theorem ofScientific_eq_of_lt (few : n < 2 ^ 53)
    (index : k < Float.exactlyRepresentablePowersOfTen.size) :
    (if decide (k ≠ 0) = true then n.toUInt64.toFloat / Float.exactlyRepresentablePowersOfTen[k]
      else n.toUInt64.toFloat * Float.exactlyRepresentablePowersOfTen[k]) =
      .ofModel (pack (.finite .positive m e canonical.pos)) := by
  obtain ⟨m₁, e₁, h₁, left, full, mantissa⟩ :=
    exists_unpack_toFloat (ne_zero_of_roundsTo canonical near) few
  obtain ⟨p, q, hp, right, -, power⟩ := exists_unpack_powerOfTen index
  split
  · rw [← mantissa, ← power] at near
    show Float.ofModel (pack (UnpackedFloat.div Format.binary64 n.toUInt64.toFloat.toModel.unpack
      Float.exactlyRepresentablePowersOfTen[k].toModel.unpack)) = _
    rw [left, right, div_eq canonical h₁ hp near]
  · rename_i whole
    have none : k = 0 := by simpa using whole
    subst none
    have value : (n / 10 ^ 0 : ℚ) = m₁ * 2 ^ e₁ * (p * 2 ^ q) := by
      rw [mantissa, power, pow_zero, div_one, mul_one]
    rw [value] at near
    show Float.ofModel (pack (UnpackedFloat.mul Format.binary64 n.toUInt64.toFloat.toModel.unpack
      Float.exactlyRepresentablePowersOfTen[0].toModel.unpack)) = _
    rw [left, right, mul_eq canonical h₁ hp (full.trans (Nat.le_mul_of_pos_right m₁ hp)) near]

/-- A numeral of any number of digits is the quotient of whole numbers. -/
theorem unpackedOfScientific_eq :
    UnpackedFloat.ofScientific Format.binary64 n (-k) = .finite .positive m e canonical.pos := by
  have ne := ne_zero_of_roundsTo canonical near
  have places := places_le canonical near
  have most : ¬ (-(k : Int) > 2 ^ Format.binary64.exponentBits) := by
    show ¬ (-(k : Int) > 2 ^ 11)
    omega
  have least : ¬ (-(k : Int) < -(2 ^ Format.binary64.exponentBits + n.log2)) := by
    show ¬ (-(k : Int) < -(2 ^ 11 + n.log2))
    omega
  rw [UnpackedFloat.ofScientific, dif_neg ne, if_neg most, if_neg least]
  split
  · rename_i whole
    obtain rfl : k = 0 := by omega
    have full : 2 ^ 52 ≤ n <<< 53 * 10 ^ 0 := by
      rw [Nat.shiftLeft_eq]
      omega
    have value : ((n <<< 53 : ℕ) * 2 ^ (-(53 : ℕ) : ℤ) * ((10 ^ 0 : ℕ) * 2 ^ (0 : ℤ)) : ℚ) =
        n / 10 ^ 0 := by
      rw [Nat.shiftLeft_eq, zpow_neg, zpow_natCast, Nat.cast_mul, Nat.cast_pow, Nat.cast_ofNat,
        mul_inv_cancel_right₀ (by positivity), zpow_zero, pow_zero, Nat.cast_one, pow_zero, mul_one,
        mul_one, div_one]
    exact mul_eq canonical _ _ full (value ▸ near)
  · have exponent : (-(-(k : Int))).toNat = k := by omega
    refine div_eq canonical _ _ ?_
    rw [exponent, zpow_zero, mul_one, mul_one, Nat.cast_pow, Nat.cast_ofNat]
    exact near

/-- A numeral stands for the number that it is near. -/
theorem ofScientific_eq :
    Float.ofScientific n (decide (k ≠ 0)) k =
      .ofModel (pack (.finite .positive m e canonical.pos)) := by
  rw [Float.ofScientific]
  split
  · rename_i few
    exact ofScientific_eq_of_lt canonical near few.1 (Nat.lt_succ_of_le few.2)
  · have exponent :
        (if decide (k ≠ 0) = true then Int.negOfNat k else Int.ofNat k) = -(k : Int) := by
      split
      · exact Int.negOfNat_eq
      · rename_i whole
        have none : k = 0 := by simpa using whole
        rw [none]
        rfl
    dsimp only
    rw [exponent, Float.Model.ofScientific, unpackedOfScientific_eq canonical near]

end Numeral
end LaserCut.Binary64
