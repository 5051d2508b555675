import LaserCut.Proofs.Decimal.Numerals
import LaserCut.Proofs.Reals

/-!
# How far texts are from their numbers

The text of a finite number with so many places is the nearest number with so many places, and so no
further from it than half a unit of the last one. Half a unit is reached by a power of two.

* `realValue`: the number that a binary64 number stands for;
* `IsWrittenWithin`: the number that the text of a binary64 number stands for is so near to it;
* `isWrittenWithin_half`: half a unit of the last place is enough for all finite numbers;
* `not_isWrittenWithin_half`: and less than that is not enough.
-/

namespace LaserCut.Decimal

open Binary64

/-- The number that a binary64 number stands for; zero for one that is not finite. -/
noncomputable def realValue (x : Float) : ℝ :=
  match parts x with
  | .finite negative mantissa exponent =>
    (if negative then -1 else 1) * (mantissa * Scalar.two ^ exponent)
  | _ => 0

theorem realValue_of_parts {x : Float} {negative : Bool} {mantissa : Nat} {exponent : Int}
    (h : parts x = .finite negative mantissa exponent) :
    realValue x = (if negative then -1 else 1) * (mantissa * 2 ^ exponent) := by
  rw [realValue, h]
  show _ * (_ * (Scalar.two : ℝ) ^ exponent) = _
  rw [Exact.two_eq]

/-- The text of a number with so many places is a number, and no further from it than that. -/
def IsWrittenWithin (places : Nat) (x : Float) (distance : ℝ) : Prop :=
  ∃ l, Literal.ofChars? (fixed places x).toList = some l ∧
    |Exact.ofLiteral l - realValue x| ≤ distance

theorem IsWrittenWithin.mono {places : Nat} {x : Float} {distance further : ℝ}
    (h : IsWrittenWithin places x distance) (le : distance ≤ further) :
    IsWrittenWithin places x further := by
  obtain ⟨l, read, near⟩ := h
  exact ⟨l, read, near.trans le⟩

/-! ## Rounded fractions -/

theorem roundHalfEven_bounds (num : Nat) {den : Nat} (h : 0 < den) :
    2 * (roundHalfEven num den * den) ≤ 2 * num + den ∧
      2 * num ≤ 2 * (roundHalfEven num den * den) + den := by
  have split := Nat.div_add_mod num den
  have less := Nat.mod_lt num h
  have next : (num / den + 1) * den = den * (num / den) + den := by
    rw [Nat.add_mul, Nat.one_mul, Nat.mul_comm]
  have same : num / den * den = den * (num / den) := Nat.mul_comm ..
  unfold roundHalfEven
  dsimp only
  split_ifs <;> (first | rw [next] | rw [same]) <;> constructor <;> omega

theorem abs_roundHalfEven_sub_le (num : Nat) {den : Nat} (h : 0 < den) :
    |(roundHalfEven num den : ℝ) - num / den| ≤ 1 / 2 := by
  have den_pos : (0 : ℝ) < den := Nat.cast_pos.mpr h
  obtain ⟨upper, lower⟩ := roundHalfEven_bounds num h
  have upper : 2 * ((roundHalfEven num den : ℝ) * den) ≤ 2 * num + den := by exact_mod_cast upper
  have lower : (2 * num : ℝ) ≤ 2 * (roundHalfEven num den * den) + den := by exact_mod_cast lower
  rw [abs_le, le_sub_iff_add_le, sub_le_iff_le_add, ← le_sub_iff_add_le', div_le_iff₀ den_pos,
    ← sub_le_iff_le_add', le_div_iff₀ den_pos]
  constructor <;> linarith

/-- The text of a fraction stands for the rounded number of units of the last place. -/
theorem exists_literal_fixedText (places : Nat) (negative : Bool) (num den : Nat) :
    ∃ l, Literal.ofChars? (fixedText places negative num den).toList = some l ∧
      Exact.ofLiteral l = (if negative then -1 else 1) *
        (roundHalfEven (num * 10 ^ places) den / 10 ^ places) := by
  obtain ⟨m, text, literal⟩ :=
    exists_numeral_placed negative places (roundHalfEven (num * 10 ^ places) den)
  refine ⟨m.value, ?_, ?_⟩
  · rw [fixedText, Nat.pow_eq, ← text]
    exact Literal.ofChars?_text m
  · rw [literal]
    show (if negative then -1 else 1) * (_ : ℝ) * 10 ^ (-(places : ℤ)) = _
    rw [zpow_neg, zpow_natCast, mul_assoc, div_eq_mul_inv]

/-! ## Finite numbers -/

theorem fraction_div (mantissa : Nat) (exponent : Int) :
    ((fraction mantissa exponent).1 : ℝ) / (fraction mantissa exponent).2 =
      mantissa * 2 ^ exponent := by
  obtain ⟨k, rfl | rfl⟩ := exponent.eq_nat_or_neg
  · simp [fraction]
  · simp [fraction, div_eq_mul_inv]

/-- What separates a number and its text, in units of the last place. -/
theorem exists_literal_fixed {x : Float} {negative : Bool} {mantissa : Nat} {exponent : Int}
    (h : parts x = .finite negative mantissa exponent) (places : Nat) :
    ∃ (l : Literal) (n : Nat), Literal.ofChars? (fixed places x).toList = some l ∧
      |(n : ℝ) - mantissa * 2 ^ exponent * 10 ^ places| ≤ 1 / 2 ∧
      |Exact.ofLiteral l - realValue x| =
        |(n : ℝ) - mantissa * 2 ^ exponent * 10 ^ places| / 10 ^ places := by
  let units := roundHalfEven ((fraction mantissa exponent).1 * 10 ^ places)
    (fraction mantissa exponent).2
  obtain ⟨l, read, value⟩ := exists_literal_fixedText places negative
    (fraction mantissa exponent).1 (fraction mantissa exponent).2
  rw [← fixed_of_parts h] at read
  refine ⟨l, units, read, ?_, ?_⟩
  · have positive : 0 < (fraction mantissa exponent).2 := Nat.two_pow_pos _
    have near := abs_roundHalfEven_sub_le ((fraction mantissa exponent).1 * 10 ^ places) positive
    rwa [Nat.cast_mul, mul_div_right_comm, fraction_div, Nat.cast_pow, Nat.cast_ofNat] at near
  · have power : (0 : ℝ) < 10 ^ places := by positivity
    have sign : |(if negative then -1 else 1 : ℝ)| = 1 := by cases negative <;> simp
    have apart : (units : ℝ) / 10 ^ places - mantissa * 2 ^ exponent =
        (units - mantissa * 2 ^ exponent * 10 ^ places) / 10 ^ places := by
      rw [sub_div, mul_div_cancel_right₀ _ power.ne']
    rw [value, realValue_of_parts h, ← mul_sub, abs_mul, sign, one_mul]
    show |(units : ℝ) / 10 ^ places - _| = _
    rw [apart, abs_div, abs_of_pos power]

theorem isWrittenWithin_half {x : Float} (h : x.isFinite = true) (places : Nat) :
    IsWrittenWithin places x (1 / 2 / 10 ^ places) := by
  obtain ⟨negative, mantissa, exponent, hp⟩ := exists_parts_of_isFinite h
  obtain ⟨l, n, read, near, distance⟩ := exists_literal_fixed hp places
  refine ⟨l, read, ?_⟩
  rw [distance]
  gcongr

/-! ## Powers of two -/

/-- The number `2 ^ -n`. -/
def twoPower (n : Nat) : Float := scaled 1 (-n)

theorem parts_twoPower {n : Nat} (h : n ≤ 1022) :
    parts (twoPower n) = .finite false (2 ^ 52) (-n - 52) := by
  have unpacked : (twoPower n).toModel.unpack = scaledParts 1 (-n) :=
    unpack_scaled (by decide) (by omega) (by omega)
  rw [parts, unpacked]
  rfl

theorem isFinite_twoPower {n : Nat} (h : n ≤ 1022) : (twoPower n).isFinite = true := by
  have unpacked : (twoPower n).toModel.unpack = scaledParts 1 (-n) :=
    unpack_scaled (by decide) (by omega) (by omega)
  show (twoPower n).toModel.unpack.isFinite = true
  rw [unpacked]
  rfl

/-- With one place less than it has, such a number lies half way between two others. -/
theorem half_le_abs_sub (k n : Nat) : 1 / 2 ≤ |(k : ℝ) - 5 ^ n / 2| := by
  have odd : (5 ^ n : ℕ) % 2 = 1 := Nat.odd_iff.mp (Odd.pow (by decide))
  have apart : (1 : ℤ) ≤ |2 * (k : ℤ) - (5 ^ n : ℕ)| := Int.one_le_abs (by omega)
  have apart : (1 : ℝ) ≤ |2 * (k : ℝ) - 5 ^ n| := by exact_mod_cast apart
  have halves : (k : ℝ) - 5 ^ n / 2 = (2 * k - 5 ^ n) / 2 := by ring
  rw [halves, abs_div, abs_two]
  linarith

theorem not_isWrittenWithin_half {n : Nat} (h : n + 1 ≤ 1022) {distance : ℝ}
    (less : distance < 1 / 2 / 10 ^ n) : ¬ IsWrittenWithin n (twoPower (n + 1)) distance := by
  rintro ⟨l, read, near⟩
  obtain ⟨l', k, read', -, apart⟩ := exists_literal_fixed (parts_twoPower h) n
  rw [read] at read'
  cases read'
  have fives : ((2 ^ 52 : ℕ) : ℝ) * 2 ^ (-((n + 1 : ℕ) : ℤ) - 52) * 10 ^ n = 5 ^ n / 2 := by
    have tens : (10 : ℝ) ^ n = 5 ^ n * 2 ^ n := by rw [← mul_pow]; norm_num
    rw [zpow_sub₀ two_ne_zero, zpow_neg, zpow_natCast, pow_succ (2 : ℝ) n, tens]
    push_cast
    field_simp
    norm_num
  rw [fives] at apart
  have half := div_le_div_of_nonneg_right (half_le_abs_sub k n)
    (by positivity : (0 : ℝ) ≤ 10 ^ n)
  rw [← apart] at half
  linarith

end LaserCut.Decimal
