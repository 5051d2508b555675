import LaserCut.Proofs.Conversion.Descent
import LaserCut.Proofs.Decimal.Nearest

/-!
# How precisely coordinates are written

In exact arithmetic. Coordinates are written with as many places as the power of ten nearest to the
tolerance has, nearest by the logarithm. Where that power is the greater of two, half a unit of the
last place may be more than the tolerance.

* `decimalPlaces_bounds`: the unit of the last place beside the tolerance;
* `IsCoarseAt`: the tolerances that half a unit of the last place exceeds;
* `written_near_coordinate`: the text of a coordinate is within the tolerance of it, unless the
  tolerance is one of these, and always within 1.6 times the tolerance;
* `not_written_near_coordinate`: a quarter is written as 0.2 where the tolerance is 0.04.
-/

namespace LaserCut.Conversion

open Decimal (IsWrittenWithin twoPower isWrittenWithin_half not_isWrittenWithin_half
  isFinite_twoPower)
open Exact

/-! ## Powers of ten -/

/-- Half a power of ten more. -/
theorem rpow_add_half (x : ℝ) : (10 : ℝ) ^ (x + 1 / 2) = √10 * 10 ^ x := by
  rw [Real.rpow_add (by norm_num), ← Real.sqrt_eq_rpow, mul_comm]

theorem sqrt_ten_bounds : 3 < √10 ∧ √10 < 16 / 5 := by
  constructor
  · exact Real.lt_sqrt_of_sq_lt (by norm_num)
  · exact (Real.sqrt_lt' (by norm_num)).mpr (by norm_num)

theorem sqrt_ten_mul_self : √10 * √10 = 10 := Real.mul_self_sqrt (by norm_num)

section Places

variable {tolerance : ℝ} (positive : 0 < tolerance)

include positive

/-- The power of ten that is nearest to a tolerance. -/
theorem exists_nearest_power :
    ∃ power : ℤ, decimalPlaces tolerance = power.natAbs ∧ (10 : ℝ) ^ power ≤ √10 * tolerance ∧
      tolerance ≤ √10 * 10 ^ power ∧ (power ≤ 0 → (10 : ℝ) ^ power < √10 * tolerance) := by
  obtain ⟨power, rounded, near⟩ := exists_round_eq (Real.logb 10 tolerance)
  obtain ⟨below, above⟩ := abs_le.mp near
  have exact : (10 : ℝ) ^ Real.logb 10 tolerance = tolerance :=
    Real.rpow_logb (by norm_num) (by norm_num) positive
  have whole : (10 : ℝ) ^ (power : ℝ) = 10 ^ power := Real.rpow_intCast 10 power
  refine ⟨power, ?_, ?_, ?_, fun small => ?_⟩
  · show ⌊Scalar.abs (Scalar.round (Real.logb 10 tolerance) : ℝ)⌋₊ = _
    rw [rounded, abs_eq, ← Int.cast_abs, Int.abs_eq_natAbs, Int.cast_natCast, Nat.floor_natCast]
  · rw [← exact, ← rpow_add_half, ← whole]
    exact Real.rpow_le_rpow_of_exponent_le (by norm_num) (by linarith)
  · rw [← whole, ← rpow_add_half]
    nth_rewrite 1 [← exact]
    exact Real.rpow_le_rpow_of_exponent_le (by norm_num) (by linarith)
  · rw [← exact, ← rpow_add_half, ← whole]
    refine Real.rpow_lt_rpow_of_exponent_lt (by norm_num) ?_
    rcases lt_or_ge (Real.logb 10 tolerance) 0 with negative | nonneg
    · exact rounded ▸ round_lt_add_half negative
    · have : (power : ℝ) ≤ 0 := Int.cast_nonpos.mpr small
      linarith

/-- The unit of the last place is within half a power of ten of the tolerance, or the tolerance is
greater than 1 and takes places that it has no need of. -/
theorem decimalPlaces_bounds :
    (1 / 10 ^ decimalPlaces tolerance < √10 * tolerance ∧
        tolerance ≤ √10 * (1 / 10 ^ decimalPlaces tolerance)) ∨
      (1 ≤ decimalPlaces tolerance ∧ √10 ≤ tolerance) := by
  obtain ⟨power, places, below, above, strict⟩ := exists_nearest_power positive
  rw [places]
  rcases le_or_gt power 0 with small | large
  · have unit : (1 : ℝ) / 10 ^ power.natAbs = 10 ^ power := by
      rw [one_div, ← zpow_natCast, ← zpow_neg, Int.ofNat_natAbs_of_nonpos small, neg_neg]
    rw [unit]
    exact .inl ⟨strict small, above⟩
  · refine .inr ⟨by omega, ?_⟩
    have ten : (10 : ℝ) ^ (1 : ℤ) ≤ 10 ^ power := zpow_le_zpow_right₀ (by norm_num) (by omega)
    rw [zpow_one] at ten
    have := sqrt_ten_mul_self
    exact le_of_mul_le_mul_left (by linarith) (lt_trans (by norm_num) sqrt_ten_bounds.1)

end Places

/-- The tolerance is less than half of a power of ten, but nearer to that power, by the logarithm,
than to the next lower one. -/
structure IsCoarseAt (n : ℕ) (tolerance : ℝ) : Prop where
  above : √10 / 10 ^ (n + 1) < tolerance
  below : tolerance < 5 / 10 ^ (n + 1)

/-! ## Half a unit of the last place -/

theorem half_unit_le_tenth {places : Nat} (h : 1 ≤ places) :
    (1 : ℝ) / 2 / 10 ^ places ≤ 1 / 10 := by
  have ten : (10 : ℝ) ^ 1 ≤ 10 ^ places := pow_le_pow_right₀ (by norm_num) h
  rw [div_le_iff₀ (by positivity)]
  linarith

section HalfUnit

variable {tolerance : ℝ}

theorem half_unit_le_mul (positive : 0 < tolerance) :
    1 / 2 / 10 ^ decimalPlaces tolerance ≤ √10 / 2 * tolerance := by
  rcases decimalPlaces_bounds positive with ⟨below, -⟩ | ⟨places, large⟩
  · rw [div_right_comm]
    linarith
  · have half := half_unit_le_tenth places
    have root := sqrt_ten_bounds.1
    nlinarith

/-- Where the tolerance is not coarse, half a unit of the last place is no more than it. -/
theorem half_unit_le (positive : 0 < tolerance) (fine : ∀ n, ¬ IsCoarseAt n tolerance) :
    1 / 2 / 10 ^ decimalPlaces tolerance ≤ tolerance := by
  rcases decimalPlaces_bounds positive with ⟨below, -⟩ | ⟨places, large⟩
  · refine not_lt.mp fun above => fine (decimalPlaces tolerance) ⟨?_, ?_⟩
    · have root : 0 < √10 := lt_trans (by norm_num) sqrt_ten_bounds.1
      calc √10 / 10 ^ (decimalPlaces tolerance + 1)
          = √10 * (1 / 10 ^ decimalPlaces tolerance) / 10 := by rw [pow_succ]; field_simp
        _ < √10 * (√10 * tolerance) / 10 := by gcongr
        _ = tolerance := by rw [← mul_assoc, sqrt_ten_mul_self]; ring
    · refine above.trans_eq ?_
      rw [pow_succ]
      field_simp
      norm_num
  · have half := half_unit_le_tenth places
    have root := sqrt_ten_bounds.1
    linarith

theorem decimalPlaces_of_coarse {n : ℕ} (coarse : IsCoarseAt n tolerance) :
    decimalPlaces tolerance = n := by
  obtain ⟨low, high⟩ := coarse
  have root := sqrt_ten_bounds
  have ten (k : ℕ) : (0 : ℝ) < 10 ^ k := by positivity
  have positive : 0 < tolerance := lt_trans (div_pos (by linarith) (ten _)) low
  rcases decimalPlaces_bounds positive with ⟨below, above⟩ | ⟨-, large⟩
  · generalize decimalPlaces tolerance = places at below above
    have most : (10 : ℝ) ^ places < 10 ^ (n + 1) := by
      have := low.trans_le above
      rw [mul_one_div] at this
      exact (div_lt_div_iff_of_pos_left (by linarith) (ten _) (ten _)).mp this
    have least : (10 : ℝ) ^ (n + 1) < 10 ^ (places + 2) := by
      have : 1 / (10 : ℝ) ^ places < 16 / 10 ^ (n + 1) :=
        calc 1 / (10 : ℝ) ^ places < √10 * tolerance := below
          _ ≤ 16 / 5 * (5 / 10 ^ (n + 1)) := by gcongr; exact root.2.le
          _ = 16 / 10 ^ (n + 1) := by ring
      rw [div_lt_div_iff₀ (ten _) (ten _), one_mul] at this
      rw [pow_add (10 : ℝ) places]
      linarith [ten places]
    have := (pow_lt_pow_iff_right₀ (by norm_num : (1 : ℝ) < 10)).mp most
    have := (pow_lt_pow_iff_right₀ (by norm_num : (1 : ℝ) < 10)).mp least
    omega
  · have small : (5 : ℝ) / 10 ^ (n + 1) = 10 * (1 / 2 / 10 ^ (n + 1)) := by ring
    have half := half_unit_le_tenth (Nat.le_add_left 1 n)
    linarith

end HalfUnit

/-! ## Coordinates -/

/-- Half way between two numbers with the places that a coarse tolerance asks for. -/
theorem not_isWrittenWithin_of_coarse {tolerance : ℝ} {n : ℕ} (coarse : IsCoarseAt n tolerance)
    (normal : n < 1022) :
    ¬ IsWrittenWithin (decimalPlaces tolerance) (twoPower (n + 1)) tolerance := by
  rw [decimalPlaces_of_coarse coarse]
  refine not_isWrittenWithin_half normal (coarse.below.trans_eq ?_)
  rw [pow_succ]
  field_simp
  norm_num

/-- The text of a coordinate is no further from it than 1.6 times the tolerance, and no further than
the tolerance unless that is coarse. For each coarse tolerance a power of two is further from its
text. -/
theorem written_near_coordinate (s : Settings ℝ) (valid : s.validated = .ok s) :
    (∀ v : Float, v.isFinite = true →
      IsWrittenWithin (dialect s).places v (√10 / 2 * s.approximationTolerance)) ∧
    ((∀ n, ¬ IsCoarseAt n s.approximationTolerance) → ∀ v : Float, v.isFinite = true →
      IsWrittenWithin (dialect s).places v s.approximationTolerance) ∧
    ∀ n < 1022, IsCoarseAt n s.approximationTolerance →
      (twoPower (n + 1)).isFinite = true ∧
        ¬ IsWrittenWithin (dialect s).places (twoPower (n + 1)) s.approximationTolerance := by
  have positive := (validated_iff.mp valid).2.1
  refine ⟨fun v finite => ?_, fun fine v finite => ?_, fun n normal coarse => ?_⟩
  · exact (isWrittenWithin_half finite _).mono (half_unit_le_mul positive)
  · exact (isWrittenWithin_half finite _).mono (half_unit_le positive fine)
  · exact ⟨isFinite_twoPower normal, not_isWrittenWithin_of_coarse coarse normal⟩

/-- Settings with a tolerance between two powers of ten, nearer to the greater one. -/
noncomputable def coarse : Settings ℝ := { fivePasses with approximationTolerance := 1 / 25 }

theorem validated_coarse : coarse.validated = .ok coarse := by
  obtain ⟨passes, -, speeds⟩ := validated_iff.mp validated_fivePasses
  refine validated_iff.mpr ⟨passes, ?_, speeds⟩
  show (0 : ℝ) < 1 / 25
  norm_num

theorem isCoarseAt_coarse : IsCoarseAt 1 coarse.approximationTolerance := by
  have root := sqrt_ten_bounds.2
  constructor
  · show √10 / 10 ^ 2 < 1 / 25
    rw [div_lt_iff₀ (by norm_num)]
    linarith
  · show (1 / 25 : ℝ) < 5 / 10 ^ 2
    norm_num

theorem not_isCoarseAt_fivePasses (n : ℕ) : ¬ IsCoarseAt n fivePasses.approximationTolerance := by
  intro between
  have places : n = 2 := (decimalPlaces_of_coarse between).symm.trans decimalPlaces_hundredth
  have below : (1 / 100 : ℝ) < 5 / 10 ^ (n + 1) := between.below
  rw [places] at below
  norm_num at below

theorem written_near_coordinate_tenth :
    fivePasses.validated = .ok fivePasses ∧ (0.1 : Float).isFinite = true ∧
      IsWrittenWithin (dialect fivePasses).places 0.1 (1 / 100) ∧
      coarse.validated = .ok coarse ∧ (twoPower 2).isFinite = true ∧
      IsWrittenWithin (dialect coarse).places (twoPower 2) (√10 / 2 * (1 / 25)) ∧
      ¬ IsWrittenWithin (dialect coarse).places (twoPower 2) (1 / 25) := by
  have tenth : (0.1 : Float).isFinite = true := by decide +kernel
  obtain ⟨-, fine, -⟩ := written_near_coordinate fivePasses validated_fivePasses
  obtain ⟨near, -, apart⟩ := written_near_coordinate coarse validated_coarse
  obtain ⟨finite, further⟩ := apart 1 (by decide) isCoarseAt_coarse
  exact ⟨validated_fivePasses, tenth, fine not_isCoarseAt_fivePasses 0.1 tenth, validated_coarse,
    finite, near _ finite, further⟩

/-- The text of a coordinate may be further from it than the tolerance: a quarter has one place, and
no number with one place is within 0.04 of it. -/
theorem not_written_near_coordinate : ¬ ∀ s : Settings ℝ, s.validated = .ok s →
    ∀ v : Float, v.isFinite = true →
      IsWrittenWithin (dialect s).places v s.approximationTolerance := by
  intro claim
  have quarter : twoPower 2 = 0.25 := by decide +kernel
  refine not_isWrittenWithin_of_coarse isCoarseAt_coarse (by decide) ?_
  show IsWrittenWithin _ (twoPower 2) _
  rw [quarter]
  exact claim coarse validated_coarse 0.25 (by decide +kernel)

end LaserCut.Conversion
