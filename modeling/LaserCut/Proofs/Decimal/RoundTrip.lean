import LaserCut.Proofs.Binary64.Rounding
import LaserCut.Proofs.Decimal.Numerals

/-!
# Shortest texts read back

The shortest text of a finite number reads back as that number. The digits that are written are
searched for near the number, on finer and finer grids; some grid has them in time.

* `Neighbourhood.roundsTo`: what is searched for reads back as the number;
* `exists_digitsOn`: a grid that is fine enough has such digits;
* `roundsTo_shortestDigits`: they are found;
* `ofLiteral_shown`: the text reads back as the number.
-/

namespace LaserCut.Decimal

open Binary64 Float.Model Float.Model.UnpackedFloat

/-! ## Neighbourhoods -/

section Neighbourhood

variable {m : Nat} {e : Int}

/-- A quarter of the unit of a mantissa, in units of the scale. -/
theorem quarter_eq (e : Int) :
    ((2 ^ (e - 2).toNat : ℕ) : ℚ) / (2 ^ (2 - e).toNat : ℕ) = 2 ^ e / 4 := by
  have exponent : 2 - e = -(e - 2) := by ring
  rw [exponent, Nat.cast_pow, Nat.cast_pow, Nat.cast_ofNat, ← zpow_eq_div two_ne_zero,
    zpow_sub₀ two_ne_zero]
  norm_num

section Bounds

variable {c n unit : Nat} (positive : 0 < unit)

include positive

theorem mul_unit_le_iff (e : Int) :
    c * 2 ^ (e - 2).toNat * unit ≤ n * 2 ^ (2 - e).toNat ↔ (c : ℚ) / 4 ≤ n / unit / 2 ^ e := by
  have unit_pos : (0 : ℚ) < unit := Nat.cast_pos.mpr positive
  have scale_pos : (0 : ℚ) < (2 ^ (2 - e).toNat : ℕ) := by positivity
  rw [le_div_iff₀ (by positivity), div_mul_eq_mul_div, mul_div_assoc, ← quarter_eq,
    ← mul_div_assoc, div_le_div_iff₀ scale_pos unit_pos]
  norm_cast

theorem le_mul_unit_iff (e : Int) :
    n * 2 ^ (2 - e).toNat ≤ c * 2 ^ (e - 2).toNat * unit ↔ (n : ℚ) / unit / 2 ^ e ≤ c / 4 := by
  have unit_pos : (0 : ℚ) < unit := Nat.cast_pos.mpr positive
  have scale_pos : (0 : ℚ) < (2 ^ (2 - e).toNat : ℕ) := by positivity
  rw [div_le_iff₀ (by positivity), div_mul_eq_mul_div, mul_div_assoc, ← quarter_eq,
    ← mul_div_assoc, div_le_div_iff₀ unit_pos scale_pos]
  norm_cast

end Bounds

/-- A number in the neighbourhood reads as the given one. -/
theorem Neighbourhood.roundsTo (canonical : IsCanonical m e) {n unit : Nat} (positive : 0 < unit)
    (h : (Neighbourhood.of m e).has n unit = true) : RoundsTo m e (n / unit) := by
  have below : (4 * m - gap m e : ℕ) = (4 * m - gap m e : ℚ) := by
    have : gap m e ≤ 4 * m := by
      have := canonical.pos
      rw [gap]
      split <;> omega
    rw [Nat.cast_sub this]
    push_cast
    rfl
  unfold Neighbourhood.has at h
  split at h
  · rename_i even
    rw [Bool.and_eq_true, decide_eq_true_iff, decide_eq_true_iff] at h
    have low := (mul_unit_le_iff (c := 4 * m - gap m e) positive e).mp h.1
    have high := (le_mul_unit_iff (c := 4 * m + 2) positive e).mp h.2
    rw [below] at low
    push_cast at high
    refine ⟨by linarith, by linarith, fun odd => ?_⟩
    have : m % 2 = 0 := of_decide_eq_true even
    omega
  · rename_i notEven
    have odd : m % 2 ≠ 0 := fun even => notEven (decide_eq_true even)
    have two : gap m e = 2 := if_neg fun first => odd (by rw [first.1]; decide)
    rw [Bool.and_eq_true, decide_eq_true_iff, decide_eq_true_iff] at h
    have low := not_le.mp
      ((le_mul_unit_iff (c := 4 * m - gap m e) positive e).not.mp (not_le.mpr h.1))
    have high := not_le.mp
      ((mul_unit_le_iff (c := 4 * m + 2) positive e).not.mp (not_le.mpr h.2))
    rw [below] at low
    push_cast at high
    rw [two] at low
    push_cast at low
    refine ⟨?_, by linarith, fun _ => ⟨by linarith, by linarith⟩⟩
    rw [two]
    push_cast
    linarith

end Neighbourhood

/-! ## Grids -/

/-- Points of the grid of multiples of `10 ^ power`. -/
theorem grid_eq (n : Nat) (power : Int) :
    ((n * 10 ^ power.toNat : ℕ) : ℚ) / (10 ^ (-power).toNat : ℕ) = n * 10 ^ power := by
  rw [zpow_eq_div (by norm_num : (10 : ℚ) ≠ 0), ← mul_div_assoc]
  push_cast
  rfl

/-- What is found on a grid is in the neighbourhood. -/
theorem has_of_digitsOn {b : Neighbourhood} {power : Int} {n : Nat}
    (h : digitsOn b power = some n) :
    b.has (n * 10 ^ power.toNat) (10 ^ (-power).toNat) = true := by
  unfold digitsOn at h
  dsimp only at h
  split at h
  · rename_i lower upper
    cases h
    split
    · exact lower
    · exact upper
  · rename_i lower upper
    cases h
    exact lower
  · rename_i lower upper
    cases h
    exact upper
  · cases h

theorem Neighbourhood.has_of_lt {b : Neighbourhood} {n unit : Nat}
    (low : b.low * unit < n * b.scale) (high : n * b.scale < b.high * unit) :
    b.has n unit = true := by
  unfold Neighbourhood.has
  split <;> rw [Bool.and_eq_true, decide_eq_true_iff, decide_eq_true_iff]
  · exact ⟨low.le, high.le⟩
  · exact ⟨low, high⟩

/-- A step that is no wider than a quarter of the unit, over common denominators. -/
theorem scale_mul_step_le {e power : Int} (fine : (10 : ℚ) ^ power ≤ 2 ^ e / 4) :
    2 ^ (2 - e).toNat * 10 ^ power.toNat ≤ 2 ^ (e - 2).toNat * 10 ^ (-power).toNat := by
  have grid := grid_eq 1 power
  rw [Nat.one_mul, Nat.cast_one, one_mul] at grid
  rw [← grid, ← quarter_eq, div_le_div_iff₀ (by positivity) (by positivity), mul_comm] at fine
  exact_mod_cast fine

/-- A grid has a point in a neighbourhood if its steps are no wider than a quarter of the unit: the
one next below the number. -/
theorem exists_digitsOn {m : Nat} {e power : Int} (canonical : IsCanonical m e)
    (fine : (10 : ℚ) ^ power ≤ 2 ^ e / 4) :
    ∃ n, digitsOn (Neighbourhood.of m e) power = some n := by
  let step := 10 ^ power.toNat
  let unit := 10 ^ (-power).toNat
  let up := 2 ^ (e - 2).toNat
  let scale := 2 ^ (2 - e).toNat
  have up_pos : 0 < up * unit := by positivity
  have steps : scale * step ≤ up * unit := scale_mul_step_le fine
  have quarters : 1 ≤ gap m e := by
    rw [gap]
    split <;> decide
  let below := 4 * m * up * unit / (scale * step)
  have split : below * step * scale + 4 * m * up * unit % (scale * step) = 4 * m * (up * unit) := by
    rw [Nat.mul_assoc below, Nat.mul_comm step, Nat.mul_comm below, Nat.div_add_mod, Nat.mul_assoc]
  have less : 4 * m * up * unit % (scale * step) < scale * step := Nat.mod_lt _ (by positivity)
  -- The point below the number is less than a step away.
  have lower : (Neighbourhood.of m e).has (below * step) unit = true := by
    refine Neighbourhood.has_of_lt ?_ ?_
    · show (4 * m - gap m e) * up * unit < below * step * scale
      have : (4 * m - gap m e + 1) * (up * unit) ≤ 4 * m * (up * unit) :=
        Nat.mul_le_mul_right _ (by have := canonical.pos; omega)
      rw [Nat.succ_mul] at this
      rw [Nat.mul_assoc]
      omega
    · show below * step * scale < (4 * m + 2) * up * unit
      rw [Nat.mul_assoc (4 * m + 2), Nat.add_mul]
      omega
  unfold digitsOn
  dsimp only
  split
  · exact ⟨_, rfl⟩
  · exact ⟨_, rfl⟩
  · exact ⟨_, rfl⟩
  · rename_i none _
    exact absurd (none.symm.trans lower) Bool.false_ne_true

/-- The search from a grid downwards stops at the first that has a point. -/
theorem exists_firstHit {b : Neighbourhood} {fuel j : Nat} {power : Int} (before : j < fuel)
    (hit : ∃ n, digitsOn b (power - j) = some n) :
    ∃ n p, firstHit b fuel power = (n, p) ∧ digitsOn b p = some n := by
  induction fuel generalizing power j with
  | zero => omega
  | succ fuel ih =>
    rw [firstHit]
    rcases here : digitsOn b power with _ | n
    · rcases j with _ | j
      · rw [Int.natCast_zero, Int.sub_zero, here] at hit
        exact absurd hit nofun
      · refine ih (j := j) (by omega) ?_
        rwa [show power - 1 - (j : Int) = power - (j + 1 : ℕ) by omega]
    · exact ⟨n, power, rfl, here⟩

/-! ## The leading digit -/

theorem ten_zpow_leadingPower_le {num den fuel : Nat} {e : Int} (positive : 0 < den)
    (h : (10 : ℚ) ^ (e - fuel) ≤ num / den) :
    (10 : ℚ) ^ leadingPower num den fuel e ≤ num / den := by
  induction fuel generalizing e with
  | zero => simpa [leadingPower] using h
  | succ fuel ih =>
    rw [leadingPower]
    split
    · rename_i le
      rw [zpow_eq_div (by norm_num : (10 : ℚ) ≠ 0), div_le_div_iff₀ (by positivity)
        (Nat.cast_pos.mpr positive)]
      exact_mod_cast le
    · refine ih ?_
      rwa [show e - 1 - (fuel : Int) = e - (fuel + 1 : ℕ) by omega]

/-- Powers of ten and of two compared, by `10 ^ 3 < 2 ^ 10` and `2 ^ 93 < 10 ^ 28`. -/
theorem ten_zpow_le_two_zpow {a b : Int} (up : 0 ≤ a → 10 * a ≤ 3 * b)
    (down : a < 0 → 93 * a ≤ 28 * b) : (10 : ℚ) ^ a ≤ 2 ^ b := by
  rcases le_or_gt 0 a with nonneg | negative
  · refine le_of_pow_le_pow_left₀ (n := 3) (by decide) (by positivity) ?_
    calc ((10 : ℚ) ^ a) ^ 3 = (10 ^ 3) ^ a := by rw [← zpow_natCast, zpow_comm, zpow_natCast]
      _ ≤ (2 ^ 10) ^ a := zpow_le_zpow_left₀ nonneg (by norm_num) (by norm_num)
      _ = 2 ^ (10 * a) := by rw [zpow_mul]; rfl
      _ ≤ 2 ^ (3 * b) := zpow_le_zpow_right₀ one_le_two (up nonneg)
      _ = (2 ^ b) ^ 3 := by rw [mul_comm, zpow_mul]; rfl
  · refine le_of_pow_le_pow_left₀ (n := 28) (by decide) (by positivity) ?_
    calc ((10 : ℚ) ^ a) ^ 28 = (10 ^ 28) ^ a := by rw [← zpow_natCast, zpow_comm, zpow_natCast]
      _ = ((10 ^ 28) ^ (-a))⁻¹ := by rw [zpow_neg, inv_inv]
      _ ≤ ((2 ^ 93) ^ (-a))⁻¹ := by
        refine inv_anti₀ (by positivity) (zpow_le_zpow_left₀ ?_ ?_ ?_)
        · omega
        · norm_num
        · norm_num
      _ = 2 ^ (93 * a) := by rw [zpow_neg, inv_inv, zpow_mul]; rfl
      _ ≤ 2 ^ (28 * b) := zpow_le_zpow_right₀ one_le_two (down negative)
      _ = (2 ^ b) ^ 28 := by rw [mul_comm, zpow_mul]; rfl

/-- The search for the leading digit starts above it, and not too far above. -/
theorem ten_zpow_powerBound_le {m : Nat} {e : Int} (canonical : IsCanonical m e) :
    (10 : ℚ) ^ (powerBound m e - 8) ≤ m * 2 ^ e := by
  have digits : (m.log2 : Int) ≤ 52 := by
    have := log2_le_of_lt canonical.lt
    omega
  have least := canonical.least
  have most := canonical.most
  calc (10 : ℚ) ^ (powerBound m e - 8) ≤ 2 ^ (m.log2 + e : ℤ) := by
        refine ten_zpow_le_two_zpow ?_ ?_ <;> (rw [powerBound]; omega)
    _ = 2 ^ m.log2 * 2 ^ e := by rw [zpow_add₀ two_ne_zero, zpow_natCast]
    _ ≤ m * 2 ^ e := by
        gcongr
        exact_mod_cast Nat.log2_self_le canonical.pos.ne'

/-! ## The digits -/

/-- The value of a neighbourhood is the given number. -/
theorem value_div_scale (m : Nat) (e : Int) :
    ((Neighbourhood.of m e).value : ℚ) / (Neighbourhood.of m e).scale = m * 2 ^ e := by
  show ((4 * m * 2 ^ (e - 2).toNat : ℕ) : ℚ) / (2 ^ (2 - e).toNat : ℕ) = _
  rw [Nat.cast_mul, mul_div_assoc, quarter_eq]
  push_cast
  ring

/-- The digits that are written read as the number. -/
theorem roundsTo_shortestDigits {m : Nat} {e : Int} (canonical : IsCanonical m e) :
    RoundsTo m e ((shortestDigits m e).1 * 10 ^ (shortestDigits m e).2) := by
  let b := Neighbourhood.of m e
  let leading := leadingPower b.value b.scale 8 (powerBound m e)
  have value : (b.value : ℚ) / b.scale = m * 2 ^ e := value_div_scale m e
  have leading_le : (10 : ℚ) ^ leading ≤ b.value / b.scale := by
    refine ten_zpow_leadingPower_le (show 0 < 2 ^ (2 - e).toNat by positivity) ?_
    rw [value]
    exact ten_zpow_powerBound_le canonical
  -- Seventeen digits are enough: the grid that has them is the last that is searched.
  have fine : (10 : ℚ) ^ (leading + 1 - (18 : ℕ)) ≤ 2 ^ e / 4 := by
    have mantissa : (m : ℚ) ≤ 2 ^ 53 := by exact_mod_cast canonical.lt.le
    have grid : (10 : ℚ) ^ (leading + 1 - (18 : ℕ)) = 10 ^ leading / 10 ^ 17 := by
      rw [show leading + 1 - (18 : ℕ) = leading - (17 : ℕ) by omega,
        zpow_sub₀ (by norm_num : (10 : ℚ) ≠ 0), zpow_natCast]
    rw [value] at leading_le
    rw [grid, div_le_iff₀ (by norm_num)]
    calc (10 : ℚ) ^ leading ≤ m * 2 ^ e := leading_le
      _ ≤ 2 ^ 53 * 2 ^ e := by gcongr
      _ = 2 ^ 53 * 4 * (2 ^ e / 4) := by ring
      _ ≤ 10 ^ 17 * (2 ^ e / 4) := by gcongr; norm_num
      _ = 2 ^ e / 4 * 10 ^ 17 := mul_comm _ _
  obtain ⟨n, p, found, digits⟩ :=
    exists_firstHit (show 18 < 19 by decide) (exists_digitsOn canonical fine)
  have shortest : shortestDigits m e = (n, p) := found
  rw [shortest, ← grid_eq]
  exact Neighbourhood.roundsTo canonical (by positivity) (has_of_digitsOn digits)

/-! ## Reading back -/

theorem ofLiteral_zero (s : Sign) :
    Binary64.ofLiteral (.decimal (isNegative s) 0 0) = .ofModel (pack (.zero s)) := by
  cases s <;> decide +kernel

/-- A numeral with its digits and its power of ten reads as the number that these are near. -/
theorem ofLiteral_decimal {m : Nat} {e : Int} (canonical : IsCanonical m e) (s : Sign) {n : Nat}
    {p : Int} (near : RoundsTo m e (n * 10 ^ p)) :
    Binary64.ofLiteral (.decimal (isNegative s) (n * 10 ^ p.toNat) (min p 0)) =
      .ofModel (pack (.finite s m e canonical.pos)) := by
  have value : ((n * 10 ^ p.toNat : ℕ) : ℚ) / 10 ^ (min p 0).natAbs = n * 10 ^ p := by
    rw [← grid_eq, show (min p 0).natAbs = (-p).toNat by omega]
    push_cast
    rfl
  have places : decide (min p 0 < 0) = decide ((min p 0).natAbs ≠ 0) :=
    decide_eq_decide.mpr (by omega)
  rw [← value] at near
  rw [Binary64.ofLiteral, places, ofScientific_eq canonical near]
  cases s with
  | positive => rfl
  | negative => exact neg_ofModel_pack canonical

/-- The text of a finite number reads back as the number. -/
theorem ofLiteral_shown {x : Float} (h : x.isFinite = true) :
    Binary64.ofLiteral (shown x) = x := by
  have finite : x.toModel.unpack.isFinite = true := h
  conv_rhs => rw [← pack_unpack x]
  unfold shown parts
  rcases unpacked : x.toModel.unpack with s | _ | s | ⟨s, m, e, hm⟩
  · rw [unpacked] at finite
    cases finite
  · rw [unpacked] at finite
    cases finite
  · exact ofLiteral_zero s
  · have canonical : IsCanonical m e := isCanonical_of_unpack unpacked
    dsimp only
    rw [if_neg hm.ne']
    exact ofLiteral_decimal canonical s (roundsTo_shortestDigits canonical)

end LaserCut.Decimal
