import Mathlib.Analysis.SpecialFunctions.Complex.Arg
import Mathlib.Analysis.SpecialFunctions.Log.Base
import LaserCut.Proofs.Geometry.Dyadic
import LaserCut.Proofs.Geometry.Image

/-!
# Real numbers as scalars

Exact arithmetic. Over the real numbers the definitions of the geometry say what they say over
binary64 numbers, with nothing rounded: `hypot` is the length of a vector, `atan2` the argument of a
complex number.

* `instScalar`: the real numbers as scalars;
* `exactHalving`: dyadic spans are halved exactly;
* `exactArithmetic`: sums and products are those of a ring;
* `Point.toComplex`: points as complex numbers, whose norm measures distances.
-/

namespace LaserCut.Exact

/-- The number that a literal stands for; zero for a literal that is no number. -/
noncomputable def ofLiteral : Literal → ℝ
  | .nan | .infinite _ => 0
  | .decimal negative mantissa exponent =>
    (if negative then -1 else 1) * mantissa * (10 : ℝ) ^ exponent

noncomputable instance instScalar : Scalar ℝ where
  decidableLE := inferInstance
  decidableLT := inferInstance
  isFinite _ := true
  sqrt := Real.sqrt
  hypot x y := √(x ^ 2 + y ^ 2)
  sin := Real.sin
  cos := Real.cos
  tan := Real.tan
  atan2 y x := Complex.arg ⟨x, y⟩
  log10 := Real.logb 10
  round x := if 0 ≤ x then ⌊x + 1 / 2⌋ else ⌈x - 1 / 2⌉
  pi := Real.pi
  degree := Real.pi / 180
  tenPow n := 10 ^ n
  toNat := Nat.floor
  ofLiteral := ofLiteral

/-- Division of real numbers is that of their field, not a projection of `instScalar`. -/
noncomputable instance instDiv : Div ℝ := DivInvMonoid.toDiv

/-! ## Constants and small functions -/

/-- A quarter of a turn. -/
noncomputable def rightAngle : ℝ := Real.pi / 2

@[simp] theorem rightAngle_eq : rightAngle = Real.pi / 2 := rfl

theorem tenPow_eq (n : Nat) : (Scalar.tenPow n : ℝ) = 10 ^ n := rfl

@[simp] theorem two_eq : (Scalar.two : ℝ) = 2 := one_add_one_eq_two

@[simp] theorem three_eq : (Scalar.three : ℝ) = 3 := by
  show (1 : ℝ) + 1 + 1 = 3
  norm_num

@[simp] theorem ofNat_eq (n : Nat) : (Scalar.ofNat n : ℝ) = n := by
  show (if false then -1 else 1) * (n : ℝ) * 10 ^ (0 : ℤ) = n
  simp

theorem abs_eq (x : ℝ) : Scalar.abs x = |x| := by
  show (if x < 0 then -x else x) = |x|
  split
  · rename_i negative
    exact (abs_of_neg negative).symm
  · rename_i nonneg
    exact (abs_of_nonneg (not_lt.mp nonneg)).symm

theorem clampUnit_eq {t : ℝ} (h₀ : 0 ≤ t) (h₁ : t ≤ 1) : Scalar.clampUnit t = t := by
  show (if t < 0 then 0 else if 1 < t then 1 else t) = t
  rw [if_neg (not_lt.mpr h₀), if_neg (not_lt.mpr h₁)]

theorem clampUnit_mem (t : ℝ) : Scalar.clampUnit t ∈ Set.Icc (0 : ℝ) 1 := by
  show (if t < 0 then 0 else if 1 < t then 1 else t) ∈ Set.Icc (0 : ℝ) 1
  split
  · exact ⟨le_rfl, zero_le_one⟩
  · rename_i nonneg
    split
    · exact ⟨zero_le_one, le_rfl⟩
    · rename_i le
      exact ⟨not_lt.mp nonneg, not_lt.mp le⟩

theorem clampNonneg_eq {x : ℝ} (h : 0 ≤ x) : Scalar.clampNonneg x = x := by
  show (if 0 < x then x else 0) = x
  split
  · rfl
  · rename_i le
    exact le_antisymm h (not_lt.mp le)

theorem beq_iff {x y : ℝ} : (x == y) = true ↔ x = y := by
  show (decide (x = y)) = true ↔ x = y
  exact decide_eq_true_iff

instance exactArithmetic : ExactArithmetic ℝ where
  add_assoc := add_assoc
  add_comm := add_comm
  zero_add := zero_add
  neg_add_cancel := neg_add_cancel
  sub_eq_add_neg := sub_eq_add_neg
  mul_assoc := mul_assoc
  mul_comm := mul_comm
  one_mul := one_mul
  zero_mul := zero_mul
  add_mul := add_mul
  eq_of_beq := beq_iff.mp

/-! ## Rounding -/

theorem exists_round_eq (x : ℝ) : ∃ k : ℤ, Scalar.round x = k ∧ |(k : ℝ) - x| ≤ 1 / 2 := by
  show ∃ k : ℤ, (if 0 ≤ x then ((⌊x + 1 / 2⌋ : ℤ) : ℝ) else ((⌈x - 1 / 2⌉ : ℤ) : ℝ)) = k ∧ _
  split
  · refine ⟨_, rfl, abs_le.mpr ⟨?_, ?_⟩⟩
    · have := Int.lt_floor_add_one (x + 1 / 2)
      linarith
    · have := Int.floor_le (x + 1 / 2)
      linarith
  · refine ⟨_, rfl, abs_le.mpr ⟨?_, ?_⟩⟩
    · have := Int.le_ceil (x - 1 / 2)
      linarith
    · have := Int.ceil_lt_add_one (x - 1 / 2)
      linarith

theorem round_of_nonneg {x : ℝ} (h : 0 ≤ x) : Scalar.round x = ⌊x + 1 / 2⌋ := if_pos h

/-- Below zero ties are rounded downwards. -/
theorem round_lt_add_half {x : ℝ} (h : x < 0) : (Scalar.round x : ℝ) < x + 1 / 2 := by
  show (if 0 ≤ x then _ else ((⌈x - 1 / 2⌉ : ℤ) : ℝ)) < _
  rw [if_neg (not_le.mpr h)]
  have := Int.ceil_lt_add_one (x - 1 / 2)
  linarith

theorem round_zero : Scalar.round (0 : ℝ) = 0 := by
  rw [round_of_nonneg le_rfl]
  norm_num

theorem round_le_round {x y : ℝ} (nonneg : 0 ≤ x) (h : x ≤ y) :
    (Scalar.round x : ℝ) ≤ Scalar.round y := by
  rw [round_of_nonneg nonneg, round_of_nonneg (nonneg.trans h)]
  exact_mod_cast Int.floor_le_floor (by linarith)

/-! ## Dyadic parameters -/

theorem dyadic_eq (k j : Nat) : (dyadic k j : ℝ) = j / 2 ^ k := by
  show (Scalar.ofNat j : ℝ) / Scalar.ofNat (2 ^ k) = _
  rw [ofNat_eq, ofNat_eq, Nat.cast_pow, Nat.cast_ofNat]

instance exactHalving : ExactHalving ℝ where
  zero := by rw [dyadic_eq, Nat.cast_zero, zero_div]
  one := by rw [dyadic_eq, Nat.cast_one, pow_zero, div_one]
  half {k j} _ _ := by
    show ((dyadic k j : ℝ) + dyadic k (j + 1)) / Scalar.two = _
    rw [dyadic_eq, dyadic_eq, dyadic_eq, two_eq, pow_succ]
    push_cast
    ring
  double {k j} _ _ := by
    rw [dyadic_eq, dyadic_eq, pow_succ, Nat.cast_mul, Nat.cast_ofNat, mul_comm (2 : ℝ),
      mul_div_mul_right _ _ two_ne_zero]
  lt {k i j} _ h _ := by
    rw [dyadic_eq, dyadic_eq]
    exact div_lt_div_of_pos_right (Nat.cast_lt.mpr h) (by positivity)

end LaserCut.Exact

/-! ## Spans of real numbers -/

namespace LaserCut.Span

open Exact

variable (s : Span)

/-- The length of a span. -/
noncomputable def extent : ℝ := 1 / 2 ^ s.depth

theorem finish_eq : s.finish = s.start + s.extent := by
  rw [finish, start, dyadic_eq, dyadic_eq, extent, Nat.cast_succ, add_div]

theorem middle_eq : s.middle = s.start + s.extent / 2 := by
  rw [middle, start, dyadic_eq, dyadic_eq, extent, pow_succ]
  push_cast
  ring

theorem extent_pos : 0 < s.extent := by
  rw [extent]
  positivity

theorem start_nonneg : (0 : ℝ) ≤ s.start := by
  rw [start, dyadic_eq]
  positivity

theorem start_le_finish : (s.start : ℝ) ≤ s.finish := by
  rw [finish_eq]
  exact le_add_of_nonneg_right s.extent_pos.le

theorem finish_le_one : (s.finish : ℝ) ≤ 1 := by
  rw [finish, dyadic_eq, div_le_one (by positivity)]
  exact_mod_cast s.index_lt

theorem middle_nonneg : (0 : ℝ) ≤ s.middle := by
  rw [middle, dyadic_eq]
  positivity

theorem middle_le_one : (s.middle : ℝ) ≤ 1 := by
  have := s.finish_le_one
  have := s.extent_pos
  rw [finish_eq] at *
  rw [middle_eq]
  linarith

/-- A parameter of a span, counted from 0 to 1 along the span. -/
theorem exists_parameter {t : ℝ} (after : s.start ≤ t) (before : t ≤ s.finish) :
    ∃ u, 0 ≤ u ∧ u ≤ 1 ∧ t = s.start + s.extent * u := by
  have extent := s.extent_pos
  rw [finish_eq] at before
  refine ⟨(t - s.start) / s.extent, div_nonneg (sub_nonneg.mpr after) extent.le, ?_, ?_⟩
  · rw [div_le_one extent]
    linarith
  · rw [mul_div_cancel₀ _ extent.ne']
    ring

theorem extent_le {k : Nat} (h : k ≤ s.depth) : s.extent ≤ 1 / 2 ^ k :=
  one_div_le_one_div_of_le (by positivity) (pow_le_pow_right₀ one_le_two h)

end LaserCut.Span

/-! ## Points as complex numbers -/

namespace LaserCut.Point

open Exact

def toComplex (p : Point ℝ) : ℂ := ⟨p.x, p.y⟩

theorem same_iff {p q : Point ℝ} : p.same q = true ↔ p = q := by
  obtain ⟨px, py⟩ := p
  obtain ⟨qx, qy⟩ := q
  rw [same, Bool.and_eq_true, beq_iff, beq_iff, Point.mk.injEq]

theorem add_def (p q : Point ℝ) : p + q = ⟨p.x + q.x, p.y + q.y⟩ := rfl

theorem sub_def (p q : Point ℝ) : p - q = ⟨p.x - q.x, p.y - q.y⟩ := rfl

theorem mul_def (p : Point ℝ) (k : ℝ) : p * k = ⟨p.x * k, p.y * k⟩ := rfl

theorem midpoint_def (p q : Point ℝ) : p.midpoint q = ⟨(p.x + q.x) / 2, (p.y + q.y) / 2⟩ := by
  rw [midpoint, two_eq]

theorem norm_toComplex (p : Point ℝ) : ‖p.toComplex‖ = √(p.x ^ 2 + p.y ^ 2) := by
  rw [Complex.norm_def, Complex.normSq_apply, pow_two, pow_two]
  rfl

theorem toComplex_midpoint (p q : Point ℝ) :
    (p.midpoint q).toComplex = (p.toComplex + q.toComplex) / 2 := by
  rw [midpoint_def]
  apply Complex.ext <;> simp [toComplex]

theorem toComplex_lerp (p q : Point ℝ) (t : ℝ) :
    (p.lerp q t).toComplex = p.toComplex + t * (q.toComplex - p.toComplex) := by
  apply Complex.ext
  · show p.x + (q.x - p.x) * t = _
    simp [toComplex, mul_comm]
  · show p.y + (q.y - p.y) * t = _
    simp [toComplex, mul_comm]

theorem distance_eq_norm (p q : Point ℝ) : p.distance q = ‖p.toComplex - q.toComplex‖ := by
  exact (norm_toComplex (p - q)).symm

theorem near_iff {tolerance : ℝ} {p q : Point ℝ} :
    p.near tolerance q = true ↔ ‖p.toComplex - q.toComplex‖ ≤ tolerance := by
  rw [near, decide_eq_true_eq, distance_eq_norm]

end LaserCut.Point
