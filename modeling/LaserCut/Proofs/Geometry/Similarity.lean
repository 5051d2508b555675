import LaserCut.Proofs.Reals

/-!
# Similar curves

In exact arithmetic. A similarity multiplies all distances by one factor. The test of flatness
compares one distance with the tolerance, so a curve and its image, with the tolerance multiplied
by that factor, are halved alike.

* `Transform.IsSimilarity`: a map that multiplies all distances by a factor;
* `Transform.IsUniform`: translations, rotations, flips, uniform scales and their products, all of
  which are similarities (`IsUniform.isSimilarity`);
* `Curve.subdivide_transformed`, `Curve.flatten_transformed`: the points of the image are the images
  of the points.
-/

namespace LaserCut

open Exact

/-! ## Similarities -/

theorem Point.distance_def (p q : Point ℝ) :
    p.distance q = √((p.x - q.x) ^ 2 + (p.y - q.y) ^ 2) := rfl

namespace Transform

theorem apply_def (t : Transform ℝ) (p : Point ℝ) :
    t.apply p = ⟨t.a * p.x + t.c * p.y + t.e, t.b * p.x + t.d * p.y + t.f⟩ := rfl

theorem apply_shift (x y : ℝ) (p : Point ℝ) : (shift x y).apply p = ⟨p.x + x, p.y + y⟩ := by
  rw [apply_def, shift, Point.mk.injEq]
  constructor <;> ring

theorem apply_scaling (k : ℝ) (p : Point ℝ) : (scaling k k).apply p = ⟨k * p.x, k * p.y⟩ := by
  rw [apply_def, scaling, Point.mk.injEq]
  constructor <;> ring

theorem apply_midpoint (t : Transform ℝ) (p q : Point ℝ) :
    t.apply (p.midpoint q) = (t.apply p).midpoint (t.apply q) := by
  simp only [apply_def, Point.midpoint_def, Point.mk.injEq]
  constructor <;> ring

/-- The map multiplies all distances by `k`. -/
structure IsSimilarity (t : Transform ℝ) (k : ℝ) : Prop where
  positive : 0 < k
  distance (p q : Point ℝ) : (t.apply p).distance (t.apply q) = k * p.distance q

/-- Distances are multiplied by `k` where the squares of distances are multiplied by that of `k`. -/
theorem isSimilarity_of_sq {t : Transform ℝ} {k : ℝ} (positive : 0 < k)
    (sq : ∀ x y : ℝ, (t.a * x + t.c * y) ^ 2 + (t.b * x + t.d * y) ^ 2 = k ^ 2 * (x ^ 2 + y ^ 2)) :
    t.IsSimilarity k where
  positive := positive
  distance p q := by
    have linear : (t.apply p).distance (t.apply q) =
        √((t.a * (p.x - q.x) + t.c * (p.y - q.y)) ^ 2 +
          (t.b * (p.x - q.x) + t.d * (p.y - q.y)) ^ 2) := by
      rw [Point.distance_def, apply_def, apply_def]
      congr 1
      ring
    rw [linear, sq, Real.sqrt_mul (sq_nonneg k), Real.sqrt_sq positive.le, Point.distance_def]

theorem IsSimilarity.compose {s t : Transform ℝ} {j k : ℝ} (hs : s.IsSimilarity j)
    (ht : t.IsSimilarity k) : (s.compose t).IsSimilarity (j * k) where
  positive := mul_pos hs.positive ht.positive
  distance p q := by
    rw [apply_compose, apply_compose, hs.distance, ht.distance, mul_assoc]

/-- Translations, rotations, flips, uniform scales and products of such maps, each with the factor
that it multiplies distances by. -/
inductive IsUniform : Transform ℝ → ℝ → Prop
  | shift (x y : ℝ) : IsUniform (shift x y) 1
  | rotation (degrees : ℝ) : IsUniform (rotation degrees) 1
  | verticalFlip (height : ℝ) : IsUniform (verticalFlip height) 1
  | scaling {k : ℝ} (h : k ≠ 0) : IsUniform (scaling k k) |k|
  | compose {s t : Transform ℝ} {j k : ℝ} (hs : IsUniform s j) (ht : IsUniform t k) :
    IsUniform (s.compose t) (j * k)

theorem isSimilarity_shift (x y : ℝ) : (shift x y).IsSimilarity 1 :=
  isSimilarity_of_sq one_pos fun u v => by
    show (1 * u + 0 * v) ^ 2 + (0 * u + 1 * v) ^ 2 = _
    ring

theorem isSimilarity_rotation (degrees : ℝ) : (rotation degrees).IsSimilarity 1 :=
  isSimilarity_of_sq one_pos fun u v => by
    let angle : ℝ := Scalar.radians degrees
    have unit := Real.sin_sq_add_cos_sq angle
    show (Real.cos angle * u + -Real.sin angle * v) ^ 2 +
      (Real.sin angle * u + Real.cos angle * v) ^ 2 = _
    linear_combination (u ^ 2 + v ^ 2) * unit

theorem isSimilarity_verticalFlip (height : ℝ) : (verticalFlip height).IsSimilarity 1 :=
  isSimilarity_of_sq one_pos fun u v => by
    show (1 * u + 0 * v) ^ 2 + (0 * u + -1 * v) ^ 2 = _
    ring

theorem isSimilarity_scaling {k : ℝ} (h : k ≠ 0) : (scaling k k).IsSimilarity |k| :=
  isSimilarity_of_sq (abs_pos.mpr h) fun u v => by
    show (k * u + 0 * v) ^ 2 + (0 * u + k * v) ^ 2 = _
    rw [sq_abs]
    ring

theorem IsUniform.isSimilarity {t : Transform ℝ} {k : ℝ} (h : t.IsUniform k) :
    t.IsSimilarity k := by
  induction h with
  | shift x y => exact isSimilarity_shift x y
  | rotation degrees => exact isSimilarity_rotation degrees
  | verticalFlip height => exact isSimilarity_verticalFlip height
  | scaling h => exact isSimilarity_scaling h
  | compose _ _ hs ht => exact hs.compose ht

end Transform

/-! ## Curves -/

namespace Curve

variable {t : Transform ℝ} {k : ℝ}

theorem near_apply (h : t.IsSimilarity k) (tolerance : ℝ) (p q : Point ℝ) :
    (t.apply p).near (k * tolerance) (t.apply q) = p.near tolerance q := by
  rw [Point.near, Point.near, h.distance, decide_eq_decide]
  exact mul_le_mul_iff_right₀ h.positive

variable (curve : Curve ℝ) (tolerance : ℝ)

/-- The image of a span passes the test if and only if the span does. -/
theorem isFlat_transformed (h : t.IsSimilarity k) (t₀ t₁ : ℝ) (p₀ p₁ : Point ℝ) :
    (curve.transformed t).isFlat (k * tolerance) t₀ t₁ (t.apply p₀) (t.apply p₁) =
      curve.isFlat tolerance t₀ t₁ p₀ p₁ := by
  rw [isFlat, isFlat, point_transformed, ← t.apply_midpoint, near_apply h]

/-- Both runs take the same branch at every span, so each point of the one is the image of the
point of the other. -/
theorem subdivide_transformed (h : t.IsSimilarity k) :
    ∀ (left : Nat) (t₀ t₁ : ℝ) (p₀ p₁ : Point ℝ),
      (curve.transformed t).subdivide (k * tolerance) left t₀ t₁ (t.apply p₀) (t.apply p₁) =
        (curve.subdivide tolerance left t₀ t₁ p₀ p₁).map t.apply
  | 0, _, _, _, _ => rfl
  | left + 1, t₀, t₁, p₀, p₁ => by
    rw [subdivide, subdivide, curve.isFlat_transformed tolerance h]
    split
    · rfl
    · dsimp only
      rw [point_transformed, subdivide_transformed h left, subdivide_transformed h left,
        List.map_append]

theorem flatten_transformed (h : t.IsSimilarity k) :
    (curve.transformed t).flatten (k * tolerance) = (curve.flatten tolerance).map t.apply := by
  have image := curve.isImage_transformed t
  have halved := curve.subdivide_transformed tolerance h maxHalvings 0 1 curve.start curve.finish
  rw [← image.start, ← image.finish] at halved
  cases curve with
  | line p q => rfl
  | quadratic | cubic | arc => exact halved

end Curve
end LaserCut
