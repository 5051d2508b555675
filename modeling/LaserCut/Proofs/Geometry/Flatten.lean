import LaserCut.Geometry.Flatten

/-!
# The end of a flattened curve

Whatever the shape of a curve and the tolerance, there are points to visit, and the last of them is
the finish of the curve itself.
-/

namespace LaserCut.Curve

variable {α : Type} [Scalar α]

theorem getLast?_subdivide (curve : Curve α) (tolerance : α) :
    ∀ (left : Nat) (t₀ t₁ : α) (p₀ p₁ : Point α),
      (curve.subdivide tolerance left t₀ t₁ p₀ p₁).getLast? = some p₁
  | 0, _, _, _, _ => rfl
  | left + 1, t₀, t₁, p₀, p₁ => by
    unfold subdivide
    split
    · rfl
    · simp only [List.getLast?_append, getLast?_subdivide curve tolerance left, Option.some_or]

theorem getLast?_flatten (curve : Curve α) (tolerance : α) :
    (curve.flatten tolerance).getLast? = some curve.finish := by
  unfold flatten
  split
  · rfl
  · exact getLast?_subdivide _ _ _ _ _ _ _

theorem flatten_ne_nil (curve : Curve α) (tolerance : α) : curve.flatten tolerance ≠ [] := by
  intro h
  have := curve.getLast?_flatten tolerance
  rw [h] at this
  cases this

end LaserCut.Curve
