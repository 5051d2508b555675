import LaserCut.Proofs.Binary64.Order
import LaserCut.Proofs.Geometry.Flatten

/-!
# Tightening the tolerance

Two runs of the flattening of one curve halve the same spans as long as both find them bent. Where
the run with the larger tolerance stops at a span, the other one may go on, and ends at the same
point.

* `subdivide_sublist`: so a run that finds flat whatever another one finds flat leaves out points
  of that one, and moves none;
* `flatten_sublist`: a smaller tolerance only adds points to a flattened curve.
-/

namespace LaserCut.Curve

variable {α : Type} [Scalar α]

theorem isFlat_mono (curve : Curve α) {tight loose : α}
    (le : ∀ x : α, x ≤ tight → x ≤ loose) (t₀ t₁ : α) (p₀ p₁ : Point α)
    (h : curve.isFlat tight t₀ t₁ p₀ p₁ = true) : curve.isFlat loose t₀ t₁ p₀ p₁ = true := by
  rw [isFlat, Point.near, decide_eq_true_eq] at h ⊢
  exact le _ h

/-- The points of a span under the larger tolerance are among those under the smaller one, in the
same order. -/
theorem subdivide_sublist (curve : Curve α) {tight loose : α}
    (le : ∀ x : α, x ≤ tight → x ≤ loose) :
    ∀ (left : Nat) (t₀ t₁ : α) (p₀ p₁ : Point α),
      (curve.subdivide loose left t₀ t₁ p₀ p₁).Sublist (curve.subdivide tight left t₀ t₁ p₀ p₁)
  | 0, _, _, _, _ => List.Sublist.refl _
  | left + 1, t₀, t₁, p₀, p₁ => by
    have last := curve.getLast?_subdivide tight (left + 1) t₀ t₁ p₀ p₁
    rw [subdivide]
    split
    · -- Only the end of the span is left, which is the last point of the other run too.
      exact List.singleton_sublist.mpr (List.mem_of_getLast? last)
    · rename_i bent
      have alsoBent : ¬ (left + 1 ≤ maxHalvings - minHalvings &&
          curve.isFlat tight t₀ t₁ p₀ p₁) = true := by
        rw [Bool.and_eq_true, decide_eq_true_eq] at bent ⊢
        exact fun flat => bent ⟨flat.1, curve.isFlat_mono le _ _ _ _ flat.2⟩
      rw [subdivide, if_neg alsoBent]
      exact (curve.subdivide_sublist le left _ _ _ _).append
        (curve.subdivide_sublist le left _ _ _ _)

/-- Of two tolerances the smaller one gives all the points that the larger one gives, in the same
order, and perhaps more between them. -/
theorem flatten_sublist (curve : Curve Float) {tight loose : Float} (h : tight ≤ loose) :
    (curve.flatten loose).Sublist (curve.flatten tight) := by
  have le (x : Float) (hx : x ≤ tight) : x ≤ loose := Binary64.le_trans hx h
  cases curve with
  | line p q => exact List.Sublist.refl _
  | quadratic | cubic | arc => exact subdivide_sublist _ le _ _ _ _ _

/-- A bend that is drawn with four lines to within one unit and with eight to within a quarter. -/
theorem flatten_sublist_bend :
    let curve : Curve Float := .quadratic ⟨0, 0⟩ ⟨8, 16⟩ ⟨16, 0⟩
    (0.25 : Float) ≤ 1 ∧ (curve.flatten 1).Sublist (curve.flatten 0.25) ∧
      (curve.flatten 1).length = 4 ∧ (curve.flatten 0.25).length = 8 := by
  intro curve
  have le : (0.25 : Float) ≤ 1 := by decide
  exact ⟨le, curve.flatten_sublist le, by decide +kernel, by decide +kernel⟩

end LaserCut.Curve
