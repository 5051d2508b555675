import LaserCut.Proofs.Outcome
import LaserCut.Proofs.Reals
import LaserCut.PathData.Outline

/-!
# Placed outlines

An outline is the image of the curves that path data gives by itself: every curve is mapped by the
transform and then by the flip, whether its control points move, it carries the map along, or it is
returned untouched because the map is the identity.

* `isImage_placing`: mapping a curve by the product of transform and flip maps it by the two in
  turn;
* `outline_isImage`: outlines, and flipping a flipped outline back.
-/

namespace LaserCut.PathData

open Curve (IsImage)

variable {α : Type} [Scalar α]

/-- Where a flip takes a point: in a canvas of the given height from `y` to `height - y`. -/
def flippedPoint (flip : Option α) (p : Point α) : Point α :=
  match flip with
  | some height => ⟨p.x, height - p.y⟩
  | none => p

/-- The samples of an outline, curve by curve, are the given curves' samples mapped by a transform
and then flipped. -/
def IsPlaced (transform : Transform α) (flip : Option α) (curves placed : List (Curve α)) : Prop :=
  List.Forall₂ (IsImage fun p => flippedPoint flip (transform.apply p)) curves placed

variable [ExactArithmetic α]

section Flip

attribute [local instance] ExactArithmetic.commRing

theorem apply_verticalFlip (height : α) (p : Point α) :
    (Transform.verticalFlip height).apply p = flippedPoint (some height) p := by
  simp only [Transform.apply, Transform.verticalFlip, flippedPoint, Point.mk.injEq]
  constructor <;> ring

/-- To flip twice is to stay. -/
theorem flippedPoint_flippedPoint (flip : Option α) (p : Point α) :
    flippedPoint flip (flippedPoint flip p) = p := by
  cases flip with
  | none => rfl
  | some height =>
    have y : height - (height - p.y) = p.y := by ring
    simp only [flippedPoint, y]

end Flip

theorem apply_placing (transform : Transform α) (flip : Option α) (p : Point α) :
    (placing transform flip).apply p = flippedPoint flip (transform.apply p) := by
  cases flip with
  | none => rfl
  | some height => rw [placing, Transform.apply_compose, apply_verticalFlip]

theorem isImage_placing (transform : Transform α) (flip : Option α) (curve : Curve α) :
    IsImage (fun p => flippedPoint flip (transform.apply p)) curve
      (curve.transformed (placing transform flip)) := by
  have map : (fun p => flippedPoint flip (transform.apply p)) = (placing transform flip).apply :=
    funext fun p => (apply_placing transform flip p).symm
  rw [map]
  exact curve.isImage_transformed _

/-- The identity moves no point, so curves left alone are their own images. -/
theorem isImage_of_isIdentity {transform : Transform α} {flip : Option α}
    (h : (placing transform flip).isIdentity = true) (curve : Curve α) :
    IsImage (fun p => flippedPoint flip (transform.apply p)) curve curve := by
  have map : (fun p => flippedPoint flip (transform.apply p)) = id := by
    funext p
    rw [← apply_placing, Transform.eq_of_same h, Transform.identity_apply, id]
  rw [map]
  exact .refl curve

theorem isPlaced_placed (transform : Transform α) (flip : Option α) (curves : List (Curve α)) :
    IsPlaced transform flip curves (placed (placing transform flip) curves) := by
  unfold placed
  split
  · rename_i identity
    exact List.forall₂_same.mpr fun curve _ => isImage_of_isIdentity identity curve
  · exact List.forall₂_map_right_iff.mpr
      (List.forall₂_same.mpr fun curve _ => isImage_placing transform flip curve)

/-- The images of curves under a flip alone, flipped back. -/
theorem IsPlaced.flip_back {flip : Option α} {curves placed : List (Curve α)}
    (h : IsPlaced Transform.identity flip curves placed) :
    List.Forall₂ (IsImage (flippedPoint flip)) placed curves := by
  refine List.Forall₂.flip (h.imp fun curve image placed => placed.undo fun p => ?_)
  rw [Transform.identity_apply, flippedPoint_flippedPoint]

/-- Path data that gives curves gives an outline under every transform and flip, whose curves have
the kinds, the order, the ends and the samples of the given curves, mapped by the transform and then
flipped; a flip alone is undone by flipping the samples back. The image of any curve under a chain
of transforms has the samples mapped by each of them in turn. -/
theorem outline_isImage :
    (∀ (d : String) (raw : List (Curve α)), curves d = .ok raw →
      (∀ (transform : Transform α) (flip : Option α), ∃ placed,
        outline d transform flip = .ok placed ∧ IsPlaced transform flip raw placed) ∧
      ∀ height : α, ∃ placed, outline d Transform.identity (some height) = .ok placed ∧
        List.Forall₂ (IsImage (flippedPoint (some height))) placed raw) ∧
    ∀ (chain : List (Transform α)) (curve : Curve α),
      IsImage (fun p => chain.foldl (fun q t => t.apply q) p) curve
        (chain.foldl (fun c t => c.transformed t) curve) := by
  refine ⟨fun d raw parsed => ?_, Curve.isImage_foldl_transformed⟩
  have outlined (transform : Transform α) (flip : Option α) :
      outline d transform flip = .ok (placed (placing transform flip) raw) :=
    Outcome.map_eq_ok_iff.mpr ⟨raw, parsed, rfl⟩
  exact ⟨fun transform flip => ⟨_, outlined transform flip, isPlaced_placed transform flip raw⟩,
    fun height => ⟨_, outlined _ _, (isPlaced_placed _ _ raw).flip_back⟩⟩

/-- A curve of each kind, over the real numbers. -/
theorem outline_isImage_reals :
    let d := "M10,20C15,40,30,40,35,20Q50,0,60,20A10,5,30,0,1,80,25Z"
    ∃ raw : List (Curve ℝ), curves d = .ok raw ∧
      (∀ (transform : Transform ℝ) (flip : Option ℝ), ∃ placed,
        outline d transform flip = .ok placed ∧ IsPlaced transform flip raw placed) ∧
      ∀ height : ℝ, ∃ placed, outline d Transform.identity (some height) = .ok placed ∧
        List.Forall₂ (IsImage (flippedPoint (some height))) placed raw := by
  intro d
  have parsed : (parse d).toOption.isSome = true := by decide +kernel
  obtain ⟨commands, h⟩ := Option.isSome_iff_exists.mp parsed
  have drawn : curves d =
      .ok (draw (commands.map (Command.map (Scalar.ofLiteral : Literal → ℝ)))) :=
    Outcome.map_eq_ok_iff.mpr ⟨commands, Outcome.toOption_eq_some_iff.mp h, rfl⟩
  exact ⟨_, drawn, outline_isImage.1 d _ drawn⟩

end LaserCut.PathData
