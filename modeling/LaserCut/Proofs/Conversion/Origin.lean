import LaserCut.Proofs.Conversion.Descent
import LaserCut.Proofs.Geometry.Similarity
import LaserCut.Proofs.Svg.OuterMap

/-!
# Where the machine's origin is

In exact arithmetic. Offsets, scale and the shift of the origin are one map inside the walk, and the
flip in the height of the bed is outside all of them. The shift is scaled and the height is not, so
that the origin stays where it is set horizontally and moves vertically with the scale.

* `placedCurves_agree`: a conversion places the whole drawing by one map of the plane
  (`machinePoint`);
* `machinePoint_eq`: what that map is with the y-axis pointing up: lengths from the origin's place
  are multiplied by the scale, and heights are then moved by what the scale takes from the bed's;
* `origin_placed`: so the origin's place goes to the machine's origin at the scale 1, and at no
  other scale unless the bed has no height;
* `not_origin_placed`: a line that begins at the lower left corner of the bed, at twice its size.
-/

namespace LaserCut.Conversion

open Curve (IsImage)
open Outcome (Agree)
open Svg (DocumentError)

/-! ## One map for the whole drawing -/

section Map

variable {α : Type} [Scalar α]

/-- The curves of a drawing in the drawing's own coordinates. -/
def ownCurves (root : Element) (s : Settings α) (bed : Point α) :
    Except DocumentError (List (Curve α)) :=
  Svg.curvesBelow (walkOptions s bed).unplaced root

/-- The height that a conversion flips in, if it flips. -/
def flipOf (s : Settings α) (bed : Point α) : Option α :=
  if s.invertYAxis then none else some bed.y

/-- Where a conversion takes a point of the drawing. -/
def machinePoint (s : Settings α) (bed : Point α) (p : Point α) : Point α :=
  (walkOptions s bed).place (flipOf s bed) p

/-- The point of the drawing where the machine's origin is set to be. -/
def originPoint (origin : MachineOrigin) (bed : Point α) : Point α :=
  match origin with
  | .bottomLeft => ⟨0, bed.y⟩
  | .center => ⟨bed.x / Scalar.two, bed.y / Scalar.two⟩
  | .topLeft => ⟨0, 0⟩

theorem flipHeight_walkOptions (root : Element) (s : Settings α) (bed : Point α) :
    Svg.flipHeight (walkOptions s bed) root = .ok (flipOf s bed) := by
  unfold Svg.flipHeight flipOf walkOptions
  cases s.invertYAxis <;> rfl

/-- Every curve of the drawing is placed by the same map, or the first fault is the same. -/
theorem placedCurves_agree [ExactArithmetic α] {root : Element} {s : Settings α} {bed : Point α}
    (size : bedSize root s = .ok bed) :
    Agree (List.Forall₂ (IsImage (machinePoint s bed)))
      (ownCurves root s bed) (placedCurves root s) := by
  rw [placedCurves, size]
  exact Svg.curvesBelow_agree (walkOptions s bed) (flipOf s bed) root
    (flipHeight_walkOptions root s bed)

end Map

/-! ## The origin -/

open Exact

section Origin

variable (s : Settings ℝ) (bed : Point ℝ)

/-- The shift brings the origin's place to the lower left corner of the bed. -/
theorem foldr_originShift (p : Point ℝ) :
    (originShift s.machineOrigin bed).foldr Transform.apply p =
      ⟨p.x - (originPoint s.machineOrigin bed).x,
        p.y + (bed.y - (originPoint s.machineOrigin bed).y)⟩ := by
  cases s.machineOrigin with
  | bottomLeft =>
    show p = ⟨p.x - 0, p.y + (bed.y - bed.y)⟩
    rw [sub_zero, sub_self, add_zero]
  | center =>
    show (Transform.shift (-bed.x / Scalar.two) (bed.y / Scalar.two)).apply p =
      ⟨p.x - bed.x / Scalar.two, p.y + (bed.y - bed.y / Scalar.two)⟩
    rw [Transform.apply_shift, two_eq, Point.mk.injEq]
    constructor <;> ring
  | topLeft =>
    show (Transform.shift 0 bed.y).apply p = ⟨p.x - 0, p.y + (bed.y - 0)⟩
    rw [Transform.apply_shift, add_zero, sub_zero, sub_zero]

theorem apply_placement (p : Point ℝ) :
    (placement s bed).apply p =
      ⟨s.scalingFactor * (p.x - (originPoint s.machineOrigin bed).x) + s.horizontalOffset,
        s.scalingFactor * (p.y + (bed.y - (originPoint s.machineOrigin bed).y)) +
          s.verticalOffset⟩ := by
  rw [placement, Transform.apply_composeAll, Transform.identity_apply, List.foldr_append,
    foldr_originShift, List.foldr_cons, List.foldr_cons, List.foldr_nil,
    Transform.apply_scaling, Transform.apply_shift]

/-- With the y-axis pointing up, lengths from the origin's place are multiplied by the scale; then
everything is moved by what the scale takes from the height of the bed, and by the offsets, of which
the vertical one counts downwards. -/
theorem machinePoint_eq (up : s.invertYAxis = false) (p : Point ℝ) :
    machinePoint s bed p =
      ⟨s.scalingFactor * (p.x - (originPoint s.machineOrigin bed).x) + s.horizontalOffset,
        s.scalingFactor * ((originPoint s.machineOrigin bed).y - p.y) +
          (1 - s.scalingFactor) * bed.y - s.verticalOffset⟩ := by
  have flip : flipOf s bed = some bed.y := by rw [flipOf, up, if_neg Bool.false_ne_true]
  show PathData.flippedPoint (flipOf s bed) ((placement s bed).apply p) = _
  rw [flip, apply_placement, PathData.flippedPoint, Point.mk.injEq]
  constructor <;> ring

end Origin

/-- Without offsets and with the y-axis pointing up a conversion places every curve of the drawing
by one map. It keeps the place of the machine's origin on the machine's y-axis at every scale, but
moves it up by the height that the scale takes from the bed's: it is the machine's origin at the
scale 1, and at no other scale unless the bed has no height. -/
theorem origin_placed (root : Element) (s : Settings ℝ) (bed : Point ℝ)
    (dx : s.horizontalOffset = 0) (dy : s.verticalOffset = 0) (up : s.invertYAxis = false)
    (size : bedSize root s = .ok bed) :
    Agree (List.Forall₂ (IsImage (machinePoint s bed)))
        (ownCurves root s bed) (placedCurves root s) ∧
      (∀ p, machinePoint s bed p =
        ⟨s.scalingFactor * (p.x - (originPoint s.machineOrigin bed).x),
          s.scalingFactor * ((originPoint s.machineOrigin bed).y - p.y) +
            (1 - s.scalingFactor) * bed.y⟩) ∧
      machinePoint s bed (originPoint s.machineOrigin bed) =
        ⟨0, (1 - s.scalingFactor) * bed.y⟩ ∧
      (machinePoint s bed (originPoint s.machineOrigin bed) = ⟨0, 0⟩ ↔
        s.scalingFactor = 1 ∨ bed.y = 0) := by
  have everywhere (p : Point ℝ) := machinePoint_eq s bed up p
  simp only [dx, dy, add_zero, sub_zero] at everywhere
  have there : machinePoint s bed (originPoint s.machineOrigin bed) =
      ⟨0, (1 - s.scalingFactor) * bed.y⟩ := by
    rw [everywhere, sub_self, sub_self, mul_zero, zero_add]
  refine ⟨placedCurves_agree size, everywhere, there, ?_⟩
  rw [there, Point.mk.injEq, mul_eq_zero, sub_eq_zero, eq_comm (a := (1 : ℝ))]
  exact and_iff_right rfl

/-! ## A line at the corner -/

/-- A line along the bottom of a bed of 200 by 200, from the left. -/
def cornerPath : Element := ⟨"path", none, [⟨none, "d", "M0,200L1,200"⟩], []⟩

def cornerRoot : Element := ⟨"svg", none, [], [cornerPath]⟩

/-- The one visit, since the path is shown, visible, and without a transform. -/
theorem visits_cornerRoot {α : Type} [Scalar α] (t : Transform α) :
    Svg.visits false ⟨t, true, none⟩ cornerRoot = [.draw cornerPath t] := by
  have shown : Svg.isSkipped cornerPath = false := by decide +kernel
  have visible : Svg.isVisible true cornerPath = true := by decide +kernel
  have untransformed : cornerPath.attribute? "transform" = none := by decide +kernel
  have own : Svg.elementTransform t cornerPath = .ok t := by
    rw [Svg.elementTransform, untransformed]
  show Svg.visitsOfList false ⟨t, true, none⟩ [cornerPath] = _
  simp only [Svg.visitsOfList, shown, own, visible]
  rfl

theorem curves_corner :
    PathData.curves "M0,200L1,200" = .ok [.line (⟨0, 200⟩ : Point ℝ) ⟨1, 200⟩] := by
  have parsed : (PathData.parse "M0,200L1,200").toOption =
      some [⟨false, .moveTo ⟨.decimal false 0 0, .decimal false 200 0⟩⟩,
        ⟨false, .lineTo ⟨.decimal false 1 0, .decimal false 200 0⟩⟩] := by decide +kernel
  have literal (n : Nat) : (Scalar.ofLiteral (.decimal false n 0) : ℝ) = n := ofNat_eq n
  rw [PathData.curves, Outcome.toOption_eq_some_iff.mp parsed]
  show Except.ok [Curve.line ((Point.origin : Point ℝ) + _) (Point.origin + _)] = _
  simp [Point.map, Point.add_def, Point.origin, literal]

/-- Everything twice as large. -/
noncomputable def doubled : Settings ℝ := { fivePasses with scalingFactor := Scalar.two }

theorem ownCurves_corner (s : Settings ℝ) (bed : Point ℝ) (whole : s.layer? = none) :
    ownCurves cornerRoot s bed = .ok [.line ⟨0, 200⟩ ⟨1, 200⟩] := by
  have data : Svg.pathData cornerPath = .ok (some "M0,200L1,200") := by rfl
  have still : (Transform.identity : Transform ℝ).isIdentity = true := by
    simp [Transform.isIdentity, Transform.same]
  have outlined : PathData.outline "M0,200L1,200" Transform.identity none =
      .ok [.line (⟨0, 200⟩ : Point ℝ) ⟨1, 200⟩] := by
    rw [PathData.outline, curves_corner, PathData.placing]
    show Except.ok (PathData.placed _ _) = _
    rw [PathData.placed, still, if_pos rfl]
  have drawn : Svg.elementCurves cornerPath Transform.identity none =
      .ok [.line (⟨0, 200⟩ : Point ℝ) ⟨1, 200⟩] := by
    rw [Svg.elementCurves, data]
    exact congrArg (Except.mapError DocumentError.path) outlined
  have context : (walkOptions s bed).unplaced.context = ⟨Transform.identity, true, none⟩ :=
    congrArg (Svg.Context.mk _ _) whole
  rw [ownCurves, Svg.curvesBelow_eq_collect _ none _ rfl, context]
  show Svg.collect _ (Svg.visits false _ _) = _
  rw [visits_cornerRoot, Svg.collect_singleton]
  exact drawn

theorem scale_doubled : doubled.scalingFactor = 2 := two_eq

theorem validated_doubled : doubled.validated = .ok doubled := by
  have accepted := validated_iff.mp validated_fivePasses
  exact validated_iff.mpr accepted

theorem origin_placed_doubled :
    doubled.horizontalOffset = 0 ∧ doubled.verticalOffset = 0 ∧ doubled.invertYAxis = false ∧
      bedSize cornerRoot doubled = .ok ⟨200, 200⟩ ∧
      machinePoint doubled ⟨200, 200⟩ (originPoint .bottomLeft ⟨200, 200⟩) = ⟨0, -200⟩ ∧
      ∃ placed, placedCurves cornerRoot doubled = .ok placed ∧
        List.Forall₂ (IsImage (machinePoint doubled ⟨200, 200⟩))
          [.line ⟨0, 200⟩ ⟨1, 200⟩] placed := by
  have size : bedSize cornerRoot doubled = .ok ⟨200, 200⟩ := rfl
  obtain ⟨agree, -, there, -⟩ := origin_placed cornerRoot doubled ⟨200, 200⟩ rfl rfl rfl size
  rw [scale_doubled] at there
  refine ⟨rfl, rfl, rfl, size, there.trans ?_, agree.exists_ok (ownCurves_corner doubled _ rfl)⟩
  norm_num

/-- The machine's origin is not where the settings say: at twice its size a line that begins at the
lower left corner of the bed begins 200 below the machine's origin. -/
theorem not_origin_placed : ¬ ∀ (root : Element) (s : Settings ℝ) (bed : Point ℝ),
    s.validated = .ok s → s.horizontalOffset = 0 → s.verticalOffset = 0 → s.invertYAxis = false →
    bedSize root s = .ok bed → s.scalingFactor ≠ 0 →
    ∀ drawn placed, ownCurves root s bed = .ok drawn → placedCurves root s = .ok placed →
      List.Forall₂ (fun curve image => ∀ t,
        curve.point t = originPoint s.machineOrigin bed → image.point t = ⟨0, 0⟩) drawn placed := by
  intro claim
  have size : bedSize cornerRoot doubled = .ok ⟨200, 200⟩ := rfl
  have drawn := ownCurves_corner doubled ⟨200, 200⟩ rfl
  obtain ⟨placed, converted, images⟩ := (placedCurves_agree size).exists_ok drawn
  have sent := claim cornerRoot doubled ⟨200, 200⟩ validated_doubled rfl rfl rfl size
    (scale_doubled ▸ two_ne_zero) _ placed drawn converted
  obtain ⟨image, _, first, -, rfl⟩ := List.forall₂_cons_left_iff.mp images
  have begins : (Curve.line (⟨0, 200⟩ : Point ℝ) ⟨1, 200⟩).point 0 = ⟨0, 200⟩ := by
    rw [Curve.point, clampUnit_eq le_rfl zero_le_one]
    simp [Point.lerp]
  have origin := (List.forall₂_cons.mp sent).1 0 begins
  rw [first.point, begins, machinePoint_eq doubled _ rfl, scale_doubled] at origin
  have height := congrArg Point.y origin
  change 2 * ((200 : ℝ) - 200) + (1 - 2) * 200 - 0 = 0 at height
  norm_num at height

end LaserCut.Conversion
