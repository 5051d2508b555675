import LaserCut.Geometry.Transform
import LaserCut.Settings.Basic
import LaserCut.Svg.Error
import LaserCut.Svg.Length
import LaserCut.Markup.Element

/-!
# Placement

Where a drawing goes on the bed of the machine: the size of the bed, and the map from the drawing's
plane, which is flipped afterwards, to the machine's.
-/

namespace LaserCut.Conversion

open Svg (DocumentError length?)

variable {α : Type} [Scalar α]

/-- The width and height of the bed: as set, or as the root of the drawing says. -/
def bedSize (root : Element) (s : Settings α) : Except DocumentError (Point α) :=
  if s.useDocumentSize then
    match (root.attribute? "width").bind length?, (root.attribute? "height").bind length? with
    | some width, some height => .ok ⟨width, height⟩
    | _, _ => .error .missingDimensions
  else .ok ⟨s.bedWidth, s.bedHeight⟩

/-- The move that brings the machine's origin from the corner of the bed to its place. -/
def originShift (origin : MachineOrigin) (bed : Point α) : List (Transform α) :=
  match origin with
  | .bottomLeft => []
  | .center => [Transform.shift (-bed.x / Scalar.two) (bed.y / Scalar.two)]
  | .topLeft => [Transform.shift 0 bed.y]

/-- Offset, scale and machine origin as one map. -/
def placement (s : Settings α) (bed : Point α) : Transform α :=
  Transform.identity.composeAll
    ([Transform.shift s.horizontalOffset s.verticalOffset,
      Transform.scaling s.scalingFactor s.scalingFactor] ++ originShift s.machineOrigin bed)

end LaserCut.Conversion
