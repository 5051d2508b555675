import LaserCut.PathData.Reader
import LaserCut.PathData.Pen

/-!
# Outlines

The curves of path data: as the text gives them, or mapped into the machine's plane by a transform
and a vertical flip.
-/

namespace LaserCut.PathData

variable {α : Type} [Scalar α]

/-- The curves that path data draws, in its own coordinates. -/
def curves (d : String) : Except PathError (List (Curve α)) :=
  (parse d).map fun commands => draw (commands.map (Command.map Scalar.ofLiteral))

/-- A transform followed by a flip in a canvas of the given height, if there is one. -/
def placing (transform : Transform α) (flip : Option α) : Transform α :=
  match flip with
  | some height => (Transform.verticalFlip height).compose transform
  | none => transform

/-- Curves mapped by a transform; under the identity they stay as they are. -/
def placed (map : Transform α) (curves : List (Curve α)) : List (Curve α) :=
  if map.isIdentity then curves else curves.map (Curve.transformed map)

/-- The curves that path data draws, mapped by a transform and then flipped. -/
def outline (d : String) (transform : Transform α) (flip : Option α) :
    Except PathError (List (Curve α)) :=
  (curves d).map (placed (placing transform flip))

end LaserCut.PathData
