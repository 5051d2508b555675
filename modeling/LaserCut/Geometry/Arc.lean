import LaserCut.Geometry.Transform

/-!
# Elliptical arcs

An arc in centre form, followed by an affine map: the ellipse with the given centre, radii and
rotation, from `startAngle` on through `sweepAngle`. `Arc.solve` finds the centre form of the arc
that path data gives by its end points, radii and two flags.

The end points are kept as given, so that the ends of the arc are met exactly.
-/

namespace LaserCut

/-- An arc of an ellipse, followed by an affine map. Angles are in radians. -/
structure Arc (α : Type) where
  /-- The first point, before the map. -/
  start : Point α
  /-- The last point, before the map. -/
  finish : Point α
  center : Point α
  radii : Point α
  /-- The angle of the ellipse's own x-axis. -/
  rotation : α
  startAngle : α
  sweepAngle : α
  transform : Transform α
deriving DecidableEq, Repr

namespace Arc

variable {α : Type} [Scalar α]

/-- The point of the ellipse at an angle, before the map. -/
def ellipsePoint (arc : Arc α) (angle : α) : Point α :=
  let sin := Scalar.sin arc.rotation
  let cos := Scalar.cos arc.rotation
  let x := arc.radii.x * Scalar.cos angle
  let y := arc.radii.y * Scalar.sin angle
  ⟨cos * x - sin * y + arc.center.x, sin * x + cos * y + arc.center.y⟩

/-- The point at a parameter, from the start (at 0) to the finish (at 1). -/
def point (arc : Arc α) (t : α) : Point α :=
  arc.transform.apply
    (if t ≤ 0 then arc.start
    else if 1 ≤ t then arc.finish
    else arc.ellipsePoint (arc.startAngle + arc.sweepAngle * t))

/-- The signed angle from the vector `u` to the vector `v`. -/
def angleBetween (u v : Point α) : α :=
  Scalar.atan2 (u.x * v.y - u.y * v.x) (u.x * v.x + u.y * v.y)

/-- What path data says of an arc beside its end points. -/
structure Shape (α : Type) where
  radii : Point α
  /-- In degrees. -/
  rotation : α
  large : Bool
  sweep : Bool
deriving DecidableEq, Repr

/-- Half the way back from the finish to the start, in the axes of the ellipse. -/
def halfChord (start finish : Point α) (sin cos : α) : Point α :=
  let x := (start.x - finish.x) / Scalar.two
  let y := (start.y - finish.y) / Scalar.two
  ⟨cos * x + sin * y, -sin * x + cos * y⟩

/-- Radii too small to reach from end to end are scaled up by the same factor. -/
def reachingRadii (radii half : Point α) : Point α :=
  let lambda := half.x * half.x / (radii.x * radii.x) + half.y * half.y / (radii.y * radii.y)
  if 1 < lambda then radii * Scalar.sqrt lambda else radii

/-- The centre relative to the middle of the chord, in the axes of the ellipse. -/
def centerOffset (radii half : Point α) (large sweep : Bool) : Point α :=
  let rx2 := radii.x * radii.x
  let ry2 := radii.y * radii.y
  let num := rx2 * ry2 - rx2 * half.y * half.y - ry2 * half.x * half.x
  let den := rx2 * half.y * half.y + ry2 * half.x * half.x
  let root := Scalar.sqrt (Scalar.clampNonneg (num / den))
  let coef := if large = sweep then -root else root
  ⟨coef * radii.x * half.y / radii.y, -coef * radii.y * half.x / radii.x⟩

/-- A sweep brought to the side that the flag asks for, by a full turn if need be. -/
def directedSweep (sweep : Bool) (angle : α) : α :=
  if !sweep && decide (0 < angle) then angle - Scalar.two * Scalar.pi
  else if sweep && decide (angle < 0) then angle + Scalar.two * Scalar.pi
  else angle

/-- The centre form of the arc between two points with radii that are not zero. -/
def solve (start finish : Point α) (shape : Shape α) : Arc α :=
  let rotation := Scalar.radians shape.rotation
  let sin := Scalar.sin rotation
  let cos := Scalar.cos rotation
  let half := halfChord start finish sin cos
  let radii := reachingRadii (shape.radii.map Scalar.abs) half
  let c := centerOffset radii half shape.large shape.sweep
  let u : Point α := ⟨(half.x - c.x) / radii.x, (half.y - c.y) / radii.y⟩
  let v : Point α := ⟨(-half.x - c.x) / radii.x, (-half.y - c.y) / radii.y⟩
  { start
    finish
    center := ⟨cos * c.x - sin * c.y + (start.x + finish.x) / Scalar.two,
      sin * c.x + cos * c.y + (start.y + finish.y) / Scalar.two⟩
    radii
    rotation
    startAngle := angleBetween ⟨1, 0⟩ u
    sweepAngle := directedSweep shape.sweep (angleBetween u v)
    transform := Transform.identity }

end Arc
end LaserCut
