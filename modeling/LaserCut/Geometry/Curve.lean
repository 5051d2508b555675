import LaserCut.Geometry.Arc

/-!
# Curves

What a drawing is made of: lines, Bézier curves and elliptical arcs. A curve is sampled by a
parameter from 0 to 1 (`point`) and mapped as a whole (`transformed`).
-/

namespace LaserCut

/-- A curve of the drawing plane. -/
inductive Curve (α : Type)
  | line (start finish : Point α)
  | quadratic (start control finish : Point α)
  | cubic (start control₁ control₂ finish : Point α)
  | arc (arc : Arc α)
deriving DecidableEq, Repr

namespace Curve

variable {α : Type} [Scalar α]

/-- The arc between two points: nothing if they are the same, a line if a radius is zero. -/
def ofArc? (start finish : Point α) (shape : Arc.Shape α) : Option (Curve α) :=
  if start.same finish then none
  else if Scalar.abs shape.radii.x == 0 || Scalar.abs shape.radii.y == 0 then
    some (.line start finish)
  else some (.arc (Arc.solve start finish shape))

def start : Curve α → Point α
  | .line p _ | .quadratic p _ _ | .cubic p _ _ _ => p
  | .arc a => a.transform.apply a.start

def finish : Curve α → Point α
  | .line _ p | .quadratic _ _ p | .cubic _ _ _ p => p
  | .arc a => a.transform.apply a.finish

/-- A point of a cubic Bézier curve. -/
def cubicPoint (t : α) (p₀ c₀ c₁ p₁ : Point α) : Point α :=
  let mt := 1 - t
  let mt2 := mt * mt
  let mt3 := mt2 * mt
  let t2 := t * t
  let t3 := t2 * t
  p₀ * mt3 + c₀ * (Scalar.three * mt2 * t) + c₁ * (Scalar.three * mt * t2) + p₁ * t3

/-- A point of a quadratic Bézier curve. -/
def quadraticPoint (t : α) (p₀ c p₁ : Point α) : Point α :=
  let mt := 1 - t
  p₀ * (mt * mt) + c * (Scalar.two * mt * t) + p₁ * (t * t)

/-- The point at a parameter; parameters outside the unit interval mean its ends. -/
def point (curve : Curve α) (t : α) : Point α :=
  let t := Scalar.clampUnit t
  match curve with
  | .line p q => p.lerp q t
  | .quadratic p c q => quadraticPoint t p c q
  | .cubic p c d q => cubicPoint t p c d q
  | .arc a => a.point t

/-- The image under an affine map. Control points move; an arc carries the map along. -/
def transformed (t : Transform α) : Curve α → Curve α
  | .line p q => .line (t.apply p) (t.apply q)
  | .quadratic p c q => .quadratic (t.apply p) (t.apply c) (t.apply q)
  | .cubic p c d q => .cubic (t.apply p) (t.apply c) (t.apply d) (t.apply q)
  | .arc a => .arc { a with transform := t.compose a.transform }

end Curve
end LaserCut
