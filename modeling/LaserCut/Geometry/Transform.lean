import LaserCut.Geometry.Point

/-!
# Affine maps of the plane

A map is the matrix `⟨a, b, c, d, e, f⟩`, which sends `(x, y)` to `(a x + c y + e, b x + d y + f)`.
`s.compose t` applies `t` first. The maps that drawings are built from (`shift`, `rotation`,
`skewX` …) are matrices on their own; a list of them composes from left to right, so that the last
one acts on a point first.
-/

namespace LaserCut

/-- An affine map of the plane. -/
structure Transform (α : Type) where
  a : α
  b : α
  c : α
  d : α
  e : α
  f : α
deriving DecidableEq, Repr

namespace Transform

variable {α : Type} [Scalar α]

def identity : Transform α := ⟨1, 0, 0, 1, 0, 0⟩

/-- The product of two maps, which applies `t` first. -/
def compose (s t : Transform α) : Transform α where
  a := s.a * t.a + s.c * t.b
  b := s.b * t.a + s.d * t.b
  c := s.a * t.c + s.c * t.d
  d := s.b * t.c + s.d * t.d
  e := s.a * t.e + s.c * t.f + s.e
  f := s.b * t.e + s.d * t.f + s.f

/-- The product of maps in order, the last one acting first. -/
def composeAll (s : Transform α) (ts : List (Transform α)) : Transform α := ts.foldl compose s

def apply (t : Transform α) (p : Point α) : Point α :=
  ⟨t.a * p.x + t.c * p.y + t.e, t.b * p.x + t.d * p.y + t.f⟩

/-- All six entries compare equal. -/
def same (s t : Transform α) : Bool :=
  s.a == t.a && s.b == t.b && s.c == t.c && s.d == t.d && s.e == t.e && s.f == t.f

def isIdentity (t : Transform α) : Bool := t.same identity

def shift (x y : α) : Transform α := ⟨1, 0, 0, 1, x, y⟩

def scaling (x y : α) : Transform α := ⟨x, 0, 0, y, 0, 0⟩

/-- The rotation by an angle in degrees that takes the x-axis towards the y-axis. -/
def rotation (degrees : α) : Transform α :=
  let sin := Scalar.sin (Scalar.radians degrees)
  let cos := Scalar.cos (Scalar.radians degrees)
  ⟨cos, sin, -sin, cos, 0, 0⟩

/-- The factors of a rotation about a centre: there, turn, and back. -/
def rotationAbout (degrees x y : α) : List (Transform α) :=
  [shift x y, rotation degrees, shift (-x) (-y)]

def skewX (degrees : α) : Transform α := ⟨1, 0, Scalar.tan (Scalar.radians degrees), 1, 0, 0⟩

def skewY (degrees : α) : Transform α := ⟨1, Scalar.tan (Scalar.radians degrees), 0, 1, 0, 0⟩

/-- The reflection in a canvas of the given height: `y` becomes `height - y`. -/
def verticalFlip (height : α) : Transform α := ⟨1, 0, 0, -1, 0, height⟩

end Transform
end LaserCut
