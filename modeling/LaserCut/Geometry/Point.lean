import LaserCut.Scalar

/-!
# Points

Points of the drawing plane, which also serve as vectors and as pairs of radii.
-/

namespace LaserCut

/-- A point of the plane. -/
structure Point (α : Type) where
  x : α
  y : α
deriving DecidableEq, Repr

namespace Point

def map {α β : Type} (f : α → β) (p : Point α) : Point β := ⟨f p.x, f p.y⟩

variable {α : Type} [Scalar α]

def origin : Point α := ⟨0, 0⟩

instance : Add (Point α) := ⟨fun p q => ⟨p.x + q.x, p.y + q.y⟩⟩

instance : Sub (Point α) := ⟨fun p q => ⟨p.x - q.x, p.y - q.y⟩⟩

instance : HMul (Point α) α (Point α) := ⟨fun p k => ⟨p.x * k, p.y * k⟩⟩

/-- Both coordinates compare equal; so no point with a coordinate that is not a number is the same
as itself. -/
def same (p q : Point α) : Bool := p.x == q.x && p.y == q.y

def distance (p q : Point α) : α := Scalar.hypot (p.x - q.x) (p.y - q.y)

def midpoint (p q : Point α) : Point α := ⟨(p.x + q.x) / Scalar.two, (p.y + q.y) / Scalar.two⟩

/-- The point at `t` on the way from `p` (at 0) to `q` (at 1). -/
def lerp (p q : Point α) (t : α) : Point α := ⟨p.x + (q.x - p.x) * t, p.y + (q.y - p.y) * t⟩

/-- The distance is at most `tolerance`. -/
def near (tolerance : α) (p q : Point α) : Bool := decide (p.distance q ≤ tolerance)

end Point
end LaserCut
