import LaserCut.Geometry.Curve

/-!
# Flattening

A curve as a run of straight segments. The parameter interval is halved until the middle of a span
lies near the middle of its chord.

* every span is halved at least twice, so that an S-shaped curve whose middle happens to lie on
  its chord is not taken for a line;
* no span is halved more than sixteen times.
-/

namespace LaserCut.Curve

variable {α : Type} [Scalar α]

/-- How often a span may be halved. -/
def maxHalvings : Nat := 16

/-- How often each span is halved whatever its shape. -/
def minHalvings : Nat := 2

/-- The middle of the span from `t₀` to `t₁` on the curve lies near the middle of its chord. -/
def isFlat (curve : Curve α) (tolerance t₀ t₁ : α) (p₀ p₁ : Point α) : Bool :=
  (curve.point ((t₀ + t₁) / Scalar.two)).near tolerance (p₀.midpoint p₁)

/-- The points after `p₀` on the span from `t₀` to `t₁`, which may be halved `left` more times. -/
def subdivide (curve : Curve α) (tolerance : α) :
    (left : Nat) → (t₀ t₁ : α) → (p₀ p₁ : Point α) → List (Point α)
  | 0, _, _, _, p₁ => [p₁]
  | left + 1, t₀, t₁, p₀, p₁ =>
    if left + 1 ≤ maxHalvings - minHalvings && curve.isFlat tolerance t₀ t₁ p₀ p₁ then [p₁]
    else
      let tm := (t₀ + t₁) / Scalar.two
      let pm := curve.point tm
      curve.subdivide tolerance left t₀ tm p₀ pm ++ curve.subdivide tolerance left tm t₁ pm p₁

/-- The points to visit after the start; the last is the finish. A line needs no other point. -/
def flatten (curve : Curve α) (tolerance : α) : List (Point α) :=
  match curve with
  | .line _ q => [q]
  | curve => curve.subdivide tolerance maxHalvings 0 1 curve.start curve.finish

end LaserCut.Curve
