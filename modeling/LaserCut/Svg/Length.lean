import LaserCut.Scalar
import LaserCut.Text.Fields

/-!
# Lengths

A length such as `12`, `12.5px` or `3mm`. The unit is dropped, not converted.
-/

namespace LaserCut.Svg

/-- The units that a length may carry. -/
def lengthUnits : List (Char × Char) :=
  [('p', 'x'), ('p', 't'), ('m', 'm'), ('c', 'm'), ('i', 'n'), ('p', 'c')]

/-- A text without the unit that it ends in. -/
def dropUnit (cs : List Char) : List Char :=
  match cs.reverse with
  | b :: a :: rest => if (a, b) ∈ lengthUnits then rest.reverse else cs
  | _ => cs

/-- The number of a length, if it is finite. -/
def length? {α : Type} [Scalar α] (s : String) : Option α := do
  let literal ← Literal.ofChars? (Text.trim (dropUnit (Text.trim s.toList)))
  let value := Scalar.ofLiteral literal
  guard (Scalar.isFinite value)
  return value

end LaserCut.Svg
