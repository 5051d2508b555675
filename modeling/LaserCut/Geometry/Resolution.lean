import LaserCut.Scalar

/-!
# Resolution

The number of decimal places that a tolerance asks for: a tolerance of a hundredth is written with
two places.
-/

namespace LaserCut

/-- The decimal places that go with a tolerance. -/
def decimalPlaces {α : Type} [Scalar α] (tolerance : α) : Nat :=
  Scalar.toNat (Scalar.abs (Scalar.round (Scalar.log10 tolerance)))

end LaserCut
