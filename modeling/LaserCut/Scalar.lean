import LaserCut.Decimal.Literal

/-!
# Scalars

The numbers that coordinates, speeds and angles are made of. Everything below is written once over
a `Scalar`: it runs on binary64 numbers, and the same definitions can be read over any other number
system that has these operations, such as the real numbers.

No law is part of the class: binary64 arithmetic has few.
-/

namespace LaserCut

/-- Numbers with the arithmetic, comparisons and functions that drawing needs. -/
class Scalar (α : Type) extends
    Zero α, One α, Add α, Sub α, Mul α, Div α, Neg α, BEq α, LE α, LT α where
  decidableLE : DecidableLE α
  decidableLT : DecidableLT α
  isFinite : α → Bool
  sqrt : α → α
  /-- The length of the vector with the given coordinates. -/
  hypot : α → α → α
  sin : α → α
  cos : α → α
  tan : α → α
  /-- The angle of the vector with the given ordinate and abscissa, in this order. -/
  atan2 : α → α → α
  log10 : α → α
  /-- The nearest integer, a half going away from zero. -/
  round : α → α
  /-- Half a turn in radians. -/
  pi : α
  /-- One degree in radians. -/
  degree : α
  /-- The power of ten with the given exponent. -/
  tenPow : Nat → α
  /-- The integer part of a number that is not negative, and zero for any other. -/
  toNat : α → Nat
  /-- The number that a literal stands for. -/
  ofLiteral : Literal → α

namespace Scalar

variable {α : Type} [Scalar α]

instance instDecidableLE : DecidableLE α := Scalar.decidableLE

instance instDecidableLT : DecidableLT α := Scalar.decidableLT

def two : α := 1 + 1

def three : α := 1 + 1 + 1

def ofNat (n : Nat) : α := ofLiteral (.ofNat n)

def abs (x : α) : α := if x < 0 then -x else x

/-- Degrees in radians. -/
def radians (x : α) : α := x * degree

/-- A parameter brought into the unit interval. -/
def clampUnit (t : α) : α := if t < 0 then 0 else if 1 < t then 1 else t

/-- A number, or zero if it is not greater than that. -/
def clampNonneg (x : α) : α := if 0 < x then x else 0

end Scalar
end LaserCut
