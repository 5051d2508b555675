import LaserCut.Scalar

/-!
# Binary64 as scalars

The `Scalar` operations of `Float` that core does not have:

* `hypotenuse`: without overflow or underflow on the way, and closer than the root of a rounded sum;
* `powerOfTen`: by repeated squaring, with the exponent in 32 bits;
* `ofLiteral`: correctly rounded.
-/

namespace LaserCut.Binary64

def nan : Float := 0.0 / 0.0

def infinity : Float := 1.0 / 0.0

/-- `2 ^ n`. -/
def powerOfTwo (n : Nat) : Float := Float.ofScientific (Nat.pow 2 n) false 0

/-- The square root of `a * a + b * b` for `0 ≤ b ≤ a`, where no square leaves the range. The root
of the rounded sum is corrected once by its own residue. -/
def correctedRoot (a b : Float) : Float :=
  let h := (a * a + b * b).sqrt
  let residue :=
    if h ≤ 2.0 * b then
      let delta := h - b
      a * (2.0 * delta - a) + (delta - 2.0 * (a - b)) * delta
    else
      let delta := h - a
      2.0 * delta * (a - 2.0 * b) + ((4.0 * delta - b) * b + delta * delta)
  h - residue / (2.0 * h)

/-- The square root of the sum of two squares. A number too small to count beside the other is left
out, and the numbers are scaled by a power of two first where a square would leave the range. -/
def hypotenuse (x y : Float) : Float :=
  let x := x.abs
  let y := y.abs
  if x == infinity || y == infinity then infinity
  else
    let a := if x < y then y else x
    let b := if x < y then x else y
    if b * powerOfTwo 54 ≤ a then a + b
    else if powerOfTwo 511 < a then
      correctedRoot (a / powerOfTwo 600) (b / powerOfTwo 600) * powerOfTwo 600
    else if b * powerOfTwo 459 < 1.0 then
      correctedRoot (a * powerOfTwo 600) (b * powerOfTwo 600) / powerOfTwo 600
    else correctedRoot a b

/-- `acc * base ^ n`, the low bits of `n` first. -/
def powerBySquaring (acc base : Float) (n : Nat) : Float :=
  let acc := if n % 2 = 1 then acc * base else acc
  if n < 2 then acc else powerBySquaring acc (base * base) (n / 2)
termination_by n
decreasing_by omega

/-- Ten to the power of `n`, taken as a signed number of 32 bits. -/
def powerOfTen (n : Nat) : Float :=
  let e := (n : Int).bmod (Nat.pow 2 32)
  let p := powerBySquaring 1.0 10.0 e.natAbs
  if e < 0 then 1.0 / p else p

/-- The nearest binary64 number to a literal, of two equally near ones the even one. -/
def ofLiteral : Literal → Float
  | .nan => nan
  | .infinite negative => if negative then -infinity else infinity
  | .decimal negative mantissa exponent =>
    let x := Float.ofScientific mantissa (exponent < 0) exponent.natAbs
    if negative then -x else x

instance instZero : Zero Float := ⟨0.0⟩

instance instOne : One Float := ⟨1.0⟩

instance instScalar : Scalar Float where
  decidableLE := inferInstance
  decidableLT := inferInstance
  isFinite := Float.isFinite
  sqrt := Float.sqrt
  hypot := hypotenuse
  sin := Float.sin
  cos := Float.cos
  tan := Float.tan
  atan2 := Float.atan2
  log10 := Float.log10
  round := Float.round
  pi := 3.141592653589793
  degree := 0.017453292519943295
  tenPow := powerOfTen
  toNat x := x.toUInt64.toNat
  ofLiteral := ofLiteral

end LaserCut.Binary64
