/-!
# The exact value of a binary64 number

A finite number other than zero is `± mantissa · 2 ^ exponent` with whole numbers; `parts` takes a
number apart. Printers work on these parts, in exact arithmetic.
-/

namespace LaserCut.Decimal

/-- A binary64 number as a printer sees it. Of zero and infinity only the sign counts. -/
inductive Parts
  | nan
  | infinite (negative : Bool)
  | finite (negative : Bool) (mantissa : Nat) (exponent : Int)
deriving DecidableEq, Repr

def isNegative : Float.Model.UnpackedFloat.Sign → Bool
  | .negative => true
  | .positive => false

/-- The parts of a number; a zero has the mantissa `0`. -/
def parts (x : Float) : Parts :=
  match x.toModel.unpack with
  | .notANumber => .nan
  | .infinity sign => .infinite (isNegative sign)
  | .zero sign => .finite (isNegative sign) 0 0
  | .finite sign mantissa exponent _ => .finite (isNegative sign) mantissa exponent

/-- The value `mantissa · 2 ^ exponent` as a fraction. -/
def fraction (mantissa : Nat) (exponent : Int) : Nat × Nat :=
  (mantissa * Nat.pow 2 exponent.toNat, Nat.pow 2 (-exponent).toNat)

/-- The texts of the numbers that are not finite; only an infinity shows its sign. -/
def special (negative : Bool) : String :=
  if negative then "-inf" else "inf"

def sign (negative : Bool) : String :=
  if negative then "-" else ""

end LaserCut.Decimal
