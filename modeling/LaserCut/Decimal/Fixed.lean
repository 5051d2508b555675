import LaserCut.Decimal.Binary

/-!
# Fixed-point text

The exact value of a number, rounded to a given number of places; a tie goes to the even digit.

* `roundHalfEven`: the nearest whole number to a fraction;
* `placed`: digits with a point before the last so many;
* `fixed`: the text. A number that rounds to zero keeps its sign.
-/

namespace LaserCut.Decimal

/-- The whole number nearest to `num / den`; of two equally near ones the even one. -/
def roundHalfEven (num den : Nat) : Nat :=
  let q := num / den
  let r := num % den
  if 2 * r < den then q
  else if den < 2 * r then q + 1
  else if q % 2 = 0 then q else q + 1

/-- The digits of a number, at least `width` of them. -/
def padded (width n : Nat) : List Char :=
  let ds := Nat.toDigits 10 n
  List.replicate (width - ds.length) '0' ++ ds

/-- The numeral of `n / 10 ^ places`. -/
def placed (places n : Nat) : String :=
  if places = 0 then String.ofList (padded 1 n)
  else
    let ds := padded (places + 1) n
    let whole := ds.length - places
    String.ofList (ds.take whole) ++ "." ++ String.ofList (ds.drop whole)

/-- A number with so many digits after the point. -/
def fixed (places : Nat) (x : Float) : String :=
  match parts x with
  | .nan => "NaN"
  | .infinite negative => special negative
  | .finite negative mantissa exponent =>
    let (num, den) := fraction mantissa exponent
    sign negative ++ placed places (roundHalfEven (num * Nat.pow 10 places) den)

end LaserCut.Decimal
