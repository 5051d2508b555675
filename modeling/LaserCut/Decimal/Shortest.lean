import LaserCut.Decimal.Binary

/-!
# Shortest text

The fewest decimal digits that read back as the same number, and of those the nearest to it.

* `Neighbourhood`: the numbers that round to a given one;
* `digitsOn`: the points of a decimal grid in it;
* `shortestDigits`: the first grid, from coarse to fine, that has one;
* `positional`: digits and a power of ten without an exponent;
* `shortest`: the text, with no point in a whole number.
-/

namespace LaserCut.Decimal

/-- The numbers that read as a given one, all in units of `1 / scale`: from `low` to `high`, ends
included if `closed`. -/
structure Neighbourhood where
  value : Nat
  low : Nat
  high : Nat
  scale : Nat
  closed : Bool

/-- The least exponent of a binary64 number. -/
def leastExponent : Int := -1074

/-- The neighbourhood of `mantissa · 2 ^ exponent`: half way to the next number on either side. The
next number below a power of two is nearer. -/
def Neighbourhood.of (mantissa : Nat) (exponent : Int) : Neighbourhood :=
  let below := if mantissa = Nat.pow 2 52 ∧ leastExponent < exponent then 1 else 2
  let up := Nat.pow 2 (exponent - 2).toNat
  { value := 4 * mantissa * up
    low := (4 * mantissa - below) * up
    high := (4 * mantissa + 2) * up
    scale := Nat.pow 2 (2 - exponent).toNat
    closed := mantissa % 2 = 0 }

/-- Whether `n / unit` lies in the neighbourhood. -/
def Neighbourhood.has (b : Neighbourhood) (n unit : Nat) : Bool :=
  if b.closed then b.low * unit ≤ n * b.scale && n * b.scale ≤ b.high * unit
  else b.low * unit < n * b.scale && n * b.scale < b.high * unit

/-- The point of the grid of multiples of `10 ^ power` that is in the neighbourhood and nearest to
the value, in units of that grid. Of two equally near points the greater counts. -/
def digitsOn (b : Neighbourhood) (power : Int) : Option Nat :=
  let step := Nat.pow 10 power.toNat
  let unit := Nat.pow 10 (-power).toNat
  let below := b.value * unit / (b.scale * step)
  let rest := b.value * unit % (b.scale * step)
  match b.has (below * step) unit, b.has ((below + 1) * step) unit with
  | true, true => some (if 2 * rest < b.scale * step then below else below + 1)
  | true, false => some below
  | false, true => some (below + 1)
  | false, false => none

/-- The greatest power of ten that does not exceed `num / den`, searched downwards from `10 ^ e`
for `fuel` steps. -/
def leadingPower (num den : Nat) : Nat → Int → Int
  | 0, e => e
  | fuel + 1, e =>
    if Nat.pow 10 e.toNat * den ≤ num * Nat.pow 10 (-e).toNat then e
    else leadingPower num den fuel (e - 1)

/-- The first hit on the grids from `10 ^ power` downwards. -/
def firstHit (b : Neighbourhood) : Nat → Int → Nat × Int
  | 0, power => (b.value * Nat.pow 10 (-power).toNat / (b.scale * Nat.pow 10 power.toNat), power)
  | fuel + 1, power =>
    match digitsOn b power with
    | some n => (n, power)
    | none => firstHit b fuel (power - 1)

/-- An upper bound of the power of ten of a number, from its binary size. -/
def powerBound (mantissa : Nat) (exponent : Int) : Int :=
  ((mantissa.log2 : Int) + exponent + 1) * 30103 / 100000 + 1

/-- Digits `n` and a power of ten `e` with `n · 10 ^ e` the shortest decimal that reads as
`mantissa · 2 ^ exponent`. Seventeen digits always are enough. The search starts one grid above the
leading digit, since the value may round up to a power of ten. -/
def shortestDigits (mantissa : Nat) (exponent : Int) : Nat × Int :=
  let b := Neighbourhood.of mantissa exponent
  firstHit b 19 (leadingPower b.value b.scale 8 (powerBound mantissa exponent) + 1)

/-- The numeral of `n · 10 ^ e`, never with an exponent. -/
def positional (n : Nat) (e : Int) : String :=
  let ds := Nat.toDigits 10 n
  if 0 ≤ e then String.ofList (ds ++ List.replicate e.toNat '0')
  else
    let places := (-e).toNat
    let ds := List.replicate (places + 1 - ds.length) '0' ++ ds
    let whole := ds.length - places
    String.ofList (ds.take whole) ++ "." ++ String.ofList (ds.drop whole)

/-- A number in the fewest digits that read back as it. -/
def shortest (x : Float) : String :=
  match parts x with
  | .nan => "NaN"
  | .infinite negative => special negative
  | .finite negative mantissa exponent =>
    if mantissa = 0 then sign negative ++ "0"
    else
      let (n, e) := shortestDigits mantissa exponent
      sign negative ++ positional n e

end LaserCut.Decimal
