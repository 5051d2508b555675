import LaserCut.Binary64
import LaserCut.Decimal.Shortest
import LaserCut.PathData.Command
import LaserCut.Svg.Length
import LaserCut.Svg.Style

/-!
# Basic shapes

Circles, ellipses, rectangles, lines, polylines and polygons as path commands, so that they are
drawn like any path.

* `shape?`: the commands of a basic shape. A shape without an extent has none, and neither has a
  list of points that is too short, odd or no list of numbers;
* `shapeData?`: the commands as path data.
-/

namespace LaserCut.Svg

open PathData (Command Segment)

/-- The basic shapes. -/
inductive ShapeKind
  | circle
  | ellipse
  | rect
  | line
  | polyline
  | polygon
deriving DecidableEq, Repr

def ShapeKind.tag : ShapeKind → String
  | circle => "circle"
  | ellipse => "ellipse"
  | rect => "rect"
  | line => "line"
  | polyline => "polyline"
  | polygon => "polygon"

def ShapeKind.all : List ShapeKind := [circle, ellipse, rect, line, polyline, polygon]

/-- The kind of a basic shape. -/
def shapeKind? (e : Element) : Option ShapeKind := ShapeKind.all.find? fun kind => isSvg e kind.tag

section Outlines

variable {α : Type} [Scalar α]

/-- A length attribute, or zero where it is missing or not a length. -/
def lengthOf (e : Element) (name : String) : α :=
  ((e.attribute? name).bind length?).getD 0

def moveTo (x y : α) : Command α := ⟨false, .moveTo ⟨x, y⟩⟩

def lineTo (x y : α) : Command α := ⟨false, .lineTo ⟨x, y⟩⟩

def close : Command α := ⟨false, .close⟩

/-- An arc without rotation in the direction of positive angles. -/
def arcTo (rx ry : α) (large : Bool) (x y : α) : Command α :=
  ⟨false, .arc ⟨rx, ry⟩ 0 large true ⟨x, y⟩⟩

/-- Two half turns, from the leftmost point to the rightmost and back. -/
def ellipseOutline? (cx cy rx ry : α) : Option (List (Command α)) :=
  if rx ≤ 0 ∨ ry ≤ 0 then none
  else
    some [moveTo (cx - rx) cy, arcTo rx ry true (cx + rx) cy, arcTo rx ry true (cx - rx) cy, close]

/-- The radii of a rectangle's corners, if it has round ones: the one that is not given, or not
positive, is the same as the other, and neither exceeds half a side. -/
def cornerRadii? (rx ry width height : α) : Option (α × α) :=
  let clamped (r side : α) : α := if side / Scalar.two < r then side / Scalar.two else r
  match decide (0 < rx), decide (0 < ry) with
  | false, false => none
  | true, false => some (clamped rx width, clamped rx height)
  | false, true => some (clamped ry width, clamped ry height)
  | true, true => some (clamped rx width, clamped ry height)

def sharpRect (x y width height : α) : List (Command α) :=
  [moveTo x y, lineTo (x + width) y, lineTo (x + width) (y + height), lineTo x (y + height), close]

def roundRect (x y width height rx ry : α) : List (Command α) :=
  [moveTo (x + rx) y,
    lineTo (x + width - rx) y, arcTo rx ry false (x + width) (y + ry),
    lineTo (x + width) (y + height - ry), arcTo rx ry false (x + width - rx) (y + height),
    lineTo (x + rx) (y + height), arcTo rx ry false x (y + height - ry),
    lineTo x (y + ry), arcTo rx ry false (x + rx) y, close]

def rectOutline? (e : Element) : Option (List (Command α)) :=
  let x := lengthOf e "x"
  let y := lengthOf e "y"
  let width := lengthOf e "width"
  let height := lengthOf e "height"
  if width ≤ 0 ∨ height ≤ 0 then none
  else
    match cornerRadii? (lengthOf e "rx") (lengthOf e "ry") width height with
    | none => some (sharpRect x y width height)
    | some (rx, ry) => some (roundRect x y width height rx ry)

/-- Numbers in pairs, if their number is even. -/
def pairs? {ν : Type} : List ν → Option (List (Point ν))
  | [] => some []
  | [_] => none
  | x :: y :: rest => (pairs? rest).map (⟨x, y⟩ :: ·)

/-- The points of a `points` attribute. -/
def points? (s : String) : Option (List (Point α)) := do
  let numbers ← (Text.fields Text.isListSeparator s.toList).mapM Literal.ofChars?
  pairs? (numbers.map Scalar.ofLiteral)

/-- A run of lines through two points or more. -/
def polyOutline? (points : List (Point α)) (closed : Bool) : Option (List (Command α)) :=
  match points with
  | p :: q :: rest =>
    some (moveTo p.x p.y :: (q :: rest).map (fun r => lineTo r.x r.y) ++
      if closed then [close] else [])
  | _ => none

/-- The path commands of a basic shape. -/
def shape? (e : Element) : Option (List (Command α)) := do
  match ← shapeKind? e with
  | .circle =>
    let r := lengthOf e "r"
    ellipseOutline? (lengthOf e "cx") (lengthOf e "cy") r r
  | .ellipse =>
    ellipseOutline? (lengthOf e "cx") (lengthOf e "cy") (lengthOf e "rx") (lengthOf e "ry")
  | .rect => rectOutline? e
  | .line =>
    some [moveTo (lengthOf e "x1") (lengthOf e "y1"), lineTo (lengthOf e "x2") (lengthOf e "y2")]
  | .polyline => polyOutline? (← (e.attribute? "points").bind points?) false
  | .polygon => polyOutline? (← (e.attribute? "points").bind points?) true

end Outlines

/-- A number of path data: the shortest text, with a zero that has no sign. -/
def numeral (x : Float) : String := if x == 0 then "0" else Decimal.shortest x

/-- The path data of a basic shape. -/
def shapeData? (e : Element) : Option String :=
  (shape? e : Option (List (Command Float))).map (PathData.text numeral)

end LaserCut.Svg
