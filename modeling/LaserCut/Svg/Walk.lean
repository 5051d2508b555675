import LaserCut.Markup.Forest
import LaserCut.PathData.Outline
import LaserCut.Svg.Error
import LaserCut.Svg.Shape
import LaserCut.Svg.TransformList

/-!
# Walking a drawing

Which elements below a root are drawn, in what order, and under which map.

* `visits`: the elements to draw in document order, each with its map, as far as their `transform`
  attributes can be read;
* `elementCurves`: the curves of one element;
* `curvesBelow`: the curves of all of them; the first fault in document order wins.

Elements with `display` none and definitions are passed over with everything below them. Visibility
is inherited, and an element may turn it on again below a hidden one. When a layer is asked for,
nothing is drawn outside it, and other layers met on the way are passed over; within it layers no
longer count.
-/

namespace LaserCut.Svg

/-- How a drawing is turned into curves. -/
structure WalkOptions (α : Type) where
  /-- Flip the y-axis, so that the origin is at the bottom. -/
  flips : Bool
  /-- The height to flip in; the root's own height where it is not given. -/
  canvasHeight : Option α
  /-- Draw elements even if they are not visible. -/
  drawHidden : Bool
  /-- Applied outside every element's own map. -/
  rootTransform : Transform α
  /-- Draw only what is inside the layer with this label. -/
  layer : Option String

def WalkOptions.standard {α : Type} [Scalar α] : WalkOptions α :=
  ⟨true, none, false, Transform.identity, none⟩

/-- What an element passes on to its children. -/
structure Context (α : Type) where
  transform : Transform α
  visible : Bool
  /-- The label of the layer that is still to be found. -/
  sought : Option String

/-- An element to draw under a map, or the text that was to give such a map. -/
inductive Visit (α : Type)
  | draw (e : Element) (transform : Transform α)
  | badTransform (text : String)

def isLayer (e : Element) : Bool :=
  e.attributeIn? (some inkscapeNamespace) "groupmode" == some "layer"

def layerLabel? (e : Element) : Option String :=
  e.attributeIn? (some inkscapeNamespace) "label"

/-- The layer still to be found inside an element; nothing if the element is a layer that is not
the one sought. -/
def enter? (sought : Option String) (e : Element) : Option (Option String) :=
  match sought with
  | some label =>
    if isLayer e then if layerLabel? e = some label then some none else none
    else some (some label)
  | none => some none

/-- Passed over with everything below it. -/
def isSkipped (e : Element) : Bool := hasStyle e "display" "none" || isSvg e "defs"

/-- Visible, given whether the parent is. -/
def isVisible (inherited : Bool) (e : Element) : Bool :=
  (inherited && !(hasStyle e "visibility" "hidden" || hasStyle e "visibility" "collapse")) ||
    hasStyle e "visibility" "visible"

section Visits

variable {α : Type} [Scalar α]

/-- The map of an element, or the text that is no transform list. -/
def elementTransform (outer : Transform α) (e : Element) : Except String (Transform α) :=
  match e.attribute? "transform" with
  | some text =>
    match Transform.ofText? text with
    | some t => .ok (outer.compose t)
    | none => .error text
  | none => .ok outer

mutual

/-- The visits below an element. -/
def visits (drawHidden : Bool) (context : Context α) : Element → List (Visit α)
  | ⟨name, space, attributes, children⟩ =>
    match enter? context.sought ⟨name, space, attributes, children⟩ with
    | some sought => visitsOfList drawHidden { context with sought } children
    | none => []

/-- The visits of siblings and below them. -/
def visitsOfList (drawHidden : Bool) (context : Context α) : List Element → List (Visit α)
  | [] => []
  | e :: rest =>
    (if isSkipped e then []
    else
      match elementTransform context.transform e with
      | .error text => [.badTransform text]
      | .ok transform =>
        let visible := isVisible context.visible e
        (if (drawHidden || visible) && context.sought.isNone then [.draw e transform] else []) ++
          visits drawHidden ⟨transform, visible, context.sought⟩ e) ++
    visitsOfList drawHidden context rest

end

/-- The height that a root declares. -/
def canvasHeight (root : Element) : Except DocumentError α :=
  let height := (root.attribute? "height").getD ""
  match length? height with
  | some h => .ok h
  | none => .error (.unresolvableHeight height)

/-- The height to flip in, if the drawing is to be flipped. -/
def flipHeight (options : WalkOptions α) (root : Element) : Except DocumentError (Option α) :=
  if options.flips then
    match options.canvasHeight with
    | some h => .ok (some h)
    | none => (canvasHeight root).map some
  else .ok none

def WalkOptions.context (options : WalkOptions α) : Context α :=
  ⟨options.rootTransform, true, options.layer⟩

end Visits

/-- The path data that an element draws, if it draws any. -/
def pathData (e : Element) : Except DocumentError (Option String) :=
  if isSvg e "path" then
    match e.attribute? "d" with
    | some d => .ok (some d)
    | none => .error (.missingAttribute e.name "d")
  else .ok (shapeData? e)

section Curves

variable {α : Type} [Scalar α]

/-- The curves of an element under a map, flipped in a canvas if a height is given. -/
def elementCurves (e : Element) (transform : Transform α) (flip : Option α) :
    Except DocumentError (List (Curve α)) := do
  match ← pathData e with
  | some d => (PathData.outline d transform flip).mapError .path
  | none => .ok []

/-- The curves of a visit. -/
def Visit.curves (flip : Option α) : Visit α → Except DocumentError (List (Curve α))
  | .draw e transform => elementCurves e transform flip
  | .badTransform text => .error (.invalidTransform text)

/-- The curves below a root, in document order. -/
def curvesBelow (options : WalkOptions α) (root : Element) :
    Except DocumentError (List (Curve α)) := do
  let flip ← flipHeight options root
  let curves ← (visits options.drawHidden options.context root).mapM (Visit.curves flip)
  return curves.flatten

end Curves

/-- The root of a document. -/
def readRoot (document : String) : Except DocumentError Element :=
  match Markup.Element.read document with
  | .error e => .error (.markup e)
  | .ok none => .error .empty
  | .ok (some root) => .ok root

end LaserCut.Svg
