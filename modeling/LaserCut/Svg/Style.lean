import LaserCut.Markup.Element
import LaserCut.Text.Fields

/-!
# Style

Which elements of a document are SVG, and what their presentation properties are. A property is
given by a declaration in the `style` attribute or by an attribute of its own; the last declaration
wins over those before it, and any declaration over the attribute.
-/

namespace LaserCut.Svg

def svgNamespace : String := "http://www.w3.org/2000/svg"

def inkscapeNamespace : String := "http://www.inkscape.org/namespaces/inkscape"

/-- An SVG element of the given name. One without a namespace counts as SVG. -/
def isSvg (e : Element) (name : String) : Bool :=
  e.name == name && (e.space.isNone || e.space == some svgNamespace)

/-- The declarations of a `style` attribute, as trimmed property and value. A piece without a colon
declares nothing. -/
def declarations (style : String) : List (String × String) :=
  (Text.split (· == ';') style.toList).filterMap fun piece =>
    (Text.cutAt ':' piece).map fun (key, value) =>
      (String.ofList (Text.trim key), String.ofList (Text.trim value))

/-- The value of the last declaration of a property. -/
def declared? (style property : String) : Option String :=
  ((declarations style).reverse.find? (·.1 == property)).map (·.2)

/-- An attribute's value without the blanks around it. -/
def trimmedAttribute? (e : Element) (name : String) : Option String :=
  (e.attribute? name).map Text.trimmed

/-- The value of a presentation property. -/
def styleProperty? (e : Element) (property : String) : Option String :=
  ((e.attribute? "style").bind (declared? · property)).or (trimmedAttribute? e property)

/-- The property has the value by its own attribute or by its declaration. -/
def hasStyle (e : Element) (property value : String) : Bool :=
  trimmedAttribute? e property == some value || styleProperty? e property == some value

end LaserCut.Svg
