import LaserCut.Markup.Error
import LaserCut.PathData.Reader

/-!
# Document errors

Why a drawing is refused.
-/

namespace LaserCut.Svg

open Markup (MarkupError)
open PathData (PathError)

/-- Why a drawing is refused. -/
inductive DocumentError
  | markup (e : MarkupError)
  | empty
  | unresolvableHeight (height : String)
  | missingDimensions
  | missingAttribute (element name : String)
  | invalidTransform (text : String)
  | path (e : PathError)
deriving DecidableEq, Repr

def DocumentError.message : DocumentError → String
  | .markup e => "XML parsing error: " ++ e.message
  | .empty => "SVG document has no root element"
  | .unresolvableHeight height => "Cannot resolve canvas height from '" ++ height ++ "'"
  | .missingDimensions => "Document size not found in SVG"
  | .missingAttribute element name =>
    "<" ++ element ++ "> element is missing the '" ++ name ++ "' attribute"
  | .invalidTransform text => "Invalid transform '" ++ text ++ "'"
  | .path e => e.message

end LaserCut.Svg
