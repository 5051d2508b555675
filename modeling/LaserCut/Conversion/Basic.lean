import LaserCut.Conversion.Frame
import LaserCut.Conversion.Placement
import LaserCut.Files.Tree
import LaserCut.Svg.Walk

/-!
# Conversion

From a drawing and settings to the lines of a program.

* `ConversionError`: why there is no program;
* `convertRoot`, `convert`: the program for a drawing, as instructions and as lines;
* `convertFile`: the same from file to file. Nothing is written unless all of it succeeds.
-/

namespace LaserCut.Conversion

open Gcode (Instruction MotionError)
open Svg (DocumentError)

/-- Why a drawing has no program. -/
inductive ConversionError
  | document (e : DocumentError)
  | motion (e : MotionError Float)
  | settings (e : SettingsError)
  | file (reason : String)

def ConversionError.message : ConversionError → String
  | .document e => "SVG error: " ++ e.message
  | .motion e => "G-code error: " ++ e.message
  | .settings e => "Configuration error: " ++ e.message
  | .file reason => "I/O error: " ++ reason

section Placing

variable {α : Type} [Scalar α]

/-- How the drawing is walked. The height to flip in is that of the bed. -/
def walkOptions (s : Settings α) (bed : Point α) : Svg.WalkOptions α where
  flips := !s.invertYAxis
  canvasHeight := some bed.y
  drawHidden := false
  rootTransform := placement s bed
  layer := s.layer?

/-- The curves of a drawing in the machine's plane. -/
def placedCurves (root : Element) (s : Settings α) :
    Except DocumentError (List (Curve α)) := do
  Svg.curvesBelow (walkOptions s (← bedSize root s)) root

end Placing

/-- The program for the drawing below a root. -/
def convertRoot (root : Element) (s : Settings Float) :
    Except ConversionError (List (Instruction Float)) := do
  let s ← s.validated.mapError .settings
  let curves ← (placedCurves root s).mapError .document
  (program s curves).mapError .motion

/-- The lines of the program for a drawing. -/
def convert (svg : String) (s : Settings Float) : Except ConversionError (List String) := do
  let root ← (Svg.readRoot svg).mapError .document
  return (← convertRoot root s).map (dialect s).line

/-- The text of a file with the given lines; there is a line break after each, and one in a file
without lines. -/
def fileText (lines : List String) : String := "\n".intercalate lines ++ "\n"

/-- Converts the drawing in one file to a program in another. -/
def convertFile {m : Type → Type} [Monad m] (files : Files.Access m) (input output : String)
    (s : Settings Float) : m (Except ConversionError Unit) := do
  match ← files.read input with
  | .error reason => return .error (.file reason)
  | .ok svg =>
    match convert svg s with
    | .error e => return .error e
    | .ok lines =>
      return (← files.write output (fileText lines)).mapError .file

end LaserCut.Conversion
