import LaserCut.Gcode.Lines
import LaserCut.Settings.Basic

/-!
# Header and footer

What stands in a program before and after the moves of the drawing, and the program as a whole.

* `frame`, `frameLines`: header and footer, as instructions and as lines;
* `program`: the instructions for curves.
-/

namespace LaserCut.Conversion

open Gcode

variable {α : Type} [Scalar α]

/-- How the program is written. -/
def dialect (s : Settings α) : Dialect :=
  ⟨decimalPlaces s.approximationTolerance, some ⟨s.toolOffCommand, s.toolPowerCommand⟩⟩

/-- What the moves depend on. -/
def motion (s : Settings α) : Motion α :=
  ⟨s.travelSpeed, s.cuttingSpeed, s.passDepth, s.approximationTolerance⟩

/-- What is asked for before the drawing, after the user's own lines. -/
def headerRequests (s : Settings α) : List (Request α) :=
  [.absolute, .unit s.unit] ++
    (if s.zeroMachine then [.setOrigin] else []) ++
    (if s.doLaserOffStart then [.toolOff] else []) ++
    [.travelAt s.travelSpeed] ++
    (if s.doZAxisStart then [.move (.height s.zAxisStart)] else []) ++
    (if 0 < s.dwellTime then [.dwell s.dwellTime] else [])

/-- What is asked for after the drawing, before the user's own lines. -/
def footerRequests (s : Settings α) : List (Request α) :=
  (if s.doLaserOffEnd then [.toolOff] else []) ++
    (if s.moveToOriginEnd then [.travelAt s.travelSpeed, .move (.plane 0 0)] else [])

/-- The header and the footer. -/
def frame (s : Settings α) :
    Except (MotionError α) (List (Instruction α) × List (Instruction α)) := do
  let (header, c) ← Controller.initial.perform (headerRequests s)
  let (footer, _) ← c.perform (footerRequests s)
  let kept := List.filter (!(dialect s).isSilent ·)
  return (kept (s.header.map .verbatim ++ header), kept (footer ++ s.footer.map .verbatim))

/-- The lines of the header and the footer. -/
def frameLines (s : Settings Float) : Except LineError (List String × List String) := do
  let (header, footer) ← (frame s).mapError .motion
  return (← (dialect s).lines header, ← (dialect s).lines footer)

/-- The program for curves in the machine's plane. -/
def program (s : Settings α) (curves : List (Curve α)) :
    Except (MotionError α) (List (Instruction α)) := do
  let (header, footer) ← frame s
  let compiler ← (Compiler.new (dialect s) (motion s) header footer).appendAll curves
  let (program, _) ← compiler.program s.passes
  return program

end LaserCut.Conversion
