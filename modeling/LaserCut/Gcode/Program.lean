import LaserCut.Geometry.Flatten
import LaserCut.Geometry.Resolution
import LaserCut.Gcode.Controller

/-!
# Programs

From curves to a program.

* `draw`: the moves for curves. The head travels to the start of each with the tool off, unless it
  is there already;
* `Compiler.appendAll`: these moves at the end of the body;
* `passSteps`: how far the head goes down between passes. Depths are rounded as a whole, so that
  the steps do not drift;
* `Compiler.program`: header, the body once for each pass, footer.
-/

namespace LaserCut.Gcode

/-- What the moves of a program depend on. -/
structure Motion (α : Type) where
  travelSpeed : α
  cuttingSpeed : α
  /-- How far one pass goes below the one before; nothing unless it is positive. -/
  passDepth : α
  /-- How far the moves may leave the curves. -/
  tolerance : α
deriving DecidableEq, Repr

/-- A program in the making. -/
structure Compiler (α : Type) where
  dialect : Dialect
  motion : Motion α
  header : List (Instruction α)
  footer : List (Instruction α)
  controller : Controller α
  body : List (Instruction α)

section Passes

variable {α : Type} [Scalar α]

/-- The depth reached after so many passes, in units of the last place. -/
def ticks (depth scale : α) (pass : Nat) : α :=
  Scalar.round (depth * Scalar.ofNat pass * scale)

/-- The steps down between passes: each is the difference of two rounded depths. -/
def passSteps (motion : Motion α) (passes : Nat) : List α :=
  let scale : α := Scalar.tenPow (decimalPlaces motion.tolerance)
  (List.range (passes - 1)).map fun i =>
    (ticks motion.passDepth scale (i + 1) - ticks motion.passDepth scale i) / scale

/-- What is asked for between two passes. -/
def betweenPasses (motion : Motion α) (step : α) : List (Request α) :=
  .toolOff ::
    if 0 < motion.passDepth then [.relative, .move (.height (-step)), .absolute] else []

/-- What is asked for to reach the start of a curve. -/
def approach (motion : Motion α) (start : Point α) : List (Request α) :=
  [.toolOff, .travelAt motion.travelSpeed, .move (.plane start.x start.y),
    .cutAt motion.cuttingSpeed, .toolOn 1]

/-- What is asked for to follow a curve, once its start is reached. -/
def follow (motion : Motion α) (curve : Curve α) : List (Request α) :=
  (curve.flatten motion.tolerance).map fun p => .move (.plane p.x p.y)

/-- The head is at the start of a curve. -/
def isConnected (motion : Motion α) (position : Option (Point α)) (start : Point α) : Bool :=
  position.any fun p => p.near motion.tolerance start

/-- What is asked for to draw a curve with the head at a position. -/
def drawing (motion : Motion α) (position : Option (Point α)) (curve : Curve α) :
    List (Request α) :=
  (if isConnected motion position curve.start then [] else approach motion curve.start) ++
    follow motion curve

/-- The instructions that draw curves in order with a controller, and the controller after them. -/
def draw (motion : Motion α) (controller : Controller α) :
    List (Curve α) → Except (MotionError α) (List (Instruction α) × Controller α)
  | [] => .ok ([], controller)
  | curve :: rest => do
    let (first, controller) ← controller.perform (drawing motion controller.position curve)
    let (others, controller) ← draw motion controller rest
    return (first ++ others, controller)

end Passes

namespace Compiler

variable {α : Type} [Scalar α]

def new (dialect : Dialect) (motion : Motion α) (header footer : List (Instruction α)) :
    Compiler α :=
  ⟨dialect, motion, header, footer, Controller.initial, []⟩

/-- The compiler after the moves for curves. -/
def appendAll (c : Compiler α) (curves : List (Curve α)) : Except (MotionError α) (Compiler α) :=
  (draw c.motion c.controller curves).map fun (instructions, controller) =>
    { c with
      controller
      body := c.body ++ instructions.filter (!c.dialect.isSilent ·) }

/-- The compiler after the moves for a curve. -/
def append (c : Compiler α) (curve : Curve α) : Except (MotionError α) (Compiler α) :=
  c.appendAll [curve]

/-- The body, and again after each step down. -/
def repeatBody (c : Compiler α) (controller : Controller α) :
    List α → Except (MotionError α) (List (Instruction α) × Controller α)
  | [] => .ok (c.body, controller)
  | step :: steps => do
    let (between, controller) ← controller.perform (betweenPasses c.motion step)
    let (rest, controller) ← c.repeatBody controller steps
    return (c.body ++ between ++ rest, controller)

/-- The body once for each pass. -/
def passes (c : Compiler α) (count : Nat) :
    Except (MotionError α) (List (Instruction α) × Controller α) :=
  if c.body.isEmpty || count == 0 then .ok ([], c.controller)
  else c.repeatBody c.controller (passSteps c.motion count)

/-- The program with so many passes, and the compiler after it. -/
def program (c : Compiler α) (count : Nat) :
    Except (MotionError α) (List (Instruction α) × Compiler α) :=
  (c.passes count).map fun (middle, controller) =>
    ((c.header ++ middle ++ c.footer).filter (!c.dialect.isSilent ·), { c with controller })

end Compiler
end LaserCut.Gcode
