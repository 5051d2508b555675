import LaserCut.Binary64
import LaserCut.Gcode.Program

/-!
# Writing lines

A coordinate is written with the places of the dialect, and text has a bound on them: a move with
more places than that cannot be written, whatever its numbers are.

* `LineError`: why lines are refused, for the motion or for the places of a coordinate;
* `Dialect.lines`: the lines of instructions, if all of them can be written;
* `Compiler.appendLines`: the lines that curves add to a program in the making;
* `Compiler.programLines`: the lines of its program.
-/

namespace LaserCut.Gcode

/-- The most places that a number can be written with. -/
def maxPlaces : Nat := 65535

/-- Why lines are refused. -/
inductive LineError
  | motion (e : MotionError Float)
  /-- A coordinate would have more places than can be written. -/
  | places
deriving Repr

namespace Dialect

/-- An instruction can be written: it has no coordinates, or they have few enough places. -/
def canWrite (d : Dialect) : Instruction Float → Bool
  | .rapid words => words.isEmpty || d.places ≤ maxPlaces
  | .cut _ words => words.isEmpty || d.places ≤ maxPlaces
  | _ => true

/-- The lines of instructions. -/
def lines (d : Dialect) (instructions : List (Instruction Float)) :
    Except LineError (List String) :=
  if instructions.all d.canWrite then .ok (instructions.map d.line) else .error .places

end Dialect

namespace Compiler

/-- A compiler without a body, between lines of the user's own. -/
def between (dialect : Dialect) (motion : Motion Float) (header footer : List String) :
    Compiler Float :=
  new dialect motion (header.map .verbatim) (footer.map .verbatim)

/-- The lines that curves add to the body, and the compiler after them. -/
def appendLines (c : Compiler Float) (curves : List (Curve Float)) :
    Except LineError (List String × Compiler Float) := do
  let d ← (c.appendAll curves).mapError .motion
  return (← c.dialect.lines (d.body.drop c.body.length), d)

/-- The lines of the program with so many passes, and the compiler after it. -/
def programLines (c : Compiler Float) (count : Nat) :
    Except LineError (List String × Compiler Float) := do
  let (program, d) ← (c.program count).mapError .motion
  return (← c.dialect.lines program, d)

end Compiler
end LaserCut.Gcode
