import LaserCut.Decimal.Fixed
import LaserCut.Decimal.Shortest
import LaserCut.Settings.Machine

/-!
# Instructions

The lines of a program, as data and as text.

* `Instruction`: what a line says; its numbers are those it is printed from;
* `Dialect`: how many places coordinates have, and which lines switch the tool;
* `Dialect.isSilent`: an instruction without a line of its own;
* `Dialect.line`: the line of an instruction.
-/

namespace LaserCut.Gcode

/-- The axis words of a move. An axis that is left out keeps its value. -/
structure AxisWords (α : Type) where
  x : Option α
  y : Option α
  z : Option α
deriving DecidableEq, Repr

def AxisWords.isEmpty {α : Type} (w : AxisWords α) : Bool :=
  w.x.isNone && w.y.isNone && w.z.isNone

/-- Words for a point of the plane. -/
def AxisWords.plane {α : Type} (x y : α) : AxisWords α := ⟨some x, some y, none⟩

/-- A word for the height alone. -/
def AxisWords.height {α : Type} (z : α) : AxisWords α := ⟨none, none, some z⟩

/-- A line of a program. -/
inductive Instruction (α : Type)
  /-- `G0`: a move at the machine's own speed. -/
  | rapid (words : AxisWords α)
  /-- `G1`: a move at the feed in effect, or at the feed given, which stays in effect. -/
  | cut (feed : Option α) (words : AxisWords α)
  | toolOff
  /-- The tool on, at a fraction of its power. -/
  | toolOn (power : α)
  /-- `G90` -/
  | absolute
  /-- `G91` -/
  | relative
  /-- `G4` -/
  | dwell (milliseconds : Nat)
  /-- `G92`: the place reached is the origin. -/
  | setOrigin
  /-- `G21` or `G20` -/
  | unit (u : LengthUnit)
  /-- `G28` -/
  | home
  /-- A line of the user's own. -/
  | verbatim (line : String)
deriving DecidableEq, Repr

/-- The lines that switch the tool, where they are not the usual ones. -/
structure ToolCommands where
  off : String
  on : String
deriving DecidableEq, Repr

/-- How instructions are written. -/
structure Dialect where
  places : Nat
  tool : Option ToolCommands
deriving DecidableEq, Repr

namespace Dialect

/-- Whether the line of an instruction is empty, so that it is left out of programs. -/
def isSilent {α : Type} (d : Dialect) : Instruction α → Bool
  | .toolOff => d.tool.any fun t => t.off.isEmpty
  | .toolOn _ => d.tool.any fun t => t.on.isEmpty
  | .verbatim line => line.isEmpty
  | _ => false

/-- The number that full power is written as. -/
def fullPower : Float := 255.0

def word (d : Dialect) (axis : String) (value : Option Float) : String :=
  match value with
  | some v => " " ++ axis ++ Decimal.fixed d.places v
  | none => ""

def words (d : Dialect) (w : AxisWords Float) : String :=
  d.word "X" w.x ++ d.word "Y" w.y ++ d.word "Z" w.z

/-- The line of an instruction. -/
def line (d : Dialect) : Instruction Float → String
  | .rapid words => "G0" ++ d.words words ++ ";"
  | .cut feed words =>
    "G1" ++ (feed.map fun f => " F" ++ Decimal.shortest f).getD "" ++ d.words words ++ ";"
  | .toolOff => (d.tool.map ToolCommands.off).getD "M5;"
  | .toolOn power =>
    (d.tool.map ToolCommands.on).getD ("M3 S" ++ Decimal.shortest (fullPower * power) ++ ";")
  | .absolute => "G90;"
  | .relative => "G91;"
  | .dwell milliseconds => "G4 P" ++ toString milliseconds ++ ";"
  | .setOrigin => "G92 X0 Y0 Z0;"
  | .unit .millimeters => "G21;"
  | .unit .inches => "G20;"
  | .home => "G28;"
  | .verbatim line => line

end Dialect
end LaserCut.Gcode
