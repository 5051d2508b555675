import LaserCut.Geometry.Point

/-!
# Path commands

The commands of path data, over any type of numbers: literals when they are read from text, scalars
when they are drawn or written.

* `Verb`, `Letter`: the ten commands, each with an absolute and a relative letter;
* `Segment`, `Command`: a command with its parameters;
* `Command.text`: the written form.
-/

namespace LaserCut.PathData

/-- The ten commands of path data. -/
inductive Verb
  | moveTo
  | lineTo
  | horizontal
  | vertical
  | cubic
  | smoothCubic
  | quadratic
  | smoothQuadratic
  | arc
  | close
deriving DecidableEq, Repr

/-- A command letter: a capital one is absolute, a small one relative. -/
structure Letter where
  verb : Verb
  relative : Bool
deriving DecidableEq, Repr

/-- The capital letter of a command. -/
def Verb.capital : Verb → Char
  | moveTo => 'M'
  | lineTo => 'L'
  | horizontal => 'H'
  | vertical => 'V'
  | cubic => 'C'
  | smoothCubic => 'S'
  | quadratic => 'Q'
  | smoothQuadratic => 'T'
  | arc => 'A'
  | close => 'Z'

/-- The command of a capital letter. -/
def Verb.ofCapital? : Char → Option Verb
  | 'M' => some moveTo
  | 'L' => some lineTo
  | 'H' => some horizontal
  | 'V' => some vertical
  | 'C' => some cubic
  | 'S' => some smoothCubic
  | 'Q' => some quadratic
  | 'T' => some smoothQuadratic
  | 'A' => some arc
  | 'Z' => some close
  | _ => none

namespace Letter

def toChar (l : Letter) : Char :=
  if l.relative then l.verb.capital.toLower else l.verb.capital

def ofChar? (c : Char) : Option Letter :=
  (Verb.ofCapital? c.toUpper).map (⟨·, c.isLower⟩)

theorem ofChar?_toChar (l : Letter) : ofChar? l.toChar = some l := by
  obtain ⟨verb, relative⟩ := l
  cases verb <;> cases relative <;> rfl

/-- The command that parameters without a letter mean after this one: more lines after a move, and
nothing after a closing command. -/
def repeated (l : Letter) : Option Letter :=
  match l.verb with
  | .moveTo => some ⟨.lineTo, l.relative⟩
  | .close => none
  | _ => some l

end Letter

/-- The parameters of a command. Each but the last point of a segment is a control point. -/
inductive Segment (ν : Type)
  | moveTo (p : Point ν)
  | lineTo (p : Point ν)
  | horizontal (x : ν)
  | vertical (y : ν)
  | cubic (c₁ c₂ p : Point ν)
  | smoothCubic (c₂ p : Point ν)
  | quadratic (c p : Point ν)
  | smoothQuadratic (p : Point ν)
  | arc (radii : Point ν) (rotation : ν) (large sweep : Bool) (p : Point ν)
  | close
deriving DecidableEq, Repr

/-- A command; the coordinates of a relative one count from the current point. -/
structure Command (ν : Type) where
  relative : Bool
  segment : Segment ν
deriving DecidableEq, Repr

namespace Segment

variable {ν μ : Type}

def verb : Segment ν → Verb
  | moveTo _ => .moveTo
  | lineTo _ => .lineTo
  | horizontal _ => .horizontal
  | vertical _ => .vertical
  | cubic _ _ _ => .cubic
  | smoothCubic _ _ => .smoothCubic
  | quadratic _ _ => .quadratic
  | smoothQuadratic _ => .smoothQuadratic
  | arc _ _ _ _ _ => .arc
  | close => .close

def map (f : ν → μ) : Segment ν → Segment μ
  | moveTo p => moveTo (p.map f)
  | lineTo p => lineTo (p.map f)
  | horizontal x => horizontal (f x)
  | vertical y => vertical (f y)
  | cubic c₁ c₂ p => cubic (c₁.map f) (c₂.map f) (p.map f)
  | smoothCubic c₂ p => smoothCubic (c₂.map f) (p.map f)
  | quadratic c p => quadratic (c.map f) (p.map f)
  | smoothQuadratic p => smoothQuadratic (p.map f)
  | arc radii rotation large sweep p => arc (radii.map f) (f rotation) large sweep (p.map f)
  | close => close

theorem verb_map (f : ν → μ) (s : Segment ν) : (s.map f).verb = s.verb := by
  cases s <;> rfl

end Segment

namespace Command

variable {ν μ : Type}

def letter (c : Command ν) : Letter := ⟨c.segment.verb, c.relative⟩

def map (f : ν → μ) (c : Command ν) : Command μ := ⟨c.relative, c.segment.map f⟩

/-! ## The written form -/

def pointText (number : ν → String) (p : Point ν) : String :=
  number p.x ++ "," ++ number p.y

def flagText (flag : Bool) : String := if flag then "1" else "0"

/-- The parameters as written, by the text of a number. -/
def argumentsText (number : ν → String) : Segment ν → List String
  | .moveTo p => [pointText number p]
  | .lineTo p => [pointText number p]
  | .horizontal x => [number x]
  | .vertical y => [number y]
  | .cubic c₁ c₂ p => [pointText number c₁, pointText number c₂, pointText number p]
  | .smoothCubic c₂ p => [pointText number c₂, pointText number p]
  | .quadratic c p => [pointText number c, pointText number p]
  | .smoothQuadratic p => [pointText number p]
  | .arc radii rotation large sweep p =>
    [pointText number radii, number rotation, flagText large ++ "," ++ flagText sweep,
      pointText number p]
  | .close => []

/-- A command as written: its letter and parameters, with a blank before each parameter. -/
def text (number : ν → String) (c : Command ν) : String :=
  " ".intercalate (c.letter.toChar.toString :: argumentsText number c.segment)

end Command

/-- Path data that spells the commands. -/
def text {ν : Type} (number : ν → String) (commands : List (Command ν)) : String :=
  " ".intercalate (commands.map (Command.text number))

end LaserCut.PathData
