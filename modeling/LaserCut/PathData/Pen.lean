import LaserCut.PathData.Command
import LaserCut.Geometry.Curve

/-!
# Drawing path commands

A pen carries what one command leaves for the next: the current point, the point where the subpath
began, and the last control point for the smooth commands. Each command draws at most one curve.
-/

namespace LaserCut.PathData

/-- The control point that a smooth command reflects. It is there only after a curve of the same
degree. -/
inductive LastControl (α : Type)
  | none
  | cubic (c : Point α)
  | quadratic (c : Point α)
deriving DecidableEq, Repr

/-- What one command leaves for the next. -/
structure Pen (α : Type) where
  current : Point α
  subpathStart : Point α
  control : LastControl α
deriving DecidableEq, Repr

namespace Pen

variable {α : Type} [Scalar α]

/-- The pen before the first command. -/
def fresh : Pen α := ⟨Point.origin, Point.origin, .none⟩

/-- The control point of the curve before, reflected in the current point. -/
def reflected (pen : Pen α) (c : Point α) : Point α := pen.current * (Scalar.two : α) - c

def smoothCubicControl (pen : Pen α) : Point α :=
  match pen.control with
  | .cubic c => pen.reflected c
  | _ => pen.current

def smoothQuadraticControl (pen : Pen α) : Point α :=
  match pen.control with
  | .quadratic c => pen.reflected c
  | _ => pen.current

/-- The pen after drawing to a point. -/
def advance (pen : Pen α) (p : Point α) (control : LastControl α) : Pen α :=
  { pen with current := p, control }

/-- The pen after a command, and the curve that the command draws. -/
def step (pen : Pen α) (command : Command α) : Pen α × Option (Curve α) :=
  let origin := if command.relative then pen.current else Point.origin
  match command.segment with
  | .moveTo p =>
    let p := origin + p
    (⟨p, p, .none⟩, none)
  | .lineTo p =>
    let p := origin + p
    (pen.advance p .none, some (.line pen.current p))
  | .horizontal x =>
    let p := ⟨if command.relative then pen.current.x + x else x, pen.current.y⟩
    (pen.advance p .none, some (.line pen.current p))
  | .vertical y =>
    let p := ⟨pen.current.x, if command.relative then pen.current.y + y else y⟩
    (pen.advance p .none, some (.line pen.current p))
  | .cubic c₁ c₂ p =>
    let c₁ := origin + c₁
    let c₂ := origin + c₂
    let p := origin + p
    (pen.advance p (.cubic c₂), some (.cubic pen.current c₁ c₂ p))
  | .smoothCubic c₂ p =>
    let c₂ := origin + c₂
    let p := origin + p
    (pen.advance p (.cubic c₂), some (.cubic pen.current pen.smoothCubicControl c₂ p))
  | .quadratic c p =>
    let c := origin + c
    let p := origin + p
    (pen.advance p (.quadratic c), some (.quadratic pen.current c p))
  | .smoothQuadratic p =>
    let c := pen.smoothQuadraticControl
    let p := origin + p
    (pen.advance p (.quadratic c), some (.quadratic pen.current c p))
  | .arc radii rotation large sweep p =>
    let p := origin + p
    (pen.advance p .none, Curve.ofArc? pen.current p ⟨radii, rotation, large, sweep⟩)
  | .close =>
    (pen.advance pen.subpathStart .none,
      if pen.current.same pen.subpathStart then none
      else some (.line pen.current pen.subpathStart))

/-- The curves that commands draw, from a pen on. -/
def trace (pen : Pen α) : List (Command α) → List (Curve α)
  | [] => []
  | command :: rest =>
    let (pen, curve) := pen.step command
    curve.toList ++ pen.trace rest

end Pen

/-- The curves that commands draw. -/
def draw {α : Type} [Scalar α] (commands : List (Command α)) : List (Curve α) :=
  Pen.fresh.trace commands

end LaserCut.PathData
