import LaserCut.Geometry.Point
import LaserCut.Gcode.Instruction

/-!
# The controller

What a sequence of motion requests is written as. The controller knows the speed asked for last,
the feed written last and the position reached last, and writes a feed only when it changes.

* `Request`: what can be asked for;
* `Controller.handle`: the instruction for one request, if it needs one, and the state after it;
* `Controller.perform`: the instructions for a list of requests.
-/

namespace LaserCut.Gcode

/-- What a program may ask of the machine. -/
inductive Request (α : Type)
  /-- Move rapidly from now on. -/
  | travelAt (speed : α)
  /-- Move at a cutting speed from now on. -/
  | cutAt (speed : α)
  | move (words : AxisWords α)
  | toolOff
  | toolOn (power : α)
  | absolute
  | relative
  | dwell (milliseconds : Nat)
  | setOrigin
  | unit (u : LengthUnit)
  | home
deriving DecidableEq, Repr

/-- Why a request is refused. -/
inductive MotionError (α : Type)
  | undefinedSpeed
  | powerOutOfRange (power : α)
deriving DecidableEq, Repr

def MotionError.message : MotionError Float → String
  | undefinedSpeed => "Undefined movement speed. " ++
    "Set a travel or cutting speed before executing movement commands"
  | powerOutOfRange power => "Laser power " ++ Decimal.shortest power ++
    " is out of bounds, it must be between 0 and 1"

/-- What the controller keeps between requests. -/
structure Controller (α : Type) where
  /-- The position in the plane, once a move has fixed it. -/
  position : Option (Point α)
  /-- The speed asked for last. -/
  speed : Option α
  /-- The feed written last. -/
  feed : Option α
  travelling : Bool
deriving DecidableEq, Repr

namespace Controller

variable {α : Type} [Scalar α]

def initial : Controller α := ⟨none, none, none, false⟩

/-- The position after a move with the given words. -/
def moved (position : Option (Point α)) (words : AxisWords α) : Option (Point α) :=
  match position, words.x, words.y with
  | _, some x, some y => some ⟨x, y⟩
  | some p, x, y => some ⟨x.getD p.x, y.getD p.y⟩
  | none, _, _ => none

/-- The feed in effect is the given speed. -/
def hasFeed (c : Controller α) (speed : α) : Bool :=
  match c.feed with
  | some feed => feed == speed
  | none => false

/-- A move with the given words. One without words is nothing, but needs a speed all the same. -/
def move (c : Controller α) (words : AxisWords α) :
    Except (MotionError α) (Option (Instruction α)) × Controller α :=
  match c.speed with
  | none => (.error .undefinedSpeed, c)
  | some speed =>
    if words.isEmpty then (.ok none, c)
    else
      let reached := { c with position := moved c.position words }
      if c.travelling then (.ok (some (.rapid words)), reached)
      else if c.hasFeed speed then (.ok (some (.cut none words)), reached)
      else (.ok (some (.cut (some speed) words)), { reached with feed := some speed })

/-- The instruction for a request, if it needs one, and the controller after it. -/
def handle (c : Controller α) :
    Request α → Except (MotionError α) (Option (Instruction α)) × Controller α
  | .travelAt speed => (.ok none, { c with speed := some speed, travelling := true })
  | .cutAt speed => (.ok none, { c with speed := some speed, travelling := false })
  | .move words => c.move words
  | .toolOff => (.ok (some .toolOff), c)
  | .toolOn power =>
    if 0 ≤ power ∧ power ≤ 1 then (.ok (some (.toolOn power)), c)
    else (.error (.powerOutOfRange power), c)
  | .absolute => (.ok (some .absolute), c)
  | .relative => (.ok (some .relative), c)
  | .dwell milliseconds => (.ok (some (.dwell milliseconds)), c)
  | .setOrigin => (.ok (some .setOrigin), { c with position := some Point.origin })
  | .unit u => (.ok (some (.unit u)), c)
  | .home => (.ok (some .home), c)

/-- The instructions for requests in order, and the controller after them, if none is refused. -/
def perform (c : Controller α) :
    List (Request α) → Except (MotionError α) (List (Instruction α) × Controller α)
  | [] => .ok ([], c)
  | request :: rest =>
    match c.handle request with
    | (.error e, _) => .error e
    | (.ok instruction, c) =>
      (c.perform rest).map fun (instructions, c) => (instruction.toList ++ instructions, c)

end Controller
end LaserCut.Gcode
