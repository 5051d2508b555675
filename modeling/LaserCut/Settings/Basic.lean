import LaserCut.Binary64
import LaserCut.Settings.Machine

/-!
# Settings

Everything that a conversion depends on beside the drawing.

* `Settings`: the settings, over any type of numbers;
* `Settings.standard`: what they are where nothing is said;
* `Settings.fault?`: the first setting that cannot be used, in the order of the checks.
-/

namespace LaserCut

/-- The settings of a conversion. Lengths are in the unit of the program, speeds in that unit per
minute. -/
structure Settings (α : Type) where
  unit : LengthUnit
  travelSpeed : α
  cuttingSpeed : α
  passes : Nat
  /-- How far the head goes down between passes. -/
  passDepth : α
  /-- A pause before the job, in milliseconds. -/
  dwellTime : Nat
  /-- How far the moves may leave the curves. It also decides how many places are written. -/
  approximationTolerance : α
  toolPowerCommand : String
  toolOffCommand : String
  machineOrigin : MachineOrigin
  /-- Declare the place of the head at the start to be the origin. -/
  zeroMachine : Bool
  /-- Keep the y-axis pointing down. -/
  invertYAxis : Bool
  /-- The bed is as large as the drawing says it is. -/
  useDocumentSize : Bool
  bedWidth : α
  bedHeight : α
  horizontalOffset : α
  verticalOffset : α
  scalingFactor : α
  /-- Move to `zAxisStart` before the job. -/
  doZAxisStart : Bool
  zAxisStart : α
  moveToOriginEnd : Bool
  doLaserOffStart : Bool
  doLaserOffEnd : Bool
  /-- Convert only the layer with this label. -/
  layerName : Option String
  /-- Lines at the start of the program. -/
  header : List String
  /-- Lines at the end of the program. -/
  footer : List String
deriving DecidableEq, Repr

/-- Why settings are refused. -/
inductive SettingsError
  | unknownUnit (text : String)
  | unknownOrigin (text : String)
  | invalidValue (name reason : String)
  /-- The file of settings is no TOML document, or a setting in it has the wrong type. -/
  | malformed
  /-- The file of settings cannot be read. -/
  | unreadable (reason : String)
deriving DecidableEq, Repr

/-- The text of a malformed file ends in what is wrong with it, which is not part of the library. -/
def SettingsError.message : SettingsError → String
  | unknownUnit text => "Unknown unit '" ++ text ++ "' (expected 'mm' or 'in')"
  | unknownOrigin text =>
    "Unknown machine origin '" ++ text ++ "' (expected 'bottom-left', 'center' or 'top-left')"
  | invalidValue name reason => "Invalid value for '" ++ name ++ "': " ++ reason
  | malformed => "TOML parse error: "
  | unreadable reason => "I/O error: " ++ reason

namespace LengthUnit

/-- The unit that a text names. -/
def read (s : String) : Except SettingsError LengthUnit :=
  match ofText? s with
  | some u => .ok u
  | none => .error (.unknownUnit s)

end LengthUnit

namespace MachineOrigin

/-- The origin that a text names. -/
def read (s : String) : Except SettingsError MachineOrigin :=
  match ofText? s with
  | some o => .ok o
  | none => .error (.unknownOrigin s)

end MachineOrigin

namespace Settings

/-- The settings where nothing is said. -/
def standard : Settings Float where
  unit := .millimeters
  travelSpeed := 3000.0
  cuttingSpeed := 750.0
  passes := 1
  passDepth := 1.0
  dwellTime := 0
  approximationTolerance := 0.01
  toolPowerCommand := "M3 S255;"
  toolOffCommand := "M5;"
  machineOrigin := .bottomLeft
  zeroMachine := false
  invertYAxis := false
  useDocumentSize := false
  bedWidth := 200.0
  bedHeight := 200.0
  horizontalOffset := 0.0
  verticalOffset := 0.0
  scalingFactor := 1.0
  doZAxisStart := false
  zAxisStart := 0.0
  moveToOriginEnd := false
  doLaserOffStart := true
  doLaserOffEnd := true
  layerName := none
  header := []
  footer := []

/-- The label of the layer to convert; a blank one means all of the drawing. -/
def layer? {α : Type} (s : Settings α) : Option String :=
  (s.layerName.map Text.trimmed).filter (!·.isEmpty)

section Checks

variable {α : Type} [Scalar α]

/-- Finite and greater than zero. -/
def isPositive (x : α) : Bool := Scalar.isFinite x && decide (0 < x)

/-- What each setting has to be: its name, whether it is so, and what to say if not. The checks are
in the order in which they are made. -/
def checks (s : Settings α) : List (String × Bool × String) :=
  let finite (x : α) := (Scalar.isFinite x, "must be a finite number")
  let speed (x : α) := (isPositive x, "must be a positive number")
  [("passes", 1 ≤ s.passes, "must be at least 1"),
    ("approximation_tolerance", isPositive s.approximationTolerance, "must be greater than 0"),
    ("travel_speed", speed s.travelSpeed),
    ("cutting_speed", speed s.cuttingSpeed),
    ("pass_depth", finite s.passDepth),
    ("bed_width", finite s.bedWidth),
    ("bed_height", finite s.bedHeight),
    ("horizontal_offset", finite s.horizontalOffset),
    ("vertical_offset", finite s.verticalOffset),
    ("scaling_factor", finite s.scalingFactor),
    ("z_axis_start", finite s.zAxisStart)]

/-- The first setting that cannot be used. -/
def fault? (s : Settings α) : Option SettingsError :=
  (s.checks.find? fun (_, holds, _) => !holds).map fun (name, _, reason) =>
    .invalidValue name reason

/-- The settings, if all of them can be used. -/
def validated (s : Settings α) : Except SettingsError (Settings α) :=
  match s.fault? with
  | none => .ok s
  | some e => .error e

end Checks

end Settings
end LaserCut
