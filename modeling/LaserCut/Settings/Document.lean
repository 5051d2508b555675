import LaserCut.Settings.Basic
import LaserCut.Toml.Document

/-!
# Settings from TOML

A TOML document gives settings by their names; the others keep their standard value, and keys that
name no setting are passed over.

* a number may be written as an integer or a float, a count only as an integer in its range;
* a choice is a string, or the one key of a table whose value is empty.
-/

namespace LaserCut.Settings

open Toml (Node Table Value)

def float? : Node → Option Float
  | .value (.integer n) => some (Binary64.ofLiteral (.decimal (n < 0) n.natAbs 0))
  | .value (.float l) => some (Binary64.ofLiteral l)
  | _ => none

/-- A count below `bound`. -/
def count? (bound : Nat) : Node → Option Nat
  | .value (.integer n) => if 0 ≤ n ∧ n < bound then some n.toNat else none
  | _ => none

def boolean? : Node → Option Bool
  | .value (.boolean b) => some b
  | _ => none

def string? : Node → Option String
  | .value (.string s) => some s
  | _ => none

def strings? : Node → Option (List String)
  | .value (.array vs) => vs.mapM fun v => string? (.value v)
  | _ => none

/-- A table or array without entries. -/
def isEmptyNode : Node → Bool
  | .value (.array vs) => vs.isEmpty
  | .value (.inlineTable t) => t.isEmpty
  | .table t => t.isEmpty
  | _ => false

/-- The name of a choice that the entries of a table give. -/
def entryName? (t : Table) : Option String :=
  match t.entries with
  | [(name, node)] => if isEmptyNode node then some name else none
  | _ => none

/-- The name of a choice. -/
def choiceName? : Node → Option String
  | .value (.string s) => some s
  | .value (.inlineTable t) => entryName? t
  | .table t => entryName? t
  | _ => none

/-- The value of a key, which is `standard` where the key is missing. -/
def keyed {β : Type} (t : Table) (key : String) (read : Node → Option β) (standard : β) :
    Option β :=
  match t.get? key with
  | none => some standard
  | some node => read node

/-- The settings that a table gives. -/
def ofTable? (t : Table) : Option (Settings Float) := do
  let s := standard
  return {
    unit := ← keyed t "unit" (fun n => (choiceName? n).bind LengthUnit.ofName?) s.unit
    travelSpeed := ← keyed t "travel_speed" float? s.travelSpeed
    cuttingSpeed := ← keyed t "cutting_speed" float? s.cuttingSpeed
    passes := ← keyed t "passes" (count? (Nat.pow 2 32)) s.passes
    passDepth := ← keyed t "pass_depth" float? s.passDepth
    dwellTime := ← keyed t "dwell_time" (count? (Nat.pow 2 64)) s.dwellTime
    approximationTolerance :=
      ← keyed t "approximation_tolerance" float? s.approximationTolerance
    toolPowerCommand := ← keyed t "tool_power_command" string? s.toolPowerCommand
    toolOffCommand := ← keyed t "tool_off_command" string? s.toolOffCommand
    machineOrigin :=
      ← keyed t "machine_origin" (fun n => (choiceName? n).bind MachineOrigin.ofName?)
        s.machineOrigin
    zeroMachine := ← keyed t "zero_machine" boolean? s.zeroMachine
    invertYAxis := ← keyed t "invert_y_axis" boolean? s.invertYAxis
    useDocumentSize := ← keyed t "use_document_size" boolean? s.useDocumentSize
    bedWidth := ← keyed t "bed_width" float? s.bedWidth
    bedHeight := ← keyed t "bed_height" float? s.bedHeight
    horizontalOffset := ← keyed t "horizontal_offset" float? s.horizontalOffset
    verticalOffset := ← keyed t "vertical_offset" float? s.verticalOffset
    scalingFactor := ← keyed t "scaling_factor" float? s.scalingFactor
    doZAxisStart := ← keyed t "do_z_axis_start" boolean? s.doZAxisStart
    zAxisStart := ← keyed t "z_axis_start" float? s.zAxisStart
    moveToOriginEnd := ← keyed t "move_to_origin_end" boolean? s.moveToOriginEnd
    doLaserOffStart := ← keyed t "do_laser_off_start" boolean? s.doLaserOffStart
    doLaserOffEnd := ← keyed t "do_laser_off_end" boolean? s.doLaserOffEnd
    layerName := ← keyed t "layer_name" (fun n => (string? n).map some) s.layerName
    header := ← keyed t "header" strings? s.header
    footer := ← keyed t "footer" strings? s.footer }

/-- The settings that a TOML document gives, if they can be used. -/
def ofToml (document : String) : Except SettingsError (Settings Float) :=
  match (Table.read? document).bind ofTable? with
  | some s => s.validated
  | none => .error .malformed

end LaserCut.Settings
