import LaserCut.Text.Fields

/-!
# The machine

The unit that a program is written in, and the place of the machine's origin on its bed. Both have
a name; names are read in any case of letters and with blanks around them.
-/

namespace LaserCut

/-- The unit of length of a program. -/
inductive LengthUnit
  | millimeters
  | inches
deriving DecidableEq, Repr

/-- Where the origin of the machine lies on its bed. -/
inductive MachineOrigin
  | bottomLeft
  | center
  | topLeft
deriving DecidableEq, Repr

namespace LengthUnit

def name : LengthUnit → String
  | millimeters => "mm"
  | inches => "in"

/-- The unit with exactly this name. -/
def ofName? (s : String) : Option LengthUnit := [millimeters, inches].find? (·.name == s)

/-- The unit that a text names. -/
def ofText? (s : String) : Option LengthUnit := ofName? (Text.trimmed s).toLower

theorem ofName?_name (u : LengthUnit) : ofName? u.name = some u := by cases u <;> rfl

end LengthUnit

namespace MachineOrigin

def name : MachineOrigin → String
  | bottomLeft => "bottom-left"
  | center => "center"
  | topLeft => "top-left"

/-- The origin with exactly this name. -/
def ofName? (s : String) : Option MachineOrigin :=
  [bottomLeft, center, topLeft].find? (·.name == s)

/-- The origin that a text names. -/
def ofText? (s : String) : Option MachineOrigin := ofName? (Text.trimmed s).toLower

theorem ofName?_name (o : MachineOrigin) : ofName? o.name = some o := by cases o <;> rfl

end MachineOrigin
end LaserCut
