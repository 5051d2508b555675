import LaserCut.CommandLine.Arguments
import LaserCut.CommandLine.Failure
import LaserCut.Files.Name
import LaserCut.Settings.Document

/-!
# Running the program

* `Arguments.override`: settings with what the arguments say instead;
* `prepare`: the settings of a run, from the standard or a file, the arguments, and files of lines;
* `convertNamed`: the conversion that the arguments ask for;
* `run`: the same from the arguments as they stand, with the exit code and the report.
-/

namespace LaserCut.CommandLine

open Conversion (ConversionError)

/-- Settings with what the arguments say instead. Flags can only be turned on. -/
def Arguments.override (a : Arguments) (s : Settings Float) : Settings Float :=
  { s with
    layerName := a.layer.or s.layerName
    unit := a.unit.getD s.unit
    travelSpeed := a.travelSpeed.getD s.travelSpeed
    cuttingSpeed := a.cuttingSpeed.getD s.cuttingSpeed
    passes := a.passes.getD s.passes
    passDepth := a.passDepth.getD s.passDepth
    dwellTime := a.dwellTime.getD s.dwellTime
    approximationTolerance := a.approximationTolerance.getD s.approximationTolerance
    toolPowerCommand := a.toolPowerCommand.getD s.toolPowerCommand
    toolOffCommand := a.toolOffCommand.getD s.toolOffCommand
    machineOrigin := a.machineOrigin.getD s.machineOrigin
    bedWidth := a.bedWidth.getD s.bedWidth
    bedHeight := a.bedHeight.getD s.bedHeight
    horizontalOffset := a.horizontalOffset.getD s.horizontalOffset
    verticalOffset := a.verticalOffset.getD s.verticalOffset
    scalingFactor := a.scalingFactor.getD s.scalingFactor
    doZAxisStart := s.doZAxisStart || a.zAxisStart.isSome
    zAxisStart := a.zAxisStart.getD s.zAxisStart
    zeroMachine := s.zeroMachine || a.flags.contains .zeroMachine
    invertYAxis := s.invertYAxis || a.flags.contains .invertYAxis
    useDocumentSize := s.useDocumentSize || a.flags.contains .useDocumentSize
    moveToOriginEnd := s.moveToOriginEnd || a.flags.contains .moveToOriginEnd
    doLaserOffStart := s.doLaserOffStart && !a.flags.contains .noLaserOffStart
    doLaserOffEnd := s.doLaserOffEnd && !a.flags.contains .noLaserOffEnd }

/-- A line without the carriage return that it ends in. -/
def dropReturn (line : List Char) : List Char :=
  if line.getLast? = some '\r' then line.dropLast else line

/-- The lines of a file. Each ends in a line feed, which may have a carriage return before it; the
last line may lack both. -/
def fileLines (content : String) : List String :=
  match (Text.split (· == '\n') content.toList).reverse with
  | [] => []
  | last :: ended =>
    ((ended.reverse.map dropReturn) ++ if last.isEmpty then [] else [last]).map String.ofList

section Running

variable {m : Type → Type} [Monad m] (files : Files.Access m)

/-- The settings in a file, or the standard ones if there is no file. -/
def baseSettings (path : Option String) : m (Except Failure (Settings Float)) := do
  match path with
  | none => return .ok Settings.standard
  | some path =>
    match ← files.read path with
    | .error reason => return .error (.config path (.unreadable reason))
    | .ok content => return (Settings.ofToml content).mapError (.config path)

/-- The lines of a file, or the given ones if there is no file. -/
def linesOr (path : Option String) (lines : List String) : m (Except Failure (List String)) := do
  match path with
  | none => return .ok lines
  | some path => return (← files.read path).mapError (.lines path) |>.map fileLines

/-- The settings of a run. -/
def prepare (a : Arguments) : m (Except Failure (Settings Float)) := do
  match ← baseSettings files a.config with
  | .error f => return .error f
  | .ok base =>
    let s := a.override base
    match ← linesOr files a.headerFile s.header with
    | .error f => return .error f
    | .ok header =>
      match ← linesOr files a.footerFile s.footer with
      | .error f => return .error f
      | .ok footer => return ({ s with header, footer }).validated.mapError .settings

/-- Where the program goes. -/
def outputPath (a : Arguments) (input : String) (s : Settings Float) : String :=
  a.output.getD (Files.defaultOutput input s.layer?)

/-- The conversion of a drawing that the arguments ask for. -/
def convertNamed (a : Arguments) (input : String) : m (Except Failure Unit) := do
  match ← prepare files a with
  | .error f => return .error f
  | .ok s =>
    let result ← Conversion.convertFile files input (outputPath a input s) s
    return result.mapError (.conversion input)

/-- How a run ends. -/
structure Outcome where
  exitCode : Nat
  report : List String
deriving DecidableEq, Repr

/-- Runs the program with the given arguments. -/
def run (args : List String) : m Outcome := do
  match Arguments.parse args with
  | .error .usage => return ⟨2, []⟩
  | .error .information => return ⟨0, []⟩
  | .ok a =>
    match ← convertNamed files a (a.input.getD "") with
    | .ok () => return ⟨0, []⟩
    | .error f => return ⟨1, f.report⟩

end Running

end LaserCut.CommandLine
