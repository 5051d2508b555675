import LaserCut.Settings.Basic
import LaserCut.Text.Digits

/-!
# Arguments

The arguments of the command line.

* `Key`: the options, with their names, and what each takes;
* `Arguments`: what they say, each at most once;
* `Arguments.parse`: the arguments read from left to right.

Options are `--name value`, `--name=value`, `-n value`, `-nvalue` or `-n=value`; flags may share a
dash; after `--` everything is a file. A value must not look like an option, unless the option
takes any text, or negative numbers.
-/

namespace LaserCut.CommandLine

/-- The options of the command line. -/
inductive Key
  | output
  | config
  | layer
  | unit
  | travelSpeed
  | cuttingSpeed
  | passes
  | passDepth
  | dwellTime
  | approximationTolerance
  | toolPowerCommand
  | toolOffCommand
  | machineOrigin
  | zeroMachine
  | invertYAxis
  | useDocumentSize
  | bedWidth
  | bedHeight
  | horizontalOffset
  | verticalOffset
  | scalingFactor
  | zAxisStart
  | moveToOriginEnd
  | noLaserOffStart
  | noLaserOffEnd
  | headerFile
  | footerFile
  | verbose
  | help
  | version
deriving DecidableEq, Repr

/-- Which texts with a dash in front may be the value of an option. -/
inductive Dashes
  | none
  | negativeNumbers
  | any
deriving DecidableEq, Repr

/-- What an option is: a flag, a request for information, or a name for a value. -/
inductive KeyKind
  | flag
  | information
  | value (dashes : Dashes)
deriving DecidableEq, Repr

namespace Key

/-- The name, the letter if there is one, and the kind of an option. -/
def form : Key → String × Option Char × KeyKind
  | output => ("output", some 'o', .value .none)
  | config => ("config", none, .value .none)
  | layer => ("layer", some 'l', .value .none)
  | unit => ("unit", some 'u', .value .none)
  | travelSpeed => ("travel-speed", some 't', .value .none)
  | cuttingSpeed => ("cutting-speed", some 'c', .value .none)
  | passes => ("passes", some 'p', .value .none)
  | passDepth => ("pass-depth", none, .value .none)
  | dwellTime => ("dwell-time", none, .value .none)
  | approximationTolerance => ("approximation-tolerance", none, .value .none)
  | toolPowerCommand => ("tool-power-command", none, .value .any)
  | toolOffCommand => ("tool-off-command", none, .value .any)
  | machineOrigin => ("machine-origin", none, .value .none)
  | zeroMachine => ("zero-machine", none, .flag)
  | invertYAxis => ("invert-y-axis", none, .flag)
  | useDocumentSize => ("use-document-size", none, .flag)
  | bedWidth => ("bed-width", none, .value .none)
  | bedHeight => ("bed-height", none, .value .none)
  | horizontalOffset => ("horizontal-offset", none, .value .negativeNumbers)
  | verticalOffset => ("vertical-offset", none, .value .negativeNumbers)
  | scalingFactor => ("scaling-factor", none, .value .none)
  | zAxisStart => ("z-axis-start", none, .value .negativeNumbers)
  | moveToOriginEnd => ("move-to-origin-end", none, .flag)
  | noLaserOffStart => ("no-laser-off-start", none, .flag)
  | noLaserOffEnd => ("no-laser-off-end", none, .flag)
  | headerFile => ("header-file", none, .value .none)
  | footerFile => ("footer-file", none, .value .none)
  | verbose => ("verbose", some 'v', .flag)
  | help => ("help", some 'h', .information)
  | version => ("version", some 'V', .information)

def all : List Key :=
  [output, config, layer, unit, travelSpeed, cuttingSpeed, passes, passDepth, dwellTime,
    approximationTolerance, toolPowerCommand, toolOffCommand, machineOrigin, zeroMachine,
    invertYAxis, useDocumentSize, bedWidth, bedHeight, horizontalOffset, verticalOffset,
    scalingFactor, zAxisStart, moveToOriginEnd, noLaserOffStart, noLaserOffEnd, headerFile,
    footerFile, verbose, help, version]

def name (k : Key) : String := k.form.1

def letter? (k : Key) : Option Char := k.form.2.1

def kind (k : Key) : KeyKind := k.form.2.2

def ofName? (s : String) : Option Key := all.find? (·.name == s)

def ofLetter? (c : Char) : Option Key := all.find? (·.letter? == some c)

end Key

/-- What the arguments say. A flag is there if it is set. -/
structure Arguments where
  input : Option String := none
  output : Option String := none
  config : Option String := none
  layer : Option String := none
  unit : Option LengthUnit := none
  travelSpeed : Option Float := none
  cuttingSpeed : Option Float := none
  passes : Option Nat := none
  passDepth : Option Float := none
  dwellTime : Option Nat := none
  approximationTolerance : Option Float := none
  toolPowerCommand : Option String := none
  toolOffCommand : Option String := none
  machineOrigin : Option MachineOrigin := none
  bedWidth : Option Float := none
  bedHeight : Option Float := none
  horizontalOffset : Option Float := none
  verticalOffset : Option Float := none
  scalingFactor : Option Float := none
  zAxisStart : Option Float := none
  headerFile : Option String := none
  footerFile : Option String := none
  flags : List Key := []

/-! ## Values -/

/-- A file name: any text but the empty one. -/
def file? (s : String) : Option String := if s.isEmpty then none else some s

def float? (s : String) : Option Float := (Literal.ofChars? s.toList).map Binary64.ofLiteral

/-- A whole number with an optional sign. -/
def whole? (s : String) : Option Int := do
  let (negative, ds) := Literal.readSign s.toList
  let n : Int ← (Text.digits? 10 Text.decimalDigit? ds).map Int.ofNat
  return if negative then -n else n

/-- A count of passes, below `2 ^ 32`; a zero may have a minus. -/
def passes? (s : String) : Option Nat := do
  let n ← whole? s
  if 0 ≤ n ∧ n < (Nat.pow 2 32 : Nat) then some n.toNat else none

/-- A count of milliseconds, below `2 ^ 64`, without a minus. -/
def milliseconds? (s : String) : Option Nat := do
  let n ← whole? s
  if 0 ≤ n ∧ n < (Nat.pow 2 64 : Nat) ∧ s.toList.head? ≠ some '-' then some n.toNat else none

/-- A value for what has none yet. -/
def once {β : Type} (current new : Option β) : Option (Option β) :=
  if current.isSome then none else new.map some

namespace Arguments

/-- The arguments with a value for an option, if it is a value of the right kind and the first. -/
def setValue (a : Arguments) (key : Key) (s : String) : Option Arguments := do
  match key with
  | .output => return { a with output := ← once a.output (file? s) }
  | .config => return { a with config := ← once a.config (file? s) }
  | .layer => return { a with layer := ← once a.layer (some s) }
  | .unit => return { a with unit := ← once a.unit (LengthUnit.ofText? s) }
  | .travelSpeed => return { a with travelSpeed := ← once a.travelSpeed (float? s) }
  | .cuttingSpeed => return { a with cuttingSpeed := ← once a.cuttingSpeed (float? s) }
  | .passes => return { a with passes := ← once a.passes (passes? s) }
  | .passDepth => return { a with passDepth := ← once a.passDepth (float? s) }
  | .dwellTime => return { a with dwellTime := ← once a.dwellTime (milliseconds? s) }
  | .approximationTolerance =>
    return { a with approximationTolerance := ← once a.approximationTolerance (float? s) }
  | .toolPowerCommand =>
    return { a with toolPowerCommand := ← once a.toolPowerCommand (some s) }
  | .toolOffCommand => return { a with toolOffCommand := ← once a.toolOffCommand (some s) }
  | .machineOrigin =>
    return { a with machineOrigin := ← once a.machineOrigin (MachineOrigin.ofText? s) }
  | .bedWidth => return { a with bedWidth := ← once a.bedWidth (float? s) }
  | .bedHeight => return { a with bedHeight := ← once a.bedHeight (float? s) }
  | .horizontalOffset =>
    return { a with horizontalOffset := ← once a.horizontalOffset (float? s) }
  | .verticalOffset => return { a with verticalOffset := ← once a.verticalOffset (float? s) }
  | .scalingFactor => return { a with scalingFactor := ← once a.scalingFactor (float? s) }
  | .zAxisStart => return { a with zAxisStart := ← once a.zAxisStart (float? s) }
  | .headerFile => return { a with headerFile := ← once a.headerFile (file? s) }
  | .footerFile => return { a with footerFile := ← once a.footerFile (file? s) }
  | _ => none

/-- The arguments with a flag, if it is not set yet. -/
def setFlag (a : Arguments) (key : Key) : Option Arguments :=
  if key ∈ a.flags then none else some { a with flags := key :: a.flags }

/-- The arguments with the drawing's file, if it is the first. -/
def setInput (a : Arguments) (s : String) : Option Arguments := do
  return { a with input := ← once a.input (file? s) }

end Arguments

/-! ## Reading -/

/-- Why the arguments do not lead to a conversion. -/
inductive Stop
  /-- They cannot be understood. -/
  | usage
  /-- They ask for help or for the version. -/
  | information
deriving DecidableEq, Repr

/-- The arguments read so far. -/
structure Reading where
  arguments : Arguments := {}
  /-- An option that still needs its value. -/
  awaiting : Option Key := none
  /-- Everything from here on is a file. -/
  filesOnly : Bool := false

def orUsage {β : Type} (result : Option β) : Except Stop β :=
  match result with
  | some b => .ok b
  | none => .error .usage

/-- A text that would be read as an option. A lone dash is none. -/
def looksLikeOption (s : String) : Bool :=
  match s.toList with
  | '-' :: _ :: _ => true
  | _ => false

/-- Digits with at most one point, which is not the first character, and at most one exponent mark
after that, which is neither the first character nor the last. -/
def isPlainNumber (cs : List Char) : Bool :=
  let tail := cs.dropWhile Char.isDigit
  let tail :=
    match tail with
    | '.' :: rest => if tail.length < cs.length then rest.dropWhile Char.isDigit else tail
    | _ => tail
  match tail with
  | [] => true
  | e :: rest =>
    (e == 'e' || e == 'E') && tail.length < cs.length && !rest.isEmpty && rest.all Char.isDigit

/-- A minus and a plain number. -/
def isNegativeNumber (s : String) : Bool :=
  match s.toList with
  | '-' :: cs => isPlainNumber cs
  | _ => false

/-- Whether a text may be the value of an option that stands before it. -/
def mayFollow (dashes : Dashes) (s : String) : Bool :=
  match dashes with
  | .any => true
  | .negativeNumbers => !looksLikeOption s || isNegativeNumber s
  | .none => !looksLikeOption s

namespace Reading

def setValue (r : Reading) (key : Key) (s : String) : Except Stop Reading :=
  (orUsage (r.arguments.setValue key s)).map fun a => { r with arguments := a, awaiting := none }

def setFlag (r : Reading) (key : Key) : Except Stop Reading :=
  (orUsage (r.arguments.setFlag key)).map fun a => { r with arguments := a }

/-- An option by its name. -/
def long (r : Reading) (name : String) (value : Option String) : Except Stop Reading := do
  let key ← orUsage (Key.ofName? name)
  match key.kind, value with
  | .value _, some s => r.setValue key s
  | .value _, none => .ok { r with awaiting := some key }
  | _, some _ => .error .usage
  | .information, none => .error .information
  | .flag, none => r.setFlag key

/-- Options by their letters. The first that takes a value takes the rest of the letters for it, or
else the next argument. -/
def short (r : Reading) : List Char → Except Stop Reading
  | [] => .ok r
  | c :: cs =>
    match Key.ofLetter? c with
    | none => .error .usage
    | some key =>
      match key.kind with
      | .information => .error .information
      | .flag => do (← r.setFlag key).short cs
      | .value _ =>
        match cs with
        | [] => .ok { r with awaiting := some key }
        | '=' :: value => r.setValue key (String.ofList value)
        | value => r.setValue key (String.ofList value)

def file (r : Reading) (s : String) : Except Stop Reading :=
  (orUsage (r.arguments.setInput s)).map fun a => { r with arguments := a }

/-- One more argument. -/
def step (r : Reading) (s : String) : Except Stop Reading :=
  if r.filesOnly then r.file s
  else
    match r.awaiting with
    | some key =>
      match key.kind with
      | .value dashes => if mayFollow dashes s then r.setValue key s else .error .usage
      | _ => .error .usage
    | none =>
      match s.toList with
      | ['-', '-'] => .ok { r with filesOnly := true }
      | '-' :: '-' :: rest =>
        match Text.cutAt '=' rest with
        | some (name, value) => r.long (String.ofList name) (some (String.ofList value))
        | none => r.long (String.ofList rest) none
      | '-' :: c :: cs => r.short (c :: cs)
      | _ => r.file s

end Reading

/-- What the arguments say, if they are complete. -/
def Arguments.parse (args : List String) : Except Stop Arguments := do
  let r ← args.foldlM Reading.step {}
  if r.awaiting.isSome || r.arguments.input.isNone then .error .usage
  else .ok r.arguments

end LaserCut.CommandLine
