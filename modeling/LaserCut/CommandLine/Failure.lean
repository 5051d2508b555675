import LaserCut.Conversion.Basic
import LaserCut.Text.Fields

/-!
# Failures

Why a run of the program fails, and the report of it: the failure itself, and under it what caused
it, one cause under another.
-/

namespace LaserCut.CommandLine

open Conversion (ConversionError)

/-- Why a run of the program fails. -/
inductive Failure
  /-- The file of settings cannot be used. -/
  | config (path : String) (e : SettingsError)
  /-- A file of header or footer lines cannot be read. -/
  | lines (path reason : String)
  /-- The settings as a whole cannot be used. -/
  | settings (e : SettingsError)
  | conversion (input : String) (e : ConversionError)

/-- What caused a fault of the settings, beside the fault itself. -/
def settingsCauses : SettingsError → List String
  | .unreadable reason => [reason]
  | _ => []

/-- What caused a fault of a conversion, beside the fault itself. -/
def conversionCauses : ConversionError → List String
  | .document e => [e.message]
  | .motion e => [e.message]
  | .settings e => e.message :: settingsCauses e
  | .file reason => [reason]

namespace Failure

def message : Failure → String
  | config path _ => "Invalid configuration '" ++ path ++ "'"
  | lines path _ => "Failed to read '" ++ path ++ "'"
  | settings e => e.message
  | conversion input _ => "Failed to convert '" ++ input ++ "'"

/-- The chain of causes, each the cause of the one before. -/
def causes : Failure → List String
  | config _ e => e.message :: settingsCauses e
  | lines _ reason => [reason]
  | settings e => settingsCauses e
  | conversion _ e => e.message :: conversionCauses e

/-- Whether the last cause has a cause of its own that the library does not know: what exactly is
wrong with a malformed file. -/
def isOpen : Failure → Bool
  | config _ .malformed => true
  | _ => false

end Failure

/-- The lines of a text; a line break at its end begins no new one. -/
def textLines (s : String) : List String :=
  (Text.split (· == '\n') s.toList).map String.ofList

/-- A cause as it is reported: its first line behind a mark, the others as far to the right. -/
def causeLines (mark indent cause : String) : List String :=
  match textLines cause with
  | [] => []
  | first :: rest => (mark ++ first) :: rest.map (indent ++ ·)

/-- Causes with their numbers, from the one with the number `n` on. -/
def numbered (n : Nat) : List String → List String
  | [] => []
  | cause :: rest =>
    causeLines ("    " ++ toString n ++ ": ") "       " cause ++ numbered (n + 1) rest

/-- The report of a failure. A cause that is the only one has no number. -/
def Failure.report (f : Failure) : List String :=
  textLines ("Error: " ++ f.message) ++
    match f.causes with
    | [] => []
    | [cause] =>
      if f.isOpen then ["", "Caused by:"] ++ numbered 0 [cause]
      else ["", "Caused by:"] ++ causeLines "    " "    " cause
    | causes => ["", "Caused by:"] ++ numbered 0 causes

end LaserCut.CommandLine
