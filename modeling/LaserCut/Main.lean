import LaserCut.CommandLine.Run

/-!
# The program

Runs the command line on the files of the machine.
-/

namespace LaserCut

/-- The reason that a file operation gives for its failure. -/
def ioReason : IO.Error → String
  | .noFileOrDirectory .. => Files.PathFault.message .notFound
  | .inappropriateType _ code _ =>
    Files.PathFault.message (if code = 21 then .isDirectory else .notDirectory)
  | e => toString e

/-- A file operation with its failure as a reason. -/
def attempt {β : Type} (action : IO β) : IO (Except String β) := do
  try
    return .ok (← action)
  catch e =>
    return .error (ioReason e)

/-- The files of the machine. -/
def machineFiles : Files.Access IO where
  read path := attempt (IO.FS.readFile path)
  write path content := attempt (IO.FS.writeFile path content)

end LaserCut

def main (args : List String) : IO UInt32 := do
  let outcome ← LaserCut.CommandLine.run LaserCut.machineFiles args
  for line in outcome.report do
    IO.eprintln line
  return outcome.exitCode.toUInt32
