import OntoWorlds.Command.Run

/-!
# OntoWorlds — the program

Reads the files that the command asks for, and prints, writes and exits as it says.
-/

namespace OntoWorlds

/-- The texts of the files that can be read. -/
def readFiles (paths : List String) : IO (List (String × String)) :=
  paths.filterMapM fun (path : String) => do
    try
      let text ← IO.FS.readFile path
      return some (path, text)
    catch _ => return none

/-- What is printed when the arguments cannot be understood. -/
def usage : String :=
  "usage: ontoworlds --model FILE [--out FILE] [--config FILE] [--scope N] [--int-bitwidth N]"
    ++ " [--worlds N]\n"

/-- Prints an outcome and gives the exit code. -/
def perform (o : Outcome) : IO UInt32 := do
  match o with
  | .usage =>
    IO.eprint usage
    return 2
  | .failed f =>
    IO.eprint f.message
    return 1
  | .print text =>
    IO.print text
    return 0
  | .write path text notice =>
    try
      IO.FS.writeFile path text
      IO.eprint notice
      return 0
    catch _ =>
      IO.eprint (CommandFailure.write path).message
      return 1

end OntoWorlds

/-- Reads the input files and runs the command. -/
def main (arguments : List String) : IO UInt32 := do
  let paths := ((OntoWorlds.Arguments.parse arguments).map (·.inputs)).getD []
  let files ← OntoWorlds.readFiles paths
  OntoWorlds.perform (OntoWorlds.Command.run arguments fun path => files.lookup path)
