import OntoWorlds.Command.Arguments
import OntoWorlds.Command.Settings
import OntoWorlds.Ontology.Document
import OntoWorlds.Worlds.Session

/-!
# OntoWorlds — the command

The command reads the settings and the model, encodes the model, and prints the module or writes it
to a file. What it comes to is decided here, given the texts of the files; the outer layer only
reads, prints and writes.
-/

namespace OntoWorlds

/-- Why the command fails. -/
inductive CommandFailure
  | readConfig (path : String)
  | invalidConfig (path : String)
  | readModel (path : String)
  | parseModel (path : String)
  | transform (path : String) (d : Defect)
  | write (path : String)
deriving DecidableEq, Repr

namespace CommandFailure

/-- The first line of the message. -/
def headline : CommandFailure → String
  | readConfig path => "Error: Failed to read config " ++ path
  | invalidConfig path => "Error: Invalid config " ++ path
  | readModel path => "Error: Failed to read model " ++ path
  | parseModel path => "Error: Failed to parse model " ++ path
  | transform path _ => "Error: Failed to transform " ++ path
  | write path => "Error: Failed to write " ++ path

/-- The text with every line set in by four blanks. -/
def setIn (text : String) : String :=
  "    " ++ String.ofList (text.toList.flatMap fun c =>
    if c = '\n' then ['\n', ' ', ' ', ' ', ' '] else [c])

/-- The cause of the failure, where it is known. -/
def cause : CommandFailure → String
  | transform _ d => "\nCaused by:\n" ++ setIn d.message ++ "\n"
  | _ => ""

/-- The whole message: what failed, and why. -/
def message (f : CommandFailure) : String := f.headline ++ "\n" ++ f.cause

end CommandFailure

/-- What the command comes to. -/
inductive Outcome
  /-- The arguments cannot be used. -/
  | usage
  | failed (f : CommandFailure)
  | print (text : String)
  /-- The text goes to a file; the notice is shown once it is there. -/
  | write (path text notice : String)
deriving DecidableEq, Repr

namespace Command

/-- What is said about a module that was written. -/
def notice (r : Alloy.Report) (path : String) : String :=
  "Generated " ++ toString r.worldFields ++ " world fields, " ++ toString r.facts ++ " facts, "
    ++ toString r.accessors ++ " functions, " ++ toString r.datatypes ++ " datatypes, "
    ++ toString r.enumerations ++ " enums\n  Written: " ++ path ++ "\n"

/-- The run scopes of the settings file, changed by the flags. -/
def scopeOf (a : Arguments) (read : String → Option String) : Except CommandFailure RunScope :=
  match a.config with
  | none => .ok (a.override {})
  | some path =>
    match read path with
    | none => .error (.readConfig path)
    | some text =>
      match Settings.parse text with
      | none => .error (.invalidConfig path)
      | some o => .ok (a.override o)

/-- The model in the file that the arguments name. -/
def modelOf (a : Arguments) (read : String → Option String) : Except CommandFailure Model :=
  match read a.model with
  | none => .error (.readModel a.model)
  | some text =>
    match Model.ofJson text with
    | .error _ => .error (.parseModel a.model)
    | .ok m => .ok m

/-- The module text and report of a run. -/
def encoded (a : Arguments) (read : String → Option String) :
    Except CommandFailure (String × Alloy.Report) := do
  let scope ← scopeOf a read
  let m ← modelOf a read
  match m.encode scope with
  | .error d => .error (.transform a.model d)
  | .ok result => .ok result

/-- Runs the command where `read` gives the texts of the files that can be read. -/
def run (arguments : List String) (read : String → Option String) : Outcome :=
  match Arguments.parse arguments with
  | none => .usage
  | some a =>
    match encoded a read with
    | .error f => .failed f
    | .ok (text, report) =>
      match a.out with
      | none => .print text
      | some path => .write path text (notice report path)

end Command

end OntoWorlds
