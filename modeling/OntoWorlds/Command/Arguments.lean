import OntoWorlds.RunScope
import OntoWorlds.Text.Numeral

/-!
# OntoWorlds — command-line arguments

Every argument is a flag with a value, `--flag value` or `--flag=value`, and no flag may be given
twice. A value that stands by itself must not look like a flag.

* `Arguments.parse` reads the arguments; none if they cannot be used.
-/

namespace OntoWorlds

/-- The flags of the command. -/
inductive Flag
  | model | out | config | scope | intBitwidth | worlds
deriving DecidableEq, Repr

namespace Flag

/-- The flag as it is typed. -/
def word : Flag → String
  | model => "--model"
  | out => "--out"
  | config => "--config"
  | scope => "--scope"
  | intBitwidth => "--int-bitwidth"
  | worlds => "--worlds"

/-- The flag with the spelling. -/
def ofWord? (w : String) : Option Flag :=
  [model, out, config, scope, intBitwidth, worlds].find? (·.word == w)

end Flag

/-- What the command is asked to do. -/
structure Arguments where
  /-- The path of the model document. -/
  model : String
  /-- The path to write the module to; without one it is printed. -/
  out : Option String := none
  /-- The path of a settings file. -/
  config : Option String := none
  scope : Option Nat := none
  intBitwidth : Option Nat := none
  worlds : Option Nat := none
deriving DecidableEq, Repr

namespace Arguments

/-- Flags with their values, in the order they are given. -/
abbrev Given := List (Flag × String)

/-- The flag of an argument, and the value attached to it. -/
def splitFlag (argument : String) : String × Option String :=
  let cs := argument.toList
  match cs.dropWhile (· != '=') with
  | '=' :: value => (String.ofList (cs.takeWhile (· != '=')), some (String.ofList value))
  | _ => (argument, none)

/-- A value may be a single hyphen, but does not start with one otherwise. -/
def isValue (w : String) : Bool :=
  match w.toList with
  | '-' :: _ :: _ => false
  | _ => true

/-- Goes through the arguments; `--` may only end them. -/
def collect : List String → Option Given
  | [] => some []
  | argument :: rest =>
    if argument == "--" then if rest.isEmpty then some [] else none
    else
      match splitFlag argument with
      | (word, some value) => do
        let flag ← Flag.ofWord? word
        return (flag, value) :: (← collect rest)
      | (word, none) =>
        match rest with
        | [] => none
        | value :: rest => do
          let flag ← Flag.ofWord? word
          if isValue value then return (flag, value) :: (← collect rest) else none

/-- No flag is given twice. -/
def noneTwice : Given → Bool
  | [] => true
  | (flag, _) :: rest => (rest.lookup flag).isNone && noneTwice rest

/-- A path is not empty. -/
def readPath (given : Given) (flag : Flag) : Option (Option String) :=
  match given.lookup flag with
  | none => some none
  | some path => if path == "" then none else some (some path)

/-- A number of 32 bits, or a zero with a minus sign. -/
def readNumber (cs : List Char) : Option Nat :=
  match cs with
  | '-' :: cs => (Text.readDigits cs).filter (· == 0)
  | cs => Text.readWord cs

/-- The number of a flag: `some none` if the flag is not given, `none` if what follows it is no
number. -/
def readScope (given : Given) (flag : Flag) : Option (Option Nat) :=
  match given.lookup flag with
  | none => some none
  | some n => (readNumber n.toList).map some

/-- The arguments of a run, or none if they cannot be understood. -/
def parse (arguments : List String) : Option Arguments := do
  let given ← collect arguments
  if noneTwice given then
    let model ← (← readPath given .model)
    return {
      model
      out := ← readPath given .out
      config := ← readPath given .config
      scope := ← readScope given .scope
      intBitwidth := ← readScope given .intBitwidth
      worlds := ← readScope given .worlds }
  else none

/-- The flags win over the settings. -/
def override (a : Arguments) (o : RunScope) : RunScope where
  scope := a.scope.getD o.scope
  intBitwidth := a.intBitwidth.getD o.intBitwidth
  worlds := a.worlds.getD o.worlds

/-- The paths of the files that the command reads. -/
def inputs (a : Arguments) : List String := a.config.toList ++ [a.model]

end Arguments

end OntoWorlds
