import OntoWorlds.Json.Doc
import OntoWorlds.Text.Visible

/-!
# OntoWorlds — problems of a document

Why a document could not be read: its text is no JSON, or a value does not fit the place it stands
in. `Misfit.message` is the wording of the second kind.
-/

namespace OntoWorlds.Json

/-- A value found where another kind of value was expected. -/
inductive Found
  | null
  | bool (b : Bool)
  | number (v : NumberValue)
  | text (s : String)
  | sequence
  | map
deriving DecidableEq, Repr

/-- The value that was found, in words. -/
def Found.describe : Found → String
  | null => "null"
  | bool b => "boolean `" ++ (if b then "true" else "false") ++ "`"
  | number (.integer i) => "integer `" ++ toString i ++ "`"
  | number v => "floating point `" ++ v.text ++ "`"
  | text s => "string " ++ Text.visible s
  | sequence => "sequence"
  | map => "map"

/-- How well-formed JSON fails to be the document it should be. -/
inductive Misfit
  | missingField (name : String)
  | duplicateField (name : String)
  | unknownField (name : String) (known : List String)
  | unknownVariant (name : String) (known : List String)
  | invalidType (found : Found) (expected : String)
  | invalidInteger (i : Int) (expected : String)
  | invalidLength (length : Nat) (title : String) (size : Nat)
deriving DecidableEq, Repr

namespace Misfit

/-- The names in quotes, with commas between them. -/
def enumerate : List String → String
  | [] => ""
  | [n] => "`" ++ n ++ "`"
  | n :: ns => "`" ++ n ++ "`, " ++ enumerate ns

/-- What is wrong, in words. -/
def message : Misfit → String
  | missingField name => "missing field `" ++ name ++ "`"
  | duplicateField name => "duplicate field `" ++ name ++ "`"
  | unknownField name known =>
    "unknown field `" ++ name ++ "`, expected one of " ++ enumerate known
  | unknownVariant name known =>
    "unknown variant `" ++ name ++ "`, expected one of " ++ enumerate known
  | invalidType found expected => "invalid type: " ++ found.describe ++ ", expected " ++ expected
  | invalidInteger i expected =>
    "invalid value: integer `" ++ toString i ++ "`, expected " ++ expected
  | invalidLength length title size =>
    "invalid length " ++ toString length ++ ", expected " ++ title ++ " with " ++ toString size
      ++ (if size == 1 then " element" else " elements")

end Misfit

/-- Why a document could not be read. -/
inductive Problem
  | fault (f : Fault)
  | misfit (m : Misfit)
deriving DecidableEq, Repr

/-- The problem of a value of the wrong kind. A token that is no value is a fault instead, and so
are a string with an unpaired surrogate and a number that is too large. -/
def Doc.unexpected (expected : String) : Doc → Problem
  | .array _ => .misfit (.invalidType .sequence expected)
  | .object _ => .misfit (.invalidType .map expected)
  | .atom none => .fault .unfinished
  | .atom (some .null) => .misfit (.invalidType .null expected)
  | .atom (some (.bool b)) => .misfit (.invalidType (.bool b) expected)
  | .atom (some (.number n)) => match n.value with
    | some v => .misfit (.invalidType (.number v) expected)
    | none => .fault .malformed
  | .atom (some (.text s)) => match s with
    | some s => .misfit (.invalidType (.text s) expected)
    | none => .fault .malformed
  | .atom (some (.broken _ onRead _)) => .fault onRead
  | .atom (some _) => .fault .malformed

end OntoWorlds.Json
