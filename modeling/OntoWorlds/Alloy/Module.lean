import OntoWorlds.Alloy.Declaration
import OntoWorlds.RunScope

/-!
# OntoWorlds — modules

The fragments of a run sorted into the sections of a module, and the text of the module.

* `Sections.ofFragments` sorts a chronological list; each section keeps the order and duplicates.
  Datatypes are gathered by name: the first mention fixes the place, and whether the module
  declares the signature.
* `Sections.text` is the whole module.
-/

namespace OntoWorlds.Alloy

/-- The parts of a module by kind, each in the order in which they were emitted. -/
structure Sections where
  worldFields : List WorldField := []
  coverings : List Covering := []
  facts : List Fact := []
  immutabilities : List Immutability := []
  accessors : List Accessor := []
  selectors : List Selector := []
  enumerations : List Enumeration := []
  datatypes : List Datatype := []
deriving DecidableEq, Repr

namespace Fragment

/-- The world field of a fragment that is one; the other projections are alike. -/
def worldField? : Fragment → Option WorldField
  | worldField f => some f
  | _ => none

def covering? : Fragment → Option Covering
  | covering c => some c
  | _ => none

def fact? : Fragment → Option Fact
  | fact f => some f
  | _ => none

def immutability? : Fragment → Option Immutability
  | immutability i => some i
  | _ => none

def accessor? : Fragment → Option Accessor
  | accessor a => some a
  | _ => none

def selector? : Fragment → Option Selector
  | selector s => some s
  | _ => none

def enumeration? : Fragment → Option Enumeration
  | enumeration e => some e
  | _ => none

end Fragment

/-! ## Gathering datatypes -/

/-- Adds a signature unless there is one of the name. -/
def mention (name : String) (isDeclared : Bool) (ds : List Datatype) : List Datatype :=
  if ds.any (·.name == name) then ds else ds ++ [⟨name, isDeclared, []⟩]

/-- Adds a field to the first signature of the name. -/
def addField (name : String) (f : InlineField) : List Datatype → List Datatype
  | [] => []
  | d :: ds =>
    if d.name == name then { d with fields := d.fields ++ [f] } :: ds
    else d :: addField name f ds

/-- The datatypes after one more fragment. A field declares its datatype if nothing has before. -/
def gather (ds : List Datatype) : Fragment → List Datatype
  | .datatype name isDeclared => mention name isDeclared ds
  | .inlineField name f => addField name f (mention name true ds)
  | _ => ds

namespace Sections

/-- Sorts fragments into sections. -/
def ofFragments (fs : List Fragment) : Sections where
  worldFields := fs.filterMap Fragment.worldField?
  coverings := fs.filterMap Fragment.covering?
  facts := fs.filterMap Fragment.fact?
  immutabilities := fs.filterMap Fragment.immutability?
  accessors := fs.filterMap Fragment.accessor?
  selectors := fs.filterMap Fragment.selector?
  enumerations := fs.filterMap Fragment.enumeration?
  datatypes := fs.foldl gather []

/-- The datatypes that the module declares; built-in ones are left out. -/
def declaredDatatypes (s : Sections) : List Datatype := s.datatypes.filter (·.isDeclared)

end Sections

/-! ## The text of a module -/

/-- The separator of fields, each on a line of its own. -/
def fieldSeparator : String := ",\n" ++ indent

/-- The signature with its fields, one a line. -/
def Datatype.text (d : Datatype) : String :=
  block ("sig " ++ d.name ++ " in Datatype")
    (if d.fields.isEmpty then []
      else [String.intercalate fieldSeparator (d.fields.map InlineField.text)])

/-- The signature of worlds: its fields, and the constraints on each world if there are any. -/
def worldSignature (fields constraints : List String) : String :=
  "abstract sig World \x7b\n" ++ indent
    ++ String.intercalate fieldSeparator ("exists: some Endurant" :: fields) ++ "\n\x7d"
    ++ if constraints.isEmpty then ""
      else "\x7b\n" ++ terminated (constraints.map (indent ++ ·)) ++ "\x7d"

/-- The libraries that every module opens. -/
def openings : List String :=
  ["open world_structure[World]", "open ontological_properties[World]", "open util/relation",
    "open util/sequniv", "open util/ternary", "open util/boolean"]

/-- The signatures that every module declares. -/
def baseSignatures : List String :=
  ["abstract sig Endurant \x7b\x7d", "sig Object extends Endurant \x7b\x7d",
    "sig Aspect extends Endurant \x7b\x7d", "abstract sig Datatype \x7b\x7d"]

/-- The facts about existence that every module states. -/
def existenceFact : String :=
  block "fact additionalFacts"
    ["continuous_existence[exists]", "elements_existence[Endurant,exists]"]

/-- All immutable columns are stated in one fact, which is left out if there are none. -/
def immutabilityFact (lines : List String) : List String :=
  if lines.isEmpty then [] else [block "fact relationProperties" lines]

/-- The function that a visualization reads: what exists, and the columns to show. -/
def visibleFunction (selectors : List String) : String :=
  block "fun visible : World->univ" [String.intercalate " + " ("exists" :: selectors)]

/-- The three commands, over one world, over a line of worlds and over several. -/
def runCommands (o : RunScope) : List String :=
  ["run singleWorld for " ++ toString o.scope ++ " but 1 World, " ++ toString o.intBitwidth
      ++ " Int",
    "run linearWorlds for " ++ toString o.scope ++ " but 0 BranchingWorld, "
      ++ toString o.intBitwidth ++ " Int",
    "run multipleWorlds for " ++ toString o.scope ++ " but " ++ toString o.worlds ++ " World, "
      ++ toString o.intBitwidth ++ " Int"]

namespace Sections

/-- The paragraphs of the module between its openings and its run commands. -/
def paragraphs (s : Sections) : List String :=
  baseSignatures
    ++ s.enumerations.map Enumeration.text
    ++ s.declaredDatatypes.map Datatype.text
    ++ [worldSignature (s.worldFields.map WorldField.text) (s.coverings.map Covering.text),
      existenceFact]
    ++ s.facts.map Fact.text
    ++ immutabilityFact (s.immutabilities.map Immutability.text)
    ++ s.accessors.map Accessor.text
    ++ [visibleFunction (s.selectors.map Selector.text)]

/-- The module as a sheet: openings, then paragraphs, then commands. -/
def sheet (s : Sections) (o : RunScope) : Sheet :=
  let opened := (openings.foldl Sheet.line (Sheet.start "main")).blank
  (runCommands o).foldl Sheet.line (s.paragraphs.foldl Sheet.paragraph opened)

/-- The text of the module. -/
def text (s : Sections) (o : RunScope) : String := (s.sheet o).finished

end Sections

/-- How much of each kind a module declares. -/
structure Report where
  worldFields : Nat
  facts : Nat
  accessors : Nat
  datatypes : Nat
  enumerations : Nat
deriving DecidableEq, Repr

/-- Counts what a module declares. -/
def Sections.report (s : Sections) : Report where
  worldFields := s.worldFields.length
  facts := s.facts.length
  accessors := s.accessors.length
  datatypes := s.declaredDatatypes.length
  enumerations := s.enumerations.length

end OntoWorlds.Alloy
