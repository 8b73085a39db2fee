import OntoWorlds.Text.Blank

/-!
# OntoWorlds — words of the target language

Which characters an Alloy identifier may hold and which words it may not be: the keywords of the
language, the names every generated module declares, and the library names its facts refer to.

* `isLegal w` — `w` is nonempty, has no forbidden character, starts with no ASCII digit and is not
  reserved.
-/

namespace OntoWorlds.Identifier

/-- The marks that identifiers may not contain. -/
def forbiddenMarks : List Char :=
  " \t\n\r!@#$%&*()-+=\x7b\x7d[]|\\;:,.<>/?`~'\"^".toList

/-- A blank or one of the forbidden marks. -/
def isForbidden (c : Char) : Bool := Text.isBlank c || forbiddenMarks.contains c

/-- The keywords of the language. -/
def keywords : List String :=
  ["abstract", "after", "all", "always", "and", "as", "assert", "before", "but", "check", "disj",
    "else", "enum", "eventually", "exactly", "expect", "extends", "fact", "for", "fun",
    "historically", "iden", "iff", "implies", "in", "Int", "int", "let", "lone", "module", "no",
    "none", "not", "once", "one", "open", "or", "pred", "private", "releases", "run", "seq", "set",
    "sig", "since", "some", "steps", "sum", "this", "triggered", "univ", "until", "var"]

/-- The names that every module declares. -/
def declaredWords : List String :=
  ["World", "exists", "Endurant", "Object", "Aspect", "Datatype", "visible"]

/-- The library predicates and functions that facts refer to. -/
def libraryWords : List String :=
  ["rigidity", "antirigidity", "continuous_existence", "elements_existence", "immutable_source",
    "immutable_target", "select13", "isSeq", "elems"]

/-- The words that no identifier may be. -/
def reservedWords : List String := keywords ++ declaredWords ++ libraryWords

/-- The word is one of the reserved ones. -/
def isReserved (w : String) : Bool := reservedWords.contains w

/-- The signatures that the language provides: used as types, never declared. -/
def builtinSignatures : List String := ["String"]

/-- The word is a signature that the language itself provides. -/
def isBuiltin (w : String) : Bool := builtinSignatures.contains w

/-- The first character is a digit. -/
def startsWithDigit (w : String) : Bool :=
  match w.toList with
  | c :: _ => c.isDigit
  | [] => false

/-- The word can stand as an identifier. -/
def isLegal (w : String) : Bool :=
  w != "" && !startsWithDigit w && !w.toList.any isForbidden && !isReserved w

end OntoWorlds.Identifier
