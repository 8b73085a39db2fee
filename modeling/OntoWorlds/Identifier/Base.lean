import OntoWorlds.Identifier.Word
import OntoWorlds.Ontology.Element

/-!
# OntoWorlds — from raw names to identifiers

The identifier that an element would like to have. The forbidden characters are dropped; an empty
rest becomes the kind tag; a reserved word gets the tag behind it, a leading digit the tag in front.

* `base name kind` — the identifier wanted for a raw name.
* `declaredBase name kind` — the same for an element that the module declares itself, which must
  also keep off the built-in signatures.
-/

namespace OntoWorlds

namespace Identifier

/-- The raw name without forbidden characters, or the tag if nothing is left of it. -/
def stripped (name : Option String) (tag : String) : String :=
  let kept := (name.getD "").toList.filter fun c => !isForbidden c
  if kept.isEmpty then tag else String.ofList kept

/-- A reserved word is told apart by the tag behind it. -/
def awayFromReserved (w tag : String) : String :=
  if isReserved w then w ++ "_" ++ tag else w

/-- A leading digit is covered by the tag in front. -/
def awayFromDigits (w tag : String) : String :=
  if startsWithDigit w then tag ++ "_" ++ w else w

/-- The base of the identifiers of an element: the legal part of its name, away from reserved words
and leading digits. -/
def base (name : Option String) (kind : ElementKind) : String :=
  awayFromDigits (awayFromReserved (stripped name kind.tag) kind.tag) kind.tag

/-- The base of an element that the module declares itself, which has to differ from built-in
signatures as well. -/
def declaredBase (name : Option String) (kind : ElementKind) : String :=
  let w := base name kind
  if isBuiltin w then w ++ "_" ++ kind.tag else w

end Identifier

/-- The identifier wanted for an element. -/
def Label.base (l : Label) : String := Identifier.base l.name l.kind

/-- The identifier wanted for an element that the module declares itself. -/
def Label.declaredBase (l : Label) : String := Identifier.declaredBase l.name l.kind

end OntoWorlds
