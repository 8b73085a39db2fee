import OntoWorlds.Worlds.Step

/-!
# OntoWorlds — encoding classes

A class of endurants becomes a world field with its rigidity; a datatype, or an enumeration without
literals, a datatype signature; an enumeration with literals an `enum`. Once all classes are there,
the ultimate sortals cover the objects and the classes of moments cover the aspects.
-/

namespace OntoWorlds

open Alloy

namespace Class

/-- What states whether instances of a class always are instances. -/
def rigidity (c : Class) (name : String) (base : BaseSignature) : List Fragment :=
  match c.stereotype with
  | some s =>
    if s.isRigid then [.fact (.rigid name base)]
    else if s.isAntiRigid then [.fact (.antirigid name base)]
    else []
  | none => []

/-- A signature, unless its name is one of the built-in ones. -/
def datatypeStep (c : Class) : Step where
  requests := [c.label.request]
  fragments n := [.datatype (n.own c.id) (!Identifier.isBuiltin (n.own c.id))]

/-- An `enum` of the literals; the name of the signature is requested first. -/
def enumerationStep (c : Class) : Step where
  requests := c.label.declaredRequest :: c.literals.map (·.label.request)
  fragments n := [.enumeration ⟨n.own c.id, c.literals.map fun l => n.own l.id⟩]

/-- A world field of instances with the rigidity of the class. -/
def extensionStep (c : Class) (base : BaseSignature) : Step where
  requests := [c.label.declaredRequest]
  fragments n :=
    .worldField ⟨n.own c.id, .extension base⟩ :: c.rigidity (n.own c.id) base

/-- The step of a class; a class that is neither a value type nor drawn from a base contributes
nothing. -/
def step (c : Class) : Step :=
  -- an enumeration without literals cannot be an `enum`
  if c.isDatatype || (c.isEnumeration && c.literals.isEmpty) then c.datatypeStep
  else if c.isEnumeration then c.enumerationStep
  else match c.base? with
    | some base => c.extensionStep base
    | none => .skip

/-- The base signature that the class helps to cover. -/
def covers? (c : Class) : Option BaseSignature :=
  match c.stereotype, c.base? with
  | some s, some base =>
    if s.isUltimateSortal && base == .object then some .object
    else if s.isMoment && base == .aspect then some .aspect
    else none
  | _, _ => none

end Class

namespace Model

/-- The classes that cover a base signature. -/
def covering (m : Model) (base : BaseSignature) : List Class :=
  m.classes.filter (·.covers? == some base)

/-- The classes that cover a base signature, if there are any. -/
def coveringFragment (m : Model) (n : Names) (base : BaseSignature) : List Fragment :=
  let classes := m.covering base
  if classes.isEmpty then [] else [.covering ⟨base, classes.map fun c => n.own c.id⟩]

/-- The names of the covering classes are requested in the order of the model, objects and aspects
mixed. -/
def coveringStep (m : Model) : Step where
  requests := (m.classes.filter (·.covers?.isSome)).map (·.label.request)
  fragments n := m.coveringFragment n .object ++ m.coveringFragment n .aspect

end Model

end OntoWorlds
