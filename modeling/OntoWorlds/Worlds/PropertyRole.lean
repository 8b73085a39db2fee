import OntoWorlds.Worlds.Carrier

/-!
# OntoWorlds — the roles of properties

What a property contributes to the module is decided once, from the property and its owner.
-/

namespace OntoWorlds

/-- Why a property contributes nothing. -/
inductive SkipReason
  /-- The relation between two datatypes is a field of one of them. -/
  | datatypeRelation
  /-- The ends of a derivation are not read through accessors. -/
  | derivationRelation
  /-- The owner has no counterpart. -/
  | unrepresentedOwner
  /-- The type of the attribute has no signature. -/
  | unrepresentedType
deriving DecidableEq, Repr

/-- The two ends of a relation. -/
inductive EndSide
  | source | target
deriving DecidableEq, Repr

/-- What a property contributes to the module. -/
inductive PropertyRole
  | datatypeAttribute (owner : Class)
  | orderedAttribute (owner : Class)
  | plainAttribute (owner : Class)
  | relationEnd (r : Relation) (side : EndSide)
  | skipped (reason : SkipReason)
deriving DecidableEq, Repr

namespace Model

/-- The type of the property is missing or has a signature. -/
def mayHaveValues (m : Model) (p : Property) : Bool :=
  match m.typeOf p with
  | some x => x.hasSignature
  | none => true

/-- The role of an attribute follows from its owner, then its type, then its order. -/
def attributeRole (m : Model) (c : Class) (p : Property) : PropertyRole :=
  -- a datatype keeps its attributes inside, so it needs no world field
  if c.isDatatype then .datatypeAttribute c
  else if !c.hasWorldField then .skipped .unrepresentedOwner
  else if !m.mayHaveValues p then .skipped .unrepresentedType
  else if p.isOrdered then .orderedAttribute c
  else .plainAttribute c

/-- The end with the id of the first one is the source end, every other one a target end. -/
def endRole (m : Model) (r : Relation) (p : Property) : PropertyRole :=
  -- such a relation is an inline field, which has no ends to read
  if m.holdsBetweenDatatypes r then .skipped .datatypeRelation
  else if r.isDerivation then .skipped .derivationRelation
  else if !m.isRepresented r then .skipped .unrepresentedOwner
  else if r.isSourceEnd p then .relationEnd r .source
  else .relationEnd r .target

/-- The role of a property of either kind of owner. -/
def roleOf (m : Model) (owner : Classifier) (p : Property) : PropertyRole :=
  match owner with
  | .ofClass c => m.attributeRole c p
  | .ofRelation r => m.endRole r p

end Model

end OntoWorlds
