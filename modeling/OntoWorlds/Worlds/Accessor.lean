import OntoWorlds.Worlds.Field
import OntoWorlds.Worlds.PropertyRole

/-!
# OntoWorlds — encoding properties

An attribute of a datatype is an inline field. An attribute of a class of endurants is a world
field with an accessor; so is an ordered one, as an indexed field. The end of a relation has an
accessor only, from the instances at the opposite end, since the relation has its field already.

Values that never change are stated to be immutable, and a multiplicity that no keyword expresses
is stated as a fact about the accessor.
-/

namespace OntoWorlds

open Alloy

/-! ## Types of attributes -/

/-- The signature that the values of an attribute belong to. -/
inductive ValueSignature
  | ofClass (c : Class)
  | base (b : BaseSignature)
deriving DecidableEq, Repr

namespace ValueSignature

/-- A datatype or enumeration is called by its name; base signatures need no request. -/
def requests : ValueSignature → List Request
  | ofClass c => [c.label.request]
  | base _ => []

/-- The name of the signature in the module. -/
def name (n : Names) : ValueSignature → String
  | ofClass c => n.own c.id
  | base b => b.word

end ValueSignature

/-- Datatypes and enumerations are signatures, endurants belong to a base signature. -/
def Class.valueSignature? (c : Class) : Option ValueSignature :=
  if c.isValueType then some (.ofClass c) else c.base?.map .base

namespace Model

/-- The signature of the type of a property, or the defect that it has none. -/
def valueSignature (m : Model) (p : Property) : Except Defect ValueSignature :=
  match m.typeOf p with
  | some (.ofClass c) =>
    -- a class that is neither a value type nor drawn from a base has no values to offer
    match c.valueSignature? with
    | some s => .ok s
    | none => .error (.unresolvedType p.id)
  | _ => .error (.unresolvedType p.id)

end Model

/-! ## Constraints -/

namespace Multiplicity

/-- A fact that states the bounds, if there are any. -/
def boundsFact (m : Multiplicity) (counted : Counted) : List Fragment :=
  match Bounds.of? m with
  | some bounds => [.fact (.multiplicity counted bounds)]
  | none => []

/-- The same for a range without a keyword; a keyword needs no fact. -/
def customFact (m : Multiplicity) (counted : Counted) : List Fragment :=
  if m.isCustom then m.boundsFact counted else []

end Multiplicity

/-! ## Attributes -/

namespace Property

/-- Values that are read-only are the same in every world. -/
def attributeImmutability (p : Property) (owner name : String) : List Fragment :=
  if p.isReadOnly then [.immutability (.target owner name)] else []

/-- An attribute of a datatype. -/
def inlineFragments (p : Property) (owner : Class) (s : ValueSignature) (k : Multiplicity)
    (n : Names) : List Fragment :=
  .inlineField (n.own owner.id) ⟨n.own p.id, some k.quantifier, s.name n⟩
    :: k.customFact (.inline (n.own owner.id) (n.own p.id))

/-- An ordered attribute of a class of endurants: an indexed field with an accessor for its
elements. -/
def orderedFragments (p : Property) (owner : Class) (s : ValueSignature) (n : Names) :
    List Fragment :=
  [.worldField ⟨n.own p.id, .indexed (n.own owner.id) (s.name n)⟩,
    .fact (.functionalOrdering (.inWorld (n.own owner.id)) (n.own p.id)),
    .accessor ⟨n.alias p.id, .acrossWorlds (n.own owner.id), .signature (s.name n),
      .elements (n.own p.id)⟩]
    ++ p.attributeImmutability (n.own owner.id) (n.own p.id)

/-- An attribute of a class of endurants: a binary field with its accessor, and a selector that
shows its values. -/
def plainFragments (p : Property) (owner : Class) (s : ValueSignature) (k : Multiplicity)
    (n : Names) : List Fragment :=
  [.worldField ⟨n.own p.id, .binary (n.own owner.id) .set k.quantifier (s.name n)⟩,
    .accessor ⟨n.alias p.id, .acrossWorlds (n.own owner.id), .signature (s.name n),
      .image (.whole (n.own p.id))⟩]
    ++ p.attributeImmutability (n.own owner.id) (n.own p.id)
    ++ k.customFact (.accessed (.inWorld (n.own owner.id)) (n.alias p.id))
    ++ [.selector ⟨n.own p.id⟩]

end Property

namespace Model

/-- The type is looked at before the multiplicity. -/
def datatypeAttributeStep (m : Model) (owner : Class) (p : Property) : Step :=
  let typed := Step.given (m.valueSignature p) fun s =>
    (Step.given p.multiplicity fun k =>
      { fragments := p.inlineFragments owner s k }).requesting s.requests
  typed.requesting [p.label.request, owner.label.request]

/-- The values of a sequence are not counted. -/
def orderedAttributeStep (m : Model) (owner : Class) (p : Property) : Step :=
  let typed := Step.given (m.valueSignature p) fun s =>
    { requests := s.requests ++ [.aliasLike p.id p.id]
      fragments := p.orderedFragments owner s }
  typed.requesting [p.label.request, owner.label.request]

/-- The name of the accessor is requested last, when nothing can fail any more. -/
def plainAttributeStep (m : Model) (owner : Class) (p : Property) : Step :=
  let typed := Step.given (m.valueSignature p) fun s =>
    (Step.given p.multiplicity fun k =>
      { requests := [.aliasLike p.id p.id]
        fragments := p.plainFragments owner s k }).requesting s.requests
  typed.requesting [p.label.request, owner.label.request]

end Model

/-! ## Relation ends -/

/-- A relation end seen from the end itself. -/
structure EndView where
  relation : Relation
  property : Property
  side : EndSide
  own : Classifier
  opposite : Classifier
deriving DecidableEq, Repr

namespace EndView

/-- The view from one of the sides: its own type and the type opposite. -/
def ofEnds (r : Relation) (p : Property) (side : EndSide) (e : Ends) : EndView :=
  match side with
  | .source => ⟨r, p, side, e.source, e.target⟩
  | .target => ⟨r, p, side, e.target, e.source⟩

/-- An end without a name is called after its type. -/
def named (v : EndView) : ElementId :=
  if v.property.label.isNamed then v.property.id else v.own.id

/-- The field and both types are named first; the accessor is an alias of what the end is called
after. -/
def requests (v : EndView) : List Request :=
  -- the types are named before the end itself
  [v.relation.fieldRequest, v.own.label.request, v.opposite.label.request]
    ++ (if v.property.label.isNamed then [v.property.label.request] else [])
    ++ [.aliasLike v.property.id v.named]

/-- The field has a column between those of the two ends. -/
def hasMiddleColumn (m : Model) (v : EndView) : Bool :=
  m.isDerivedMaterial v.relation || v.relation.hasOrderedEnd

/-- The field between the two ends, without its middle column if it has one. -/
def projection (m : Model) (v : EndView) (n : Names) : Projection :=
  if v.hasMiddleColumn m then .outer (v.relation.fieldName n) else .whole (v.relation.fieldName n)

/-- From the instances opposite, in any world, to those of the end. -/
def accessor (m : Model) (v : EndView) (n : Names) : Accessor where
  name := n.alias v.property.id
  domain := v.opposite.acrossWorlds (n.own v.opposite.id)
  range := v.own.acrossWorlds (n.own v.own.id)
  -- the accessor reads the field against its direction if it leads to the source
  body := match v.side with
    | .source => .preimage (v.projection m n)
    | .target => .image (v.projection m n)

/-- Mediations and characterizations never change their target. -/
def immutability (v : EndView) (n : Names) : List Fragment :=
  match v.side with
  | .source =>
    if v.property.isReadOnly then
      [.immutability (.source (n.own v.opposite.id) (v.relation.fieldName n))]
    else []
  | .target =>
    if v.property.isReadOnly || v.relation.isMediation || v.relation.isCharacterization then
      [.immutability (.target (n.own v.opposite.id) (v.relation.fieldName n))]
    else []

/-- What the multiplicity of the end counts: the values of its accessor, for each instance opposite.
-/
def counted (v : EndView) (n : Names) : Counted :=
  .accessed (v.opposite.inWorld (n.own v.opposite.id)) (n.alias v.property.id)

/-- The field of a derived relation carries no keyword, so all of its bounds are stated. -/
def multiplicityFact (m : Model) (v : EndView) (k : Multiplicity) (n : Names) : List Fragment :=
  -- a custom range has no keyword in any field
  if k.isCustom || m.isDerivedMaterial v.relation then k.boundsFact (v.counted n) else []

/-- The accessor comes first; only then is the multiplicity looked at. -/
def step (m : Model) (v : EndView) : Step :=
  let bounded := Step.given v.property.multiplicity fun k => { fragments := v.multiplicityFact m k }
  (bounded.emitting fun n => .accessor (v.accessor m n) :: v.immutability n).requesting v.requests

end EndView

namespace Model

/-- The step of an end of a relation that has both ends. -/
def relationEndStep (m : Model) (r : Relation) (p : Property) (side : EndSide) : Step :=
  .given (m.endsOf r) fun e => (EndView.ofEnds r p side e).step m

/-! ## Properties -/

/-- The step of a property, by its role. -/
def propertyStep (m : Model) (owner : Classifier) (p : Property) : Step :=
  match m.roleOf owner p with
  | .datatypeAttribute c => m.datatypeAttributeStep c p
  | .orderedAttribute c => m.orderedAttributeStep c p
  | .plainAttribute c => m.plainAttributeStep c p
  | .relationEnd r side => m.relationEndStep r p side
  | .skipped _ => .skip

end Model

end OntoWorlds
