import OntoWorlds.Worlds.Subsumption

/-!
# OntoWorlds — encoding relations

The shape of a relation's field depends on its place in the model: an inline field between two
datatypes, a field with a middle column for a material relation that is derived from a relator, an
indexed one if an end is ordered, else a plain binary one with the multiplicities of its ends. A
derivation has no field; it states how the derived relation follows from the mediations of the
relator.
-/

namespace OntoWorlds

open Alloy

/-- The two ends of a relation and what types them. -/
structure Ends where
  sourceEnd : Property
  targetEnd : Property
  source : Classifier
  target : Classifier
deriving DecidableEq, Repr

namespace Model

/-- The type of a property, which has to be in the model. -/
def resolveType (m : Model) (p : Property) : Except Defect Classifier :=
  match m.typeOf p with
  | some x => .ok x
  | none => .error (.unresolvedType p.id)

/-- The ends of a relation that has two, each with its type. -/
def endsOf (m : Model) (r : Relation) : Except Defect Ends :=
  match r.sourceEnd, r.targetEnd with
  | some sourceEnd, some targetEnd => do
    let source ← m.resolveType sourceEnd
    let target ← m.resolveType targetEnd
    return ⟨sourceEnd, targetEnd, source, target⟩
  | _, _ => .error (.missingRelationEnd r.id)

end Model

/-! ## Fields -/

namespace Relation

/-- A field of the source datatype. -/
def inlineStep (r : Relation) (e : Ends) : Step where
  requests := [r.fieldRequest, e.source.label.request, e.target.label.request]
  fragments n := [.inlineField (n.own e.source.id) ⟨r.fieldName n, none, n.own e.target.id⟩]

/-- A field with the relators in the middle. -/
def foundedStep (r : Relation) (e : Ends) (relator : Classifier) : Step where
  requests := [relator.label.request]
  fragments n :=
    [.worldField ⟨r.fieldName n,
      .founded (n.own e.source.id) (n.own relator.id) (n.own e.target.id)⟩]

/-- A field of sequences, and the fact that makes its positions follow each other. -/
def indexedStep (r : Relation) (e : Ends) : Step where
  fragments n :=
    [.worldField ⟨r.fieldName n, .indexed (n.own e.source.id) (n.own e.target.id)⟩,
      .fact (.ordering (e.source.inWorld (n.own e.source.id)) (r.fieldName n))]

/-- A field with the quantifiers of both ends, the source end read first. -/
def binaryStep (r : Relation) (e : Ends) : Step :=
  .given e.sourceEnd.multiplicity fun atSource =>
  .given e.targetEnd.multiplicity fun atTarget =>
    { fragments := fun n =>
        [.worldField ⟨r.fieldName n,
          .binary (n.own e.source.id) atSource.quantifier atTarget.quantifier
            (n.own e.target.id)⟩] }

end Relation

namespace Model

/-- What founds a derived material relation: the target of its derivation. -/
def founderOf (m : Model) (r : Relation) : Option (Except Defect Classifier) :=
  match m.derivationOf r with
  | some derivation =>
    if m.isDerivedMaterial r then some ((m.endsOf derivation).map (·.target)) else none
  | none => none

/-- The field of a relation between represented elements, shaped by its place in the model. -/
def fieldStep (m : Model) (r : Relation) (e : Ends) : Step :=
  -- what founds the relation, if anything does, decides the shape before its ends do
  let shaped := match m.founderOf r with
    | some founder => Step.given founder (r.foundedStep e)
    | none => if r.hasOrderedEnd then r.indexedStep e else r.binaryStep e
  shaped.requesting [r.fieldRequest, e.source.label.request, e.target.label.request]

/-! ## Derivations -/

/-- The first mediation whose ends are typed by the two elements. -/
def findMediation (m : Model) (relator mediated : ElementId) : Option Relation :=
  m.relations.find? fun r =>
    r.isMediation && match m.sourceOf r, m.targetOf r with
      | some source, some target => source.id == relator && target.id == mediated
      | _, _ => false

/-- The relation holds by a relator exactly between what the relator mediates. -/
def derivationStep (m : Model) (material : Relation) (relator : Class) : Step :=
  .given (m.endsOf material) fun e =>
    -- a relator that mediates only one of the ends leaves the relation unconstrained
    match m.findMediation relator.id e.source.id, m.findMediation relator.id e.target.id with
    | some atSource, some atTarget =>
      { requests := [material.fieldRequest, atSource.fieldRequest, atTarget.fieldRequest,
          relator.label.request, e.source.label.request, e.target.label.request]
        fragments := fun n =>
          [.fact (.derivation (e.source.inWorld (n.own e.source.id))
            (e.target.inWorld (n.own e.target.id)) (n.own relator.id) (material.fieldName n)
            (atSource.fieldName n) (atTarget.fieldName n))] }
    | _, _ => .skip

/-! ## Relations -/

/-- The step of a relation. Relations between datatypes come first, since they have no world field.
-/
def relationStep (m : Model) (r : Relation) : Step :=
  .given (m.endsOf r) fun e =>
    if m.holdsBetweenDatatypes r then r.inlineStep e
    else if !m.isRepresented r then .skip
    else if r.isDerivation then
      -- only a relation that is derived from a relator, in this direction
      match e.source, e.target with
      | .ofRelation material, .ofClass relator => m.derivationStep material relator
      | _, _ => .skip
    else m.fieldStep r e

end Model

end OntoWorlds
