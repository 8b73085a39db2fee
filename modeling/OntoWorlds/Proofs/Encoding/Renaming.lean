import Mathlib.Data.List.Basic
import OntoWorlds.Proofs.Ontology.Renaming
import OntoWorlds.Worlds.Session

/-!
# OntoWorlds — runs do not depend on the spelling of ids

A run on a renamed model goes along with the run on the model itself: at every point its registry
holds the same identifiers for the renamed ids, it has emitted the same fragments, and its visited
properties are the renamed ones. So both runs end in the same module, or in the same defect up to
the ids that the defect names.

* `Step.rename` — the step for the renamed element: renamed requests, and fragments that look up
  names under the renamed ids.
* `stepOf_rename` — every task of the renamed model is such a step, one lemma per kind of task.
* `Session.perform_rename`, `Session.performAll_rename` — the two runs stay in step.
* `Model.encode_rename` — the result of a run commutes with the renaming.
-/

namespace OntoWorlds

open Alloy

variable (s : ElementId ↪ ElementId)

/-! ## Renamed requests, defects and steps -/

/-- A request is made for a renamed id, from the same base. -/
def Request.rename : Request → Request
  | .name id base => .name (s id) base
  | .alias id base => .alias (s id) base
  | .aliasLike id other => .aliasLike (s id) (s other)

/-- The ids that a defect names are renamed; the text of a malformed cardinality stays. -/
def Defect.rename : Defect → Defect
  | .unresolvedType p => .unresolvedType (s p)
  | .missingRelationEnd r => .missingRelationEnd (s r)
  | .invalidCardinality e => .invalidCardinality e
  | .danglingReference o e => .danglingReference (s o) (s e)

/-- The names that the renamed ids have been given, seen from the ids themselves. -/
def Names.comap (n : Names) : Names where
  own id := n.own (s id)
  «alias» id := n.alias (s id)

/-- Renamed requests, the same fragments under the names of the renamed ids, and the renamed defect.
-/
def Step.rename (st : Step) : Step where
  requests := st.requests.map (Request.rename s)
  fragments n := st.fragments (n.comap s)
  failure := st.failure.map (Defect.rename s)

/-- Both ends of a relation with their types. -/
def Ends.rename (e : Ends) : Ends :=
  ⟨e.sourceEnd.rename s, e.targetEnd.rename s, e.source.rename s, e.target.rename s⟩

/-- The signature of a class goes by its id, a base signature has none. -/
def ValueSignature.rename : ValueSignature → ValueSignature
  | ofClass c => ofClass (c.rename s)
  | base b => base b

/-- Everything that the step of an end looks at is renamed. -/
def EndView.rename (v : EndView) : EndView :=
  ⟨v.relation.rename s, v.property.rename s, v.side, v.own.rename s, v.opposite.rename s⟩

/-- The requests and the compared elements of a generalization. -/
def Subsumption.rename (t : Subsumption) : Subsumption where
  requests := t.requests.map (Request.rename s)
  fields := t.fields.map (Prod.map (Classifier.rename s) (Classifier.rename s))

/-- The task for the renamed element. -/
def Task.rename : Task → Task
  | klass c => klass (c.rename s)
  | coverings => coverings
  | generalization g => generalization (g.rename s)
  | generalizationSet t => generalizationSet (t.rename s)
  | relation r => relation (r.rename s)
  | property x p => property (x.rename s) (p.rename s)

variable {s}

/-- A name is requested for the renamed id, from a base that the renaming leaves alone. -/
@[simp] theorem Label.request_rename (l : Label) :
    (l.rename s).request = l.request.rename s := rfl

/-- A named relation requests its own name, an unnamed one an alias. -/
@[simp] theorem Relation.fieldRequest_rename (r : Relation) :
    (r.rename s).fieldRequest = r.fieldRequest.rename s := by
  -- whether the relation is named is seen from its label
  rw [fieldRequest, fieldRequest, apply_ite (Request.rename s)]
  rfl

/-- Fields are named through the ids of their elements, so both runs print the same name. -/
@[simp] theorem Relation.fieldName_rename (r : Relation) (n : Names) :
    (r.rename s).fieldName n = r.fieldName (n.comap s) := rfl

@[simp] theorem Classifier.fieldRequest_rename (x : Classifier) :
    (x.rename s).fieldRequest = x.fieldRequest.rename s := by
  cases x with
  | ofClass c => rfl
  | ofRelation r => exact r.fieldRequest_rename

@[simp] theorem Classifier.fieldName_rename (x : Classifier) (n : Names) :
    (x.rename s).fieldName n = x.fieldName (n.comap s) := by
  cases x <;> rfl

namespace Step

/-- A skipped element is skipped. -/
@[simp] theorem rename_skip : skip.rename s = skip := rfl

/-- Renamed requests before a renamed step. -/
theorem requesting_rename {qs qs' : List Request} (hqs : qs' = qs.map (Request.rename s))
    {st st' : Step} (h : st' = st.rename s) : st'.requesting qs' = (st.requesting qs).rename s := by
  subst hqs h
  simp [requesting, rename]

/-- A value found in the renamed model is the renamed value, or the renamed defect. -/
theorem given_rename {α : Type} {e e' : Except Defect α} {f : α → α}
    (he : e' = (e.map f).mapError (Defect.rename s)) {next next' : α → Step}
    (h : ∀ a, next' (f a) = (next a).rename s) : given e' next' = (given e next).rename s := by
  subst he
  cases e with
  | error d => rfl
  | ok a => exact h a

end Step

/-- Steps are the same if their parts are. -/
theorem Step.eq_of {a b : Step} (hrequests : a.requests = b.requests)
    (hfragments : ∀ n, a.fragments n = b.fragments n) (hfailure : a.failure = b.failure) :
    a = b := by
  obtain ⟨ra, fa, da⟩ := a
  obtain ⟨rb, fb, db⟩ := b
  obtain rfl : fa = fb := funext hfragments
  subst hrequests hfailure
  rfl

/-! ## Classes -/

/-- An enumeration requests a name for itself and for its literals. -/
theorem Class.enumerationStep_rename (c : Class) :
    (c.rename s).enumerationStep = c.enumerationStep.rename s := by
  apply Step.eq_of
  · -- its requests, in which the literals come renamed
    show c.label.declaredRequest.rename s :: (c.literals.map (Literal.rename s)).map _ = _
    rw [List.map_map]
    simp [enumerationStep, Step.rename, Function.comp_def]
  · -- its fragment, in which the names of the literals are looked up
    intro n
    show [Fragment.enumeration ⟨_, (c.literals.map (Literal.rename s)).map _⟩] = _
    rw [List.map_map]
    rfl
  · rfl

/-- The step of a class depends on its stereotype and literals, not on its id. -/
theorem Class.step_rename (c : Class) : (c.rename s).step = c.step.rename s := by
  have hliterals : (c.rename s).literals.isEmpty = c.literals.isEmpty := by simp [rename]
  have hdatatype : (c.rename s).datatypeStep = c.datatypeStep.rename s := rfl
  rw [step, step, hliterals, hdatatype, enumerationStep_rename, base?_rename]
  simp only [apply_ite (Step.rename s)]
  cases c.base? <;> rfl

namespace Model

variable (m : Model)

/-- The classes that cover a base are found by stereotype, so these are the renamed ones. -/
theorem covering_rename (b : BaseSignature) :
    (m.rename s).covering b = (m.covering b).map (Class.rename s) := by
  show (m.classes.map (Class.rename s)).filter _ = _
  rw [List.filter_map]
  rfl

/-- The classes of a covering are named through their ids. -/
theorem coveringFragment_rename (n : Names) (b : BaseSignature) :
    (m.rename s).coveringFragment n b = m.coveringFragment (n.comap s) b := by
  rw [coveringFragment, coveringFragment, covering_rename, List.isEmpty_map, List.map_map]
  rfl

/-- The coverings request the names of the coverers and emit one fragment for each base. -/
theorem coveringStep_rename : (m.rename s).coveringStep = m.coveringStep.rename s := by
  apply Step.eq_of
  · -- the requests of all coverers, whichever base they cover
    show ((m.classes.map (Class.rename s)).filter _).map _ = ((m.classes.filter _).map _).map _
    rw [List.filter_map, List.map_map, List.map_map]
    rfl
  · intro n
    -- the coverers of objects come first, then those of aspects
    show (m.rename s).coveringFragment n .object ++ (m.rename s).coveringFragment n .aspect = _
    rw [coveringFragment_rename, coveringFragment_rename]
    rfl
  · rfl

/-! ## Generalizations -/

/-- A reference is resolved to the renamed element, or dangles under its renamed id. -/
theorem resolve_rename (owner i : ElementId) :
    (m.rename s).resolve (s owner) (s i) =
      ((m.resolve owner i).map (Classifier.rename s)).mapError (Defect.rename s) := by
  rw [resolve, resolve, find_rename]
  cases m.find i <;> rfl

/-- Which fields are requested and compared depends on the sort of the two elements and on which of
them have a field. -/
theorem subsumption_rename (x y : Classifier) :
    (m.rename s).subsumption (x.rename s) (y.rename s) = (m.subsumption x y).rename s := by
  -- the elements with a field are the renamed ones, in the same order
  have hrequests : ([x.rename s, y.rename s].filter (m.rename s).hasField).map
        Classifier.fieldRequest =
      (([x, y].filter m.hasField).map Classifier.fieldRequest).map (Request.rename s) := by
    rw [show [x.rename s, y.rename s] = [x, y].map (Classifier.rename s) from rfl,
      List.filter_map, List.map_map, List.map_map]
    congr 1
    · funext z
      exact z.fieldRequest_rename
    · congr 1
      funext z
      exact hasField_rename m z
  rw [subsumption, subsumption, Classifier.isLike_rename, hrequests, hasField_rename,
    hasField_rename, apply_ite (Subsumption.rename s)]
  congr 1
  rw [Subsumption.rename, apply_ite (Option.map _)]
  rfl

/-- A generalization of the renamed model resolves its general before its specific, as before. -/
theorem subsumptionOf_rename (g : Generalization) :
    (m.rename s).subsumptionOf (g.rename s) =
      ((m.subsumptionOf g).map (Subsumption.rename s)).mapError (Defect.rename s) := by
  rw [subsumptionOf, subsumptionOf]
  -- the look-ups of both ends, with the references renamed
  show (do
    let x ← (m.rename s).resolve (s g.id) (s g.general)
    let y ← (m.rename s).resolve (s g.id) (s g.specific)
    return (m.rename s).subsumption x y : Except Defect Subsumption) = _
  rw [resolve_rename, resolve_rename]
  -- a general that dangles is reported before the specific is looked at
  cases m.resolve g.id g.general with
  | error d => rfl
  | ok x =>
    cases m.resolve g.id g.specific with
    | error d => rfl
    | ok y => exact congrArg Except.ok (subsumption_rename m x y)

/-- The step for a generalization compares the two fields if both are there. -/
theorem generalizationStep_rename (g : Generalization) :
    (m.rename s).generalizationStep (g.rename s) = (m.generalizationStep g).rename s := by
  apply Step.given_rename (subsumptionOf_rename m g)
  intro t
  apply Step.eq_of
  · rfl
  · intro n
    -- with both fields the fact compares them, and without one there is no fact
    obtain ⟨requests, fields⟩ := t
    cases fields with
    | none => rfl
    | some xy => simp [Subsumption.rename, Step.rename]
  · rfl

end Model

/-! ## Generalization sets -/

/-- The lines of a set are made of the fields of its members, under the names of the renamed ids. -/
theorem GeneralizationSet.fragments_rename (t : GeneralizationSet)
    (members : List (Classifier × Classifier)) (n : Names) :
    (t.rename s).fragments
        (members.map (Prod.map (Classifier.rename s) (Classifier.rename s))) n =
      t.fragments members (n.comap s) := by
  have hlines : (t.rename s).lines
      (members.map (Prod.map (Classifier.rename s) (Classifier.rename s))) n =
      t.lines members (n.comap s) := by
    have hspecifics : ((fun x : Classifier × Classifier => x.2.fieldName n) ∘
        Prod.map (Classifier.rename s) (Classifier.rename s)) =
        fun x => x.2.fieldName (n.comap s) := by
      funext x
      exact x.2.fieldName_rename n
    unfold lines
    -- disjointness is stated for the specifics, completeness for the general of the first member
    rw [List.map_map, hspecifics, show (t.rename s).isComplete = t.isComplete from rfl]
    cases t.isComplete with
    | false => rfl
    | true =>
      cases members with
      | nil => rfl
      | cons x xs => simp [rename]
  rw [fragments, fragments, hlines]

namespace Model

variable (m : Model)

/-- Walking through the members of the renamed set finds the renamed members, from any pairs seen so
far. -/
theorem membersStep_rename (t : GeneralizationSet) (members : List ElementId)
    (seen : List (Classifier × Classifier)) :
    (m.rename s).membersStep (t.rename s) (members.map s)
        (seen.map (Prod.map (Classifier.rename s) (Classifier.rename s))) =
      (m.membersStep t members seen).rename s := by
  -- by induction on the members that are left, for every list of pairs seen
  induction members generalizing seen with
  | nil =>
    -- all members have been seen, and the fragments are made of them
    apply Step.eq_of
    · rfl
    · exact fun n => t.fragments_rename seen n
    · rfl
  | cons i rest ih =>
    rw [List.map_cons, membersStep, membersStep, findGeneralization_rename]
    cases m.findGeneralization i with
    -- a member that is not found is the defect, under its renamed id
    | none => rfl
    | some g =>
      apply Step.given_rename (subsumptionOf_rename m g)
      intro u
      apply Step.requesting_rename rfl
      -- a member with fields joins those seen, renamed with them
      cases hu : u.fields with
      | none => simp [Subsumption.rename, hu]
      | some xy =>
        simp only [Subsumption.rename, hu, Option.map_some]
        rw [← ih, List.map_append]
        rfl

/-- A set that is neither disjoint nor complete is skipped, before and after the renaming. -/
theorem generalizationSetStep_rename (t : GeneralizationSet) :
    (m.rename s).generalizationSetStep (t.rename s) = (m.generalizationSetStep t).rename s := by
  rw [generalizationSetStep, generalizationSetStep, apply_ite (Step.rename s)]
  -- only the walk through the members is left to compare
  congr 1
  exact membersStep_rename m t t.members []

end Model

/-! ## Relations -/

/-- A cardinality is read from a text that the renaming leaves alone; the right side has the form
that `Step.given_rename` asks for. -/
theorem Property.multiplicity_rename (p : Property) :
    (p.rename s).multiplicity = (p.multiplicity.map fun k => k).mapError (Defect.rename s) := by
  have hsame : (p.rename s).cardinality = p.cardinality := rfl
  rw [multiplicity, multiplicity, hsame]
  cases Multiplicity.parse p.cardinality <;> rfl

namespace Relation

/-- A relation between datatypes is a field of the first of them. -/
theorem inlineStep_rename (r : Relation) (e : Ends) :
    (r.rename s).inlineStep (e.rename s) = (r.inlineStep e).rename s := by
  apply Step.eq_of
  · simp [inlineStep, Step.rename, Ends.rename]
  · intro n
    simp only [inlineStep, Ends.rename, Classifier.id_rename, fieldName_rename]
    rfl
  · rfl

/-- A derived material relation has a field with the relator in the middle. -/
theorem foundedStep_rename (r : Relation) (e : Ends) (x : Classifier) :
    (r.rename s).foundedStep (e.rename s) (x.rename s) = (r.foundedStep e x).rename s := by
  apply Step.eq_of
  · simp [foundedStep, Step.rename]
  · intro n
    simp only [foundedStep, Ends.rename, Classifier.id_rename, fieldName_rename]
    rfl
  · rfl

/-- A relation with an ordered end has a field with an index. -/
theorem indexedStep_rename (r : Relation) (e : Ends) :
    (r.rename s).indexedStep (e.rename s) = (r.indexedStep e).rename s := by
  apply Step.eq_of
  · rfl
  · intro n
    simp only [indexedStep, Ends.rename, Classifier.id_rename, Classifier.inWorld_rename,
      fieldName_rename]
    rfl
  · rfl

/-- Any other relation has a field with two columns and their multiplicities. -/
theorem binaryStep_rename (r : Relation) (e : Ends) :
    (r.rename s).binaryStep (e.rename s) = (r.binaryStep e).rename s := by
  -- the cardinalities of both ends are read before the field is declared
  apply Step.given_rename e.sourceEnd.multiplicity_rename
  intro atSource
  apply Step.given_rename e.targetEnd.multiplicity_rename
  intro atTarget
  apply Step.eq_of
  · rfl
  · intro n
    simp only [Ends.rename, Classifier.id_rename, fieldName_rename]
    rfl
  · rfl

end Relation

namespace Model

variable (m : Model)

/-- A type that is not found is reported for the renamed property. -/
theorem resolveType_rename (p : Property) :
    (m.rename s).resolveType (p.rename s) =
      ((m.resolveType p).map (Classifier.rename s)).mapError (Defect.rename s) := by
  rw [resolveType, resolveType, typeOf_rename]
  cases m.typeOf p <;> rfl

/-- A relation has both ends with their types, or the defect of the first thing that is missing. -/
theorem endsOf_rename (r : Relation) :
    (m.rename s).endsOf (r.rename s) =
      ((m.endsOf r).map (Ends.rename s)).mapError (Defect.rename s) := by
  rw [endsOf, endsOf, Relation.sourceEnd_rename, Relation.targetEnd_rename]
  -- an end that is missing is the defect of the relation
  cases r.sourceEnd with
  | none => rfl
  | some p =>
    cases r.targetEnd with
    | none => rfl
    | some q =>
      simp only [Option.map_some]
      rw [resolveType_rename, resolveType_rename]
      -- with both ends there, the first type that is not found is the defect
      cases m.resolveType p with
      | error d => rfl
      | ok x => cases m.resolveType q <;> rfl

/-- The founder of a renamed relation is the renamed founder, or its renamed defect. -/
theorem founderOf_rename (r : Relation) :
    (m.rename s).founderOf (r.rename s) =
      (m.founderOf r).map fun e => (e.map (Classifier.rename s)).mapError (Defect.rename s) := by
  rw [founderOf, founderOf, derivationOf_rename, isDerivedMaterial_rename]
  cases m.derivationOf r with
  | none => rfl
  | some d =>
    -- the relator is what the derivation leads to, if its ends are found
    simp only [Option.map_some]
    rw [endsOf_rename, apply_ite (Option.map _)]
    cases m.endsOf d <;> rfl

/-- The field of a relation, by whichever of the steps declares it. -/
theorem fieldStep_rename (r : Relation) (e : Ends) :
    (m.rename s).fieldStep (r.rename s) (e.rename s) = (m.fieldStep r e).rename s := by
  have hrequests : [(r.rename s).fieldRequest, (e.rename s).source.label.request,
      (e.rename s).target.label.request] =
      [r.fieldRequest, e.source.label.request, e.target.label.request].map
        (Request.rename s) := by
    simp [Ends.rename]
  apply Step.requesting_rename hrequests
  rw [founderOf_rename]
  -- a field founded on a relator, or else one with or without an index
  cases m.founderOf r with
  | some founder =>
    simp only [Option.map_some]
    exact Step.given_rename rfl fun x => r.foundedStep_rename e x
  | none =>
    simp only [Option.map_none]
    rw [Relation.hasOrderedEnd_rename, apply_ite (Step.rename s), r.indexedStep_rename e,
      r.binaryStep_rename e]

/-- A mediation is found by the ids of the relator and of what it mediates. -/
theorem findMediation_rename (i j : ElementId) :
    (m.rename s).findMediation (s i) (s j) = (m.findMediation i j).map (Relation.rename s) := by
  show (m.relations.map (Relation.rename s)).find? _ = (m.relations.find? _).map _
  rw [List.find?_map]
  congr 2
  funext r
  -- a relation mediates between the renamed elements exactly if it has done so before
  simp only [Function.comp_apply, Relation.isMediation_rename, sourceOf_rename, targetOf_rename]
  cases m.sourceOf r with
  | none => rfl
  | some x =>
    cases m.targetOf r with
    | none => rfl
    | some y => simp

/-- The fact of a derivation needs both mediations; without one of them the step is skipped. -/
theorem derivationStep_rename (material : Relation) (relator : Class) :
    (m.rename s).derivationStep (material.rename s) (relator.rename s) =
      (m.derivationStep material relator).rename s := by
  apply Step.given_rename (endsOf_rename m material)
  intro e
  -- both mediations are looked for between renamed ids, so the renamed ones are found
  have hsource : (m.rename s).findMediation (relator.rename s).id (e.rename s).source.id =
      (m.findMediation relator.id e.source.id).map (Relation.rename s) := by
    rw [← findMediation_rename, ← Classifier.id_rename]
    rfl
  have htarget : (m.rename s).findMediation (relator.rename s).id (e.rename s).target.id =
      (m.findMediation relator.id e.target.id).map (Relation.rename s) := by
    rw [← findMediation_rename, ← Classifier.id_rename]
    rfl
  rw [hsource, htarget]
  cases m.findMediation relator.id e.source.id with
  | none => rfl
  | some a =>
    cases m.findMediation relator.id e.target.id with
    | none => rfl
    | some b =>
      apply Step.eq_of
      · simp [Step.rename, Ends.rename]
      · intro n
        simp only [Option.map_some, Ends.rename, Classifier.id_rename, Classifier.inWorld_rename,
          Relation.fieldName_rename]
        rfl
      · rfl

/-- The step of a relation: inlined, skipped, a derivation or a field, as its ends and its
stereotype say. -/
theorem relationStep_rename (r : Relation) :
    (m.rename s).relationStep (r.rename s) = (m.relationStep r).rename s := by
  apply Step.given_rename (endsOf_rename m r)
  intro e
  rw [holdsBetweenDatatypes_rename, isRepresented_rename, Relation.isDerivation_rename,
    r.inlineStep_rename, fieldStep_rename]
  simp only [apply_ite (Step.rename s)]
  congr 2
  -- a derivation has a step of its own if it leads from a relation to a class
  rw [show (e.rename s).source = e.source.rename s from rfl,
    show (e.rename s).target = e.target.rename s from rfl]
  cases e.source with
  | ofClass c => rfl
  | ofRelation material =>
    cases e.target with
    | ofClass relator => simp only [Classifier.rename, derivationStep_rename]
    | ofRelation _ => rfl

end Model

/-! ## Properties -/

/-- The signature of values is named by a request for its class, if it has one. -/
theorem ValueSignature.requests_rename (v : ValueSignature) :
    (v.rename s).requests = v.requests.map (Request.rename s) := by
  cases v <;> rfl

/-- A base signature has a fixed name. -/
theorem ValueSignature.name_rename (v : ValueSignature) (n : Names) :
    (v.rename s).name n = v.name (n.comap s) := by
  cases v <;> rfl

/-- The requests of an attribute, whichever of the kinds it is. -/
theorem Class.requests_rename (c : Class) (p : Property) :
    [(p.rename s).label.request, (c.rename s).label.request] =
      [p.label.request, c.label.request].map (Request.rename s) := rfl

/-- The signature of a renamed class is the renamed signature. -/
theorem Class.valueSignature?_rename (c : Class) :
    (c.rename s).valueSignature? = c.valueSignature?.map (ValueSignature.rename s) := by
  show (if c.isValueType then some (ValueSignature.ofClass (c.rename s))
    else c.base?.map ValueSignature.base) = _
  rw [valueSignature?, apply_ite (Option.map _), Option.map_map]
  rfl

namespace Model

variable (m : Model)

/-- The type of an attribute gives it a signature for its values, or it is an unresolved type. -/
theorem valueSignature_rename (p : Property) :
    (m.rename s).valueSignature (p.rename s) =
      ((m.valueSignature p).map (ValueSignature.rename s)).mapError (Defect.rename s) := by
  rw [valueSignature, valueSignature, typeOf_rename]
  cases m.typeOf p with
  | none => rfl
  | some x =>
    cases x with
    -- a relation gives no signature to values, before and after the renaming
    | ofRelation r => rfl
    | ofClass c =>
      simp only [Option.map_some, Classifier.rename, Class.valueSignature?_rename]
      cases c.valueSignature? <;> rfl

/-- An attribute of a datatype is a field of its owner, with a fact if its range is custom. -/
theorem datatypeAttributeStep_rename (c : Class) (p : Property) :
    (m.rename s).datatypeAttributeStep (c.rename s) (p.rename s) =
      (m.datatypeAttributeStep c p).rename s := by
  -- each request and each look-up on the way is renamed in turn
  apply Step.requesting_rename (Class.requests_rename c p)
  apply Step.given_rename (valueSignature_rename m p)
  intro v
  apply Step.requesting_rename v.requests_rename
  apply Step.given_rename p.multiplicity_rename
  intro k
  apply Step.eq_of
  · rfl
  · intro n
    simp only [Property.inlineFragments, v.name_rename]
    rfl
  · rfl

/-- An ordered attribute requests all its names before it emits anything, and reads no cardinality.
-/
theorem orderedAttributeStep_rename (c : Class) (p : Property) :
    (m.rename s).orderedAttributeStep (c.rename s) (p.rename s) =
      (m.orderedAttributeStep c p).rename s := by
  apply Step.requesting_rename (Class.requests_rename c p)
  apply Step.given_rename (valueSignature_rename m p)
  intro v
  apply Step.eq_of
  · -- the accessor is asked for together with the type of the values
    simp only [Step.rename, v.requests_rename, List.map_append]
    rfl
  · intro n
    simp only [Property.orderedFragments, v.name_rename]
    rfl
  · rfl

/-- Any other attribute reads its cardinality last. -/
theorem plainAttributeStep_rename (c : Class) (p : Property) :
    (m.rename s).plainAttributeStep (c.rename s) (p.rename s) =
      (m.plainAttributeStep c p).rename s := by
  apply Step.requesting_rename (Class.requests_rename c p)
  apply Step.given_rename (valueSignature_rename m p)
  intro v
  apply Step.requesting_rename v.requests_rename
  apply Step.given_rename p.multiplicity_rename
  intro k
  apply Step.eq_of
  · rfl
  · intro n
    simp only [Property.plainFragments, v.name_rename]
    rfl
  · rfl

end Model

namespace EndView

variable (m : Model)

/-- The own and the opposite side of an end stay what they are. -/
theorem ofEnds_rename (r : Relation) (p : Property) (side : EndSide) (e : Ends) :
    ofEnds (r.rename s) (p.rename s) side (e.rename s) = (ofEnds r p side e).rename s := by
  cases side <;> rfl

/-- An end without a name is named after the element at it. -/
theorem named_rename (v : EndView) : (v.rename s).named = s v.named := by
  rw [named, named, apply_ite s, ← Classifier.id_rename]
  rfl

/-- An end requests its element and the opposite one, its own name if it has one, and its accessor.
-/
theorem requests_rename (v : EndView) :
    (v.rename s).requests = v.requests.map (Request.rename s) := by
  have hnamed : (v.rename s).property.label.isNamed = v.property.label.isNamed := rfl
  rw [requests, requests, named_rename, hnamed]
  -- a name of its own is asked for behind the types, and the accessor behind the name
  simp only [List.map_append, apply_ite (List.map (Request.rename s))]
  simp [rename]
  rfl

/-- The accessor projects the same columns, and goes between the same signatures. -/
theorem accessor_rename (v : EndView) (n : Names) :
    (v.rename s).accessor (m.rename s) n = v.accessor m (n.comap s) := by
  -- whether the field has a middle column does not depend on ids
  have hprojection : (v.rename s).projection (m.rename s) n = v.projection m (n.comap s) := by
    rw [projection, projection, hasMiddleColumn, hasMiddleColumn]
    simp only [rename, Model.isDerivedMaterial_rename, Relation.hasOrderedEnd_rename,
      Relation.fieldName_rename]
  rw [accessor, accessor, hprojection]
  simp only [rename, Classifier.id_rename, Classifier.acrossWorlds_rename]
  rfl

/-- Whether an end is immutable is read off the property and its place. -/
theorem immutability_rename (v : EndView) (n : Names) :
    (v.rename s).immutability n = v.immutability (n.comap s) := by
  rw [immutability, immutability]
  simp only [rename, Classifier.id_rename, Relation.fieldName_rename]
  rfl

/-- The multiplicity of an end is stated of the same accessor, or left to the field. -/
theorem multiplicityFact_rename (v : EndView) (k : Multiplicity) (n : Names) :
    (v.rename s).multiplicityFact (m.rename s) k n = v.multiplicityFact m k (n.comap s) := by
  rw [multiplicityFact, multiplicityFact, counted, counted]
  simp only [rename, Model.isDerivedMaterial_rename, Classifier.id_rename,
    Classifier.inWorld_rename]
  rfl

/-- The step of an end emits its accessor, before its cardinality is read. -/
theorem step_rename (v : EndView) : (v.rename s).step (m.rename s) = (v.step m).rename s := by
  -- the cardinality is read last and adds nothing but a fact
  have hbounded : (Step.given (v.rename s).property.multiplicity fun k =>
        { fragments := (v.rename s).multiplicityFact (m.rename s) k }) =
      (Step.given v.property.multiplicity fun k =>
        { fragments := v.multiplicityFact m k }).rename s := by
    apply Step.given_rename v.property.multiplicity_rename
    intro k
    exact Step.eq_of rfl (fun n => multiplicityFact_rename m v k n) rfl
  apply Step.requesting_rename v.requests_rename
  rw [hbounded]
  apply Step.eq_of
  · rfl
  · intro n
    show Fragment.accessor _ :: _ ++ _ = Fragment.accessor _ :: _ ++ _
    rw [accessor_rename, immutability_rename]
    rfl
  · rfl

end EndView

namespace Model

variable (m : Model)

/-- The ends of the relation are resolved before the step of one of them is taken. -/
theorem relationEndStep_rename (r : Relation) (p : Property) (side : EndSide) :
    (m.rename s).relationEndStep (r.rename s) (p.rename s) side =
      (m.relationEndStep r p side).rename s := by
  apply Step.given_rename (endsOf_rename m r)
  intro e
  rw [EndView.ofEnds_rename]
  exact EndView.step_rename m _

/-- The step of a property, one line for each role. -/
theorem propertyStep_rename (x : Classifier) (p : Property) :
    (m.rename s).propertyStep (x.rename s) (p.rename s) = (m.propertyStep x p).rename s := by
  rw [propertyStep, propertyStep, roleOf_rename]
  cases m.roleOf x p with
  | datatypeAttribute c => exact datatypeAttributeStep_rename m c p
  | orderedAttribute c => exact orderedAttributeStep_rename m c p
  | plainAttribute c => exact plainAttributeStep_rename m c p
  | relationEnd r side => exact relationEndStep_rename m r p side
  | skipped reason => rfl

/-! ## Tasks -/

/-- The step for a renamed task in the renamed model is the renamed step. -/
theorem stepOf_rename (t : Task) : (m.rename s).stepOf (t.rename s) = (m.stepOf t).rename s := by
  cases t with
  | klass c => exact c.step_rename
  | coverings => exact coveringStep_rename m
  | generalization g => exact generalizationStep_rename m g
  | generalizationSet t => exact generalizationSetStep_rename m t
  | relation r => exact relationStep_rename m r
  | property x p => exact propertyStep_rename m x p

/-- The tasks of the renamed model are the renamed tasks, in the same order. -/
theorem tasks_rename : (m.rename s).tasks = m.tasks.map (Task.rename s) := by
  -- elements are renamed where they stand, so the tasks keep their order
  simp only [tasks, properties_rename, List.map_append, List.map_map, List.map_cons, List.map_nil]
  simp only [rename, List.map_map]
  rfl

end Model

/-! ## Registries -/

namespace Registry

variable (s) in
/-- The same identifiers, given to the renamed ids. -/
def rename (r : Registry) : Registry :=
  { r with
    names := r.names.map (Prod.map s id)
    aliases := r.aliases.map (Prod.map s id) }

/-- What an id has been given is found under the renamed id. -/
theorem lookup_rename (es : List (ElementId × String)) (i : ElementId) :
    (es.map (Prod.map s id)).lookup (s i) = es.lookup i := by
  induction es with
  | nil => rfl
  | cons e es ih =>
    -- the first entry has the renamed id exactly if it had the id before
    rw [List.map_cons, Prod.map, List.lookup_cons, List.lookup_cons, ElementId.beq_rename, ih]
    rfl

@[simp] theorem nameOf?_rename (r : Registry) (i : ElementId) :
    (r.rename s).nameOf? (s i) = r.nameOf? i := lookup_rename r.names i

@[simp] theorem aliasOf?_rename (r : Registry) (i : ElementId) :
    (r.rename s).aliasOf? (s i) = r.aliasOf? i := lookup_rename r.aliases i

/-- Under the renamed ids the renamed registry gives the names it gave before. -/
theorem view_rename (r : Registry) : (r.rename s).view.comap s = r.view := by
  simp [view, Names.comap]

/-- What is reserved is found among the used identifiers alone. -/
theorem reserve_rename (r : Registry) (base : String) :
    (r.rename s).reserve base = ((r.reserve base).1, (r.reserve base).2.rename s) := by
  show (if r.isUsed base then _ else _) = _
  rw [reserve]
  split <;> rfl

/-- A name is given once, and from the same base as before. -/
theorem name_rename (r : Registry) (i : ElementId) (base : String) :
    (r.rename s).name (s i) base = ((r.name i base).1, (r.name i base).2.rename s) := by
  rw [name, name, nameOf?_rename, reserve_rename]
  cases r.nameOf? i <;> rfl

/-- An accessor is named in the same way. -/
theorem alias_rename (r : Registry) (i : ElementId) (base : String) :
    (r.rename s).alias (s i) base = ((r.alias i base).1, (r.alias i base).2.rename s) := by
  rw [Registry.alias, Registry.alias, aliasOf?_rename, reserve_rename]
  -- what has been given is given again; what is new is reserved
  cases r.aliasOf? i <;> rfl

/-- A request is served with the same identifier. The name that an accessor is named like has to be
looked up first, and is the same. -/
theorem serve_rename (r : Registry) (q : Request) :
    (r.rename s).serve (q.rename s) = (r.serve q).rename s := by
  cases q with
  | name i base => exact congrArg Prod.snd (name_rename r i base)
  | «alias» i base => exact congrArg Prod.snd (alias_rename r i base)
  | aliasLike i other =>
    have hown : (r.rename s).view.own (s other) = r.view.own other := by simp [view]
    show ((r.rename s).alias (s i) ((r.rename s).view.own (s other))).2 = _
    rw [hown, alias_rename]
    rfl

/-- Requests are served one after the other. -/
theorem serveAll_rename (r : Registry) (qs : List Request) :
    (r.rename s).serveAll (qs.map (Request.rename s)) = (r.serveAll qs).rename s := by
  induction qs generalizing r with
  | nil => rfl
  | cons q qs ih =>
    -- the first request is served before the claim is used for the rest
    show ((r.rename s).serve (q.rename s)).serveAll _ = _
    rw [serve_rename]
    exact ih (r.serve q)

end Registry

/-! ## Sessions -/

namespace Session

variable (s) in
/-- The renamed session: its registry and its visited properties are renamed, its fragments are not.
-/
def rename (u : Session) : Session :=
  { u with registry := u.registry.rename s, visited := u.visited.map s }

/-- One step: it is taken with renamed requests, and emits the same fragments. -/
theorem take_rename (u : Session) (st : Step) :
    (u.rename s).take (st.rename s) =
      ((u.take st).1.rename s, (u.take st).2.map (Defect.rename s)) := by
  -- serving renamed requests gives the same names to renamed ids
  have hregistry : (u.rename s).registry.serveAll (st.rename s).requests =
      (u.registry.serveAll st.requests).rename s := Registry.serveAll_rename _ _
  have hemitted : (st.rename s).fragments ((u.registry.serveAll st.requests).rename s).view =
      st.fragments (u.registry.serveAll st.requests).view :=
    congrArg st.fragments (Registry.view_rename _)
  simp only [take, hregistry, hemitted]
  rfl

/-- A property has been visited exactly if the renamed one has, as different ids stay different. -/
theorem contains_visited_rename (u : Session) (i : ElementId) :
    (u.rename s).visited.contains (s i) = u.visited.contains i := by
  rw [Bool.eq_iff_iff, List.contains_iff_mem, List.contains_iff_mem]
  exact List.mem_map_of_injective s.injective

/-- One task: the runs of both models get to corresponding sessions. -/
theorem perform_rename (m : Model) (u : Session) (t : Task) :
    (u.rename s).perform (m.rename s) (t.rename s) =
      ((u.perform m t).1.rename s, (u.perform m t).2.map (Defect.rename s)) := by
  have htake : ∀ v : Session, (v.rename s).take ((m.rename s).stepOf (t.rename s)) =
      ((v.take (m.stepOf t)).1.rename s, (v.take (m.stepOf t)).2.map (Defect.rename s)) := by
    intro v
    rw [m.stepOf_rename t, take_rename]
  cases t with
  | property x p =>
    -- the renamed property has been visited exactly if the property has
    show (if (u.rename s).visited.contains (s p.id) then _ else _) = _
    rw [contains_visited_rename, perform]
    split
    · rfl
    · exact htake (u.visit p.id)
  | _ => exact htake u

/-- All tasks: a run stops where the run of the renamed model stops. -/
theorem performAll_rename (m : Model) (u : Session) (ts : List Task) :
    (u.rename s).performAll (m.rename s) (ts.map (Task.rename s)) =
      ((u.performAll m ts).1.rename s, (u.performAll m ts).2.map (Defect.rename s)) := by
  induction ts generalizing u with
  | nil => rfl
  | cons t ts ih =>
    rw [List.map_cons, performAll, performAll, perform_rename]
    -- the run goes on with the next task, or ends with the defect of this one
    obtain ⟨v, d⟩ := u.perform m t
    cases d with
    | none => exact ih v
    | some d => rfl

end Session

namespace Model

/-- The whole run, from the empty session, which has no ids to rename. -/
theorem run_rename (m : Model) :
    (m.rename s).run = (m.run.1.rename s, m.run.2.map (Defect.rename s)) := by
  rw [run, tasks_rename]
  exact Session.performAll_rename m {} m.tasks

/-- Either both runs give the same sections, or they stop at corresponding defects. -/
theorem encoding_rename (m : Model) :
    (m.rename s).encoding = m.encoding.mapError (Defect.rename s) := by
  rw [encoding, encoding, run_rename]
  obtain ⟨u, d⟩ := m.run
  cases d <;> rfl

/-- **Ids are names for elements and nothing else.** Under any injective renaming of ids the run of
a model gives the same module text and the same report, or the same defect with its ids renamed. -/
theorem encode_rename (s : ElementId ↪ ElementId) (m : Model) (o : RunScope) :
    (m.rename s).encode o = (m.encode o).mapError (Defect.rename s) := by
  rw [encode, encode, encoding_rename]
  cases m.encoding <;> rfl

end Model

end OntoWorlds
