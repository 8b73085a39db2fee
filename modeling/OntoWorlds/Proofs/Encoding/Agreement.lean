import OntoWorlds.Proofs.Encoding.Tasks

/-!
# OntoWorlds — models that agree on what one of them refers to

A step looks at the model for what its element refers to, for the derivation of a relation and for
the mediations of a relator. A second model that answers these questions as the first one does takes
the same steps for the tasks of the first, whatever else it holds.

* `Model.references` — the ids that the elements of a model refer to.
* `Model.ResolvesAlike`, `Model.FindsAlike` — the second model resolves these ids, and answers all
  that the first one asks for, as the first does.
* `Model.FindsAlike.stepOf_eq` — the steps for the tasks of the first model are the same, one lemma
  per kind of task.
-/

namespace OntoWorlds

open Alloy

namespace Model

/-- The ids that the elements of the model refer to: types of properties, ends of generalizations
and members of generalization sets. -/
def references (m : Model) : List ElementId :=
  m.properties.filterMap (·.2.type)
    ++ m.generalizations.flatMap (fun g => [g.general, g.specific])
    ++ m.generalizationSets.flatMap (·.members)

/-- The type of a property is a reference of the model. -/
theorem type_mem_references {m : Model} {x : Classifier} {p : Property} {id : ElementId}
    (hp : (x, p) ∈ m.properties) (hid : p.type = some id) : id ∈ m.references := by
  simp only [references, List.mem_append, List.mem_filterMap]
  exact Or.inl (Or.inl ⟨(x, p), hp, hid⟩)

/-- Both ends of a generalization are references of the model, and so are the members of a set. -/
theorem general_mem_references {m : Model} {g : Generalization} (hg : g ∈ m.generalizations) :
    g.general ∈ m.references := by
  simp only [references, List.mem_append, List.mem_flatMap]
  exact Or.inl (Or.inr ⟨g, hg, by simp⟩)

theorem specific_mem_references {m : Model} {g : Generalization} (hg : g ∈ m.generalizations) :
    g.specific ∈ m.references := by
  simp only [references, List.mem_append, List.mem_flatMap]
  exact Or.inl (Or.inr ⟨g, hg, by simp⟩)

theorem member_mem_references {m : Model} {s : GeneralizationSet} (hs : s ∈ m.generalizationSets)
    {id : ElementId} (hid : id ∈ s.members) : id ∈ m.references := by
  simp only [references, List.mem_append, List.mem_flatMap]
  exact Or.inr ⟨s, hs, hid⟩

/-- Nothing in the model has the id, and nothing refers to it. -/
def IsNew (m : Model) (id : ElementId) : Prop := id ∉ m.ids ∧ id ∉ m.references

instance (m : Model) (id : ElementId) : Decidable (m.IsNew id) :=
  inferInstanceAs (Decidable (id ∉ m.ids ∧ id ∉ m.references))

/-! ## Models that answer alike -/

/-- The second model resolves the references of the first one as the first one does. -/
def ResolvesAlike (m m' : Model) : Prop := ∀ id ∈ m.references, m'.find id = m.find id

namespace ResolvesAlike

variable {m m' : Model}

/-- A property of the first model has its type in the second one as well. -/
theorem typeOf_eq (h : m.ResolvesAlike m') {x : Classifier} {p : Property}
    (hp : (x, p) ∈ m.properties) : m'.typeOf p = m.typeOf p := by
  cases hid : p.type with
  | none => rw [typeOf, typeOf, hid]; rfl
  | some id =>
    rw [typeOf, typeOf, hid]
    exact h id (type_mem_references hp hid)

/-- The ends of a relation are properties, with the relation as their owner. -/
theorem typeOf_end_eq (h : m.ResolvesAlike m') {r : Relation} (hr : r ∈ m.relations)
    {p : Property} (hp : p ∈ r.ends) : m'.typeOf p = m.typeOf p :=
  h.typeOf_eq (mem_properties_iff.mpr (Or.inr ⟨r, hr, hp, rfl⟩))

/-- The first end of a relation is among its ends, so its type is resolved alike. -/
theorem sourceOf_eq (h : m.ResolvesAlike m') {r : Relation} (hr : r ∈ m.relations) :
    m'.sourceOf r = m.sourceOf r :=
  Option.bind_congr fun _ hp => h.typeOf_end_eq hr (List.mem_of_mem_head? hp)

/-- The second end as well, although it is looked up by its position. -/
theorem targetOf_eq (h : m.ResolvesAlike m') {r : Relation} (hr : r ∈ m.relations) :
    m'.targetOf r = m.targetOf r :=
  Option.bind_congr fun _ hp => h.typeOf_end_eq hr (List.mem_of_getElem? hp)

end ResolvesAlike

/-- The second model answers what the elements of the first one ask for as the first one does. -/
structure FindsAlike (m m' : Model) : Prop where
  resolves : m.ResolvesAlike m'
  findGeneralization : ∀ id ∈ m.references, m'.findGeneralization id = m.findGeneralization id
  derivationOf : ∀ r ∈ m.relations, m'.derivationOf r = m.derivationOf r
  findMediation : ∀ {x y : Classifier}, m.Has x → m.Has y →
    m'.findMediation x.id y.id = m.findMediation x.id y.id
  coverers : m'.classes.filter (·.covers?.isSome) = m.classes.filter (·.covers?.isSome)

namespace FindsAlike

variable {m m' : Model}

/-! ## Look-ups -/

/-- Whether a relation holds between datatypes is a question about the types of its ends. -/
theorem holdsBetweenDatatypes_eq (h : m.FindsAlike m') {r : Relation} (hr : r ∈ m.relations) :
    m'.holdsBetweenDatatypes r = m.holdsBetweenDatatypes r := by
  rw [holdsBetweenDatatypes, holdsBetweenDatatypes, h.resolves.sourceOf_eq hr,
    h.resolves.targetOf_eq hr]

theorem isRepresented_eq (h : m.FindsAlike m') {r : Relation} (hr : r ∈ m.relations) :
    m'.isRepresented r = m.isRepresented r := by
  rw [isRepresented, isRepresented, h.resolves.sourceOf_eq hr, h.resolves.targetOf_eq hr]

/-- Whether a material relation is derived is a question about its derivation. -/
theorem isDerivedMaterial_eq (h : m.FindsAlike m') {r : Relation} (hr : r ∈ m.relations) :
    m'.isDerivedMaterial r = m.isDerivedMaterial r := by
  rw [isDerivedMaterial, isDerivedMaterial, h.derivationOf r hr]

/-- A class has a field or none whatever the model; of a relation the model is asked. -/
theorem hasField_eq (h : m.FindsAlike m') {x : Classifier} (hx : m.Has x) :
    m'.hasField x = m.hasField x := by
  cases x with
  | ofClass c => rfl
  | ofRelation r => exact h.isRepresented_eq hx

/-- A property whose type is missing in the first model is reported in the second one too. -/
theorem resolveType_eq (h : m.FindsAlike m') {x : Classifier} {p : Property}
    (hp : (x, p) ∈ m.properties) : m'.resolveType p = m.resolveType p := by
  rw [resolveType, resolveType, h.resolves.typeOf_eq hp]

/-- Both ends and their types are found alike, or the same defect is. -/
theorem endsOf_eq (h : m.FindsAlike m') {r : Relation} (hr : r ∈ m.relations) :
    m'.endsOf r = m.endsOf r := by
  -- the ends are properties of the model, so their types are resolved alike
  have hend {p : Property} (hp : p ∈ r.ends) : m'.resolveType p = m.resolveType p :=
    h.resolveType_eq (mem_properties_iff.mpr (Or.inr ⟨r, hr, hp, rfl⟩))
  unfold endsOf
  split
  · next hs ht => rw [hend (List.mem_of_mem_head? hs), hend (List.mem_of_getElem? ht)]
  · rfl

/-! ## Coverings -/

/-- The classes that cover a base are the same, in the same order. -/
theorem covering_eq (h : m.FindsAlike m') (base : BaseSignature) :
    m'.covering base = m.covering base := by
  -- what covers the base is found among what covers some base
  have hsome (n : Model) :
      n.covering base = (n.classes.filter (·.covers?.isSome)).filter (·.covers? == some base) := by
    rw [Model.covering, List.filter_filter]
    refine List.filter_congr fun c _ => ?_
    cases c.covers? <;> simp
  rw [hsome, hsome, h.coverers]

/-- The step for the coverings looks at the coverers of all bases and then of each one. -/
theorem coveringStep_eq (h : m.FindsAlike m') : m'.coveringStep = m.coveringStep := by
  simp only [coveringStep, coveringFragment, h.coverers, h.covering_eq]

/-! ## Generalizations -/

/-- A pair of elements of the first model is subsumed alike: the fields that are requested and those
that are compared depend on which of the two have a field. -/
theorem subsumption_eq (h : m.FindsAlike m') {x y : Classifier} (hx : m.Has x) (hy : m.Has y) :
    m'.subsumption x y = m.subsumption x y := by
  -- the requests are those of the elements with a field
  have hfilter : [x, y].filter m'.hasField = [x, y].filter m.hasField := by
    refine List.filter_congr ?_
    intro z hz
    rcases List.mem_pair.mp hz with rfl | rfl
    · exact h.hasField_eq hx
    · exact h.hasField_eq hy
  rw [subsumption, subsumption, hfilter, h.hasField_eq hx, h.hasField_eq hy]

/-- A generalization whose ends are references: a missing end is the same defect in both models, and
ends that are found are those of the first model. -/
theorem subsumptionOf_eq (h : m.FindsAlike m') {g : Generalization}
    (hg : g.general ∈ m.references) (hs : g.specific ∈ m.references) :
    m'.subsumptionOf g = m.subsumptionOf g := by
  unfold subsumptionOf resolve
  rw [h.resolves _ hg, h.resolves _ hs]
  cases hgeneral : m.find g.general with
  | none => rfl
  | some x =>
    cases hspecific : m.find g.specific with
    | none => rfl
    | some y =>
      -- both ends are elements of the first model, as the look-ups have found them there
      exact congrArg Except.ok (h.subsumption_eq (has_of_find hgeneral) (has_of_find hspecific))

/-- The step for a generalization of the first model. -/
theorem generalizationStep_eq (h : m.FindsAlike m') {g : Generalization}
    (hg : g ∈ m.generalizations) : m'.generalizationStep g = m.generalizationStep g := by
  rw [generalizationStep, generalizationStep,
    h.subsumptionOf_eq (general_mem_references hg) (specific_mem_references hg)]

/-- The members of a set are walked through alike, from any list of pairs seen so far. The second
model may hold more generalizations, but finds those of the first one for its references. -/
theorem membersStep_eq (h : m.FindsAlike m') (s : GeneralizationSet) {members : List ElementId}
    (hmembers : ∀ id ∈ members, id ∈ m.references) (seen : List (Classifier × Classifier)) :
    m'.membersStep s members seen = m.membersStep s members seen := by
  induction members generalizing seen with
  -- by induction on the members that are left, for every list of pairs seen
  | nil => rfl
  | cons id members ih =>
    have hrest := fun i hi => hmembers i (List.mem_cons_of_mem _ hi)
    rw [membersStep, membersStep, h.findGeneralization id (hmembers id List.mem_cons_self)]
    cases hg : m.findGeneralization id with
    | none => rfl
    | some g =>
      -- a generalization that is found is one of the first model, so its ends are references
      have hmem := List.mem_of_find?_eq_some hg
      simp only [h.subsumptionOf_eq (general_mem_references hmem) (specific_mem_references hmem),
        ih hrest]

/-- The step for a generalization set of the first model. -/
theorem generalizationSetStep_eq (h : m.FindsAlike m') {s : GeneralizationSet}
    (hs : s ∈ m.generalizationSets) : m'.generalizationSetStep s = m.generalizationSetStep s := by
  rw [generalizationSetStep, generalizationSetStep,
    h.membersStep_eq s (fun _ hid => member_mem_references hs hid) []]

/-! ## Relations -/

/-- The founder of a relation is looked up through its derivation, which is a relation of the first
model if there is one. -/
theorem founderOf_eq (h : m.FindsAlike m') {r : Relation} (hr : r ∈ m.relations) :
    m'.founderOf r = m.founderOf r := by
  rw [founderOf, founderOf, h.derivationOf r hr, h.isDerivedMaterial_eq hr]
  cases hd : m.derivationOf r with
  | none => rfl
  | some d =>
    -- the derivation is a relation of the first model, so its ends are found alike
    have hmem : d ∈ m.relations := List.mem_of_find?_eq_some hd
    simp only [h.endsOf_eq hmem]

/-- The step for a derivation looks for two mediations, from the relator to each end of the material
relation. -/
theorem derivationStep_eq (h : m.FindsAlike m') {material : Relation}
    (hmaterial : material ∈ m.relations) {relator : Class} (hrelator : relator ∈ m.classes) :
    m'.derivationStep material relator = m.derivationStep material relator := by
  rw [derivationStep, derivationStep, h.endsOf_eq hmaterial]
  cases he : m.endsOf material with
  | error d => rfl
  | ok e =>
    -- the relator and both ends are elements of the first model, and mediations between these agree
    have hsource : m.Has e.source := has_of_sourceOf (sourceOf_of_endsOf he)
    have htarget : m.Has e.target := has_of_targetOf (targetOf_of_endsOf he)
    have hrelator' : m.Has (.ofClass relator) := hrelator
    have hatSource : m'.findMediation relator.id e.source.id
        = m.findMediation relator.id e.source.id := h.findMediation hrelator' hsource
    have hatTarget : m'.findMediation relator.id e.target.id
        = m.findMediation relator.id e.target.id := h.findMediation hrelator' htarget
    simp only [Step.given_ok, hatSource, hatTarget]

/-- The step for a relation of the first model, of whichever kind it is. -/
theorem relationStep_eq (h : m.FindsAlike m') {r : Relation} (hr : r ∈ m.relations) :
    m'.relationStep r = m.relationStep r := by
  rw [relationStep, relationStep, h.endsOf_eq hr]
  cases he : m.endsOf r with
  | error d => rfl
  | ok e =>
    -- the field depends on the founder, the order of the ends and nothing else of the model
    have hfield : m'.fieldStep r e = m.fieldStep r e := by
      rw [fieldStep, fieldStep, h.founderOf_eq hr]
    rw [Step.given_ok, Step.given_ok, h.holdsBetweenDatatypes_eq hr, h.isRepresented_eq hr, hfield]
    -- a derivation looks further into the model, at the relation that it starts from
    have hsource : m.Has e.source := has_of_sourceOf (sourceOf_of_endsOf he)
    have htarget : m.Has e.target := has_of_targetOf (targetOf_of_endsOf he)
    cases hs : e.source with
    | ofClass c => rfl
    | ofRelation material =>
      cases ht : e.target with
      | ofRelation _ => rfl
      | ofClass relator =>
        rw [hs] at hsource
        rw [ht] at htarget
        simp only [h.derivationStep_eq hsource htarget]

/-! ## Properties -/

/-- The role of a property is decided by the type of an attribute, or by the relation of an end. -/
theorem roleOf_eq (h : m.FindsAlike m') {x : Classifier} {p : Property}
    (hp : (x, p) ∈ m.properties) : m'.roleOf x p = m.roleOf x p := by
  cases x with
  | ofClass c =>
    have hvalued : m'.mayHaveValues p = m.mayHaveValues p := by
      rw [mayHaveValues, mayHaveValues, h.resolves.typeOf_eq hp]
    simp only [roleOf, attributeRole, hvalued]
  | ofRelation r =>
    have hr : r ∈ m.relations := has_of_mem_properties hp
    simp only [roleOf, endRole, h.holdsBetweenDatatypes_eq hr, h.isRepresented_eq hr]

/-- The signature of the values of an attribute is that of its type. -/
theorem valueSignature_eq (h : m.FindsAlike m') {x : Classifier} {p : Property}
    (hp : (x, p) ∈ m.properties) : m'.valueSignature p = m.valueSignature p := by
  rw [valueSignature, valueSignature, h.resolves.typeOf_eq hp]

/-- The step for an end looks at the model for one thing only: whether its relation is derived. -/
theorem endStep_eq (h : m.FindsAlike m') {v : EndView} (hv : v.relation ∈ m.relations) :
    v.step m' = v.step m := by
  have hderived := h.isDerivedMaterial_eq hv
  have hprojection (n : Names) : v.projection m' n = v.projection m n := by
    rw [EndView.projection, EndView.projection, EndView.hasMiddleColumn, EndView.hasMiddleColumn,
      hderived]
  have hbounds : v.multiplicityFact m' = v.multiplicityFact m := by
    funext k n
    rw [EndView.multiplicityFact, EndView.multiplicityFact, hderived]
  simp only [EndView.step, EndView.accessor, hprojection, hbounds]

/-- The step for a property of the first model, by its role. -/
theorem propertyStep_eq (h : m.FindsAlike m') {x : Classifier} {p : Property}
    (hp : (x, p) ∈ m.properties) : m'.propertyStep x p = m.propertyStep x p := by
  rw [propertyStep, propertyStep, h.roleOf_eq hp]
  cases hrole : m.roleOf x p with
  | datatypeAttribute c =>
    simp only [datatypeAttributeStep, h.valueSignature_eq hp]
  | orderedAttribute c =>
    simp only [orderedAttributeStep, h.valueSignature_eq hp]
  | plainAttribute c =>
    simp only [plainAttributeStep, h.valueSignature_eq hp]
  | relationEnd r side =>
    obtain ⟨rfl, -⟩ := roleOf_relationEnd hrole
    have hr : r ∈ m.relations := has_of_mem_properties hp
    simp only [relationEndStep, h.endsOf_eq hr]
    cases m.endsOf r with
    | error d => rfl
    | ok e => exact h.endStep_eq (by cases side <;> exact hr)
  | skipped reason => rfl

/-! ## Tasks -/

/-- The second model takes the same steps for the tasks of the first. -/
theorem stepOf_eq (h : m.FindsAlike m') {t : Task} (ht : t.IsOf m) : m'.stepOf t = m.stepOf t := by
  cases t with
  | klass c => rfl
  | coverings => exact h.coveringStep_eq
  | generalization g => exact h.generalizationStep_eq ht
  | generalizationSet s => exact h.generalizationSetStep_eq ht
  | relation r => exact h.relationStep_eq ht
  | property x p => exact h.propertyStep_eq ht

end FindsAlike

end Model

end OntoWorlds
