import OntoWorlds.Proofs.Encoding.Names
import OntoWorlds.Proofs.Encoding.Outcomes

/-!
# OntoWorlds — the fragments of a run without defects

A fragment is emitted for an element of the model, by a step that has requested the names in it.
What the element and the model have to be like for it is said once, kind by kind, so that properties
of one kind of fragment are shown by going through the few ways to emit it.

* `Model.DeclaresField` — the fields that elements declare, by the keys of their names.
* `Model.Emits` — the fragments that tasks emit, with what they have requested before.
* `Takes.emits`, `exists_emits` — a step emits nothing else, nor does a run.
-/

namespace OntoWorlds

open Alloy

/-- The world field of an element: the key of its name, and its shape under given names. -/
inductive Model.DeclaresField (m : Model) (n : Names) : Key → FieldShape → Prop
  | extension {c : Class} {base : BaseSignature} (hc : c ∈ m.classes)
      (hbase : c.base? = some base) : DeclaresField m n (.own c.id) (.extension base)
  | founded {r : Relation} {e : Ends} {founder : Classifier} (hr : m.FieldRelation r e)
      (hfounder : m.founderOf r = some (.ok founder)) :
      DeclaresField m n r.fieldRequest.key
        (.founded (n.own e.source.id) (n.own founder.id) (n.own e.target.id))
  | indexed {r : Relation} {e : Ends} (hr : m.FieldRelation r e)
      (hfounder : m.founderOf r = none) (hordered : r.hasOrderedEnd = true) :
      DeclaresField m n r.fieldRequest.key (.indexed (n.own e.source.id) (n.own e.target.id))
  | binary {r : Relation} {e : Ends} {atSource atTarget : Quantifier} (hr : m.FieldRelation r e)
      (hfounder : m.founderOf r = none) (hordered : r.hasOrderedEnd = false)
      (hsource : e.sourceEnd.multiplicity.map Multiplicity.quantifier = .ok atSource)
      (htarget : e.targetEnd.multiplicity.map Multiplicity.quantifier = .ok atTarget) :
      DeclaresField m n r.fieldRequest.key
        (.binary (n.own e.source.id) atSource atTarget (n.own e.target.id))
  | orderedAttribute {c : Class} {p : Property} {v : ValueSignature}
      (hmem : (.ofClass c, p) ∈ m.properties) (hp : m.FieldAttribute c p v)
      (hrole : m.roleOf (.ofClass c) p = .orderedAttribute c) :
      DeclaresField m n (.own p.id) (.indexed (n.own c.id) (v.name n))
  | plainAttribute {c : Class} {p : Property} {v : ValueSignature} {k : Multiplicity}
      (hmem : (.ofClass c, p) ∈ m.properties) (hp : m.FieldAttribute c p v)
      (hrole : m.roleOf (.ofClass c) p = .plainAttribute c) (hk : p.multiplicity = .ok k) :
      DeclaresField m n (.own p.id) (.binary (n.own c.id) .set k.quantifier (v.name n))

/-- The requests of every attribute: its name, its owner, its values and its accessor. -/
def Property.attributeRequests (p : Property) (c : Class) (v : ValueSignature) : List Request :=
  [p.label.request, c.label.request] ++ (v.requests ++ [.aliasLike p.id p.id])

/-! ## Fragments by kind -/

/-- The fragments that tasks emit under given names, after which requests, and what the model has to
be like for it. -/
inductive Model.Emits (m : Model) (n : Names) : Task → List Request → Fragment → Prop
  | field {t : Task} {requests : List Request} {q : Request} {shape : FieldShape}
      (hq : q ∈ requests) (hdeclares : m.DeclaresField n q.key shape) :
      Emits m n t requests (.worldField ⟨n.of q.key, shape⟩)
  | datatype {c : Class} (hc : c ∈ m.classes) (hvalue : c.isValueType = true) :
      Emits m n (.klass c) c.datatypeStep.requests
        (.datatype (n.own c.id) (!Identifier.isBuiltin (n.own c.id)))
  | enumeration {c : Class} (hc : c ∈ m.classes) (hvalue : c.isValueType = true) :
      Emits m n (.klass c) c.enumerationStep.requests
        (.enumeration ⟨n.own c.id, c.literals.map fun l => n.own l.id⟩)
  | rigid {c : Class} {base : BaseSignature} (hc : c ∈ m.classes) (hbase : c.base? = some base)
      (hrigid : .fact (.rigid (n.own c.id) base) ∈ c.rigidity (n.own c.id) base) :
      Emits m n (.klass c) (c.extensionStep base).requests (.fact (.rigid (n.own c.id) base))
  | antirigid {c : Class} {base : BaseSignature} (hc : c ∈ m.classes) (hbase : c.base? = some base)
      (hantirigid : .fact (.antirigid (n.own c.id) base) ∈ c.rigidity (n.own c.id) base) :
      Emits m n (.klass c) (c.extensionStep base).requests (.fact (.antirigid (n.own c.id) base))
  | covering {base : BaseSignature}
      (hcovering : .covering ⟨base, (m.covering base).map fun c => n.own c.id⟩
        ∈ m.coveringFragment n base) :
      Emits m n .coverings m.coveringStep.requests
        (.covering ⟨base, (m.covering base).map fun c => n.own c.id⟩)
  | generalization {g : Generalization} {requests : List Request} {general specific : Classifier}
      (hg : g ∈ m.generalizations)
      (hfields : m.subsumptionOf g = .ok ⟨requests, some (general, specific)⟩) :
      Emits m n (.generalization g) requests
        (.fact (.generalization (specific.fieldName n) (general.fieldName n)))
  | generalizationSet {s : GeneralizationSet} {requests : List Request}
      {members : List (Classifier × Classifier)} (hs : s ∈ m.generalizationSets)
      (hmembers : m.Members s.members requests members)
      (hlines : .fact (.generalizationSet (s.lines members n)) ∈ s.fragments members n) :
      Emits m n (.generalizationSet s) requests (.fact (.generalizationSet (s.lines members n)))
  | inlineRelation {r : Relation} {e : Ends} (hr : r ∈ m.relations) (he : m.endsOf r = .ok e)
      (hdatatypes : m.holdsBetweenDatatypes r = true) :
      Emits m n (.relation r) (r.inlineStep e).requests
        (.inlineField (n.own e.source.id) ⟨r.fieldName n, none, n.own e.target.id⟩)
  | ordering {r : Relation} {e : Ends} (hr : m.FieldRelation r e) (hfounder : m.founderOf r = none)
      (hordered : r.hasOrderedEnd = true) :
      Emits m n (.relation r) ((r.indexedStep e).requesting (r.endRequests e)).requests
        (.fact (.ordering (e.source.inWorld (n.own e.source.id)) (r.fieldName n)))
  | derivation {d material atSource atTarget : Relation} {relator : Class} {e : Ends}
      (hmaterial : material ∈ m.relations) (he : m.endsOf material = .ok e)
      (hrelator : relator ∈ m.classes) (hderives : m.Derives d material relator)
      (hatSource : m.findMediation relator.id e.source.id = some atSource)
      (hatTarget : m.findMediation relator.id e.target.id = some atTarget) :
      Emits m n (.relation d)
        [material.fieldRequest, atSource.fieldRequest, atTarget.fieldRequest,
          relator.label.request, e.source.label.request, e.target.label.request]
        (.fact (.derivation (e.source.inWorld (n.own e.source.id))
          (e.target.inWorld (n.own e.target.id)) (n.own relator.id) (material.fieldName n)
          (atSource.fieldName n) (atTarget.fieldName n)))
  | inlineAttribute {c : Class} {p : Property} {v : ValueSignature} {k : Multiplicity}
      (hc : c ∈ m.classes) (hdatatype : c.isDatatype = true) (hv : m.valueSignature p = .ok v)
      (hk : p.multiplicity = .ok k) :
      Emits m n (.property (.ofClass c) p)
        ([p.label.request, c.label.request] ++ (v.requests ++ []))
        (.inlineField (n.own c.id) ⟨n.own p.id, some k.quantifier, v.name n⟩)
  | inlineCount {c : Class} {p : Property} {v : ValueSignature} {k : Multiplicity} {b : Bounds}
      (hc : c ∈ m.classes) (hdatatype : c.isDatatype = true) (hv : m.valueSignature p = .ok v)
      (hk : p.multiplicity = .ok k)
      (hb : .fact (.multiplicity (.inline (n.own c.id) (n.own p.id)) b)
        ∈ k.customFact (.inline (n.own c.id) (n.own p.id))) :
      Emits m n (.property (.ofClass c) p)
        ([p.label.request, c.label.request] ++ (v.requests ++ []))
        (.fact (.multiplicity (.inline (n.own c.id) (n.own p.id)) b))
  | functionalOrdering {c : Class} {p : Property} {v : ValueSignature}
      (hmem : (.ofClass c, p) ∈ m.properties) (hp : m.FieldAttribute c p v)
      (hrole : m.roleOf (.ofClass c) p = .orderedAttribute c) :
      Emits m n (.property (.ofClass c) p) (p.attributeRequests c v)
        (.fact (.functionalOrdering (.inWorld (n.own c.id)) (n.own p.id)))
  | orderedAccessor {c : Class} {p : Property} {v : ValueSignature}
      (hmem : (.ofClass c, p) ∈ m.properties) (hp : m.FieldAttribute c p v)
      (hrole : m.roleOf (.ofClass c) p = .orderedAttribute c) :
      Emits m n (.property (.ofClass c) p) (p.attributeRequests c v)
        (.accessor ⟨n.alias p.id, .acrossWorlds (n.own c.id), .signature (v.name n),
          .elements (n.own p.id)⟩)
  | plainAccessor {c : Class} {p : Property} {v : ValueSignature} {k : Multiplicity}
      (hmem : (.ofClass c, p) ∈ m.properties) (hp : m.FieldAttribute c p v)
      (hrole : m.roleOf (.ofClass c) p = .plainAttribute c) (hk : p.multiplicity = .ok k) :
      Emits m n (.property (.ofClass c) p) (p.attributeRequests c v)
        (.accessor ⟨n.alias p.id, .acrossWorlds (n.own c.id), .signature (v.name n),
          .image (.whole (n.own p.id))⟩)
  | attributeImmutability {c : Class} {p : Property} {v : ValueSignature}
      (hmem : (.ofClass c, p) ∈ m.properties) (hp : m.FieldAttribute c p v)
      (hi : .immutability (.target (n.own c.id) (n.own p.id))
        ∈ p.attributeImmutability (n.own c.id) (n.own p.id)) :
      Emits m n (.property (.ofClass c) p) (p.attributeRequests c v)
        (.immutability (.target (n.own c.id) (n.own p.id)))
  | attributeCount {c : Class} {p : Property} {v : ValueSignature} {k : Multiplicity} {b : Bounds}
      (hmem : (.ofClass c, p) ∈ m.properties) (hp : m.FieldAttribute c p v)
      (hrole : m.roleOf (.ofClass c) p = .plainAttribute c) (hk : p.multiplicity = .ok k)
      (hb : .fact (.multiplicity (.accessed (.inWorld (n.own c.id)) (n.alias p.id)) b)
        ∈ k.customFact (.accessed (.inWorld (n.own c.id)) (n.alias p.id))) :
      Emits m n (.property (.ofClass c) p) (p.attributeRequests c v)
        (.fact (.multiplicity (.accessed (.inWorld (n.own c.id)) (n.alias p.id)) b))
  | selector {c : Class} {p : Property} {v : ValueSignature}
      (hmem : (.ofClass c, p) ∈ m.properties) (hp : m.FieldAttribute c p v)
      (hrole : m.roleOf (.ofClass c) p = .plainAttribute c) :
      Emits m n (.property (.ofClass c) p) (p.attributeRequests c v) (.selector ⟨n.own p.id⟩)
  | endAccessor {r : Relation} {p : Property} {e : Ends} {side : EndSide}
      (hr : m.FieldRelation r e) (hp : p ∈ r.ends)
      (hrole : m.roleOf (.ofRelation r) p = .relationEnd r side) :
      Emits m n (.property (.ofRelation r) p) ((EndView.ofEnds r p side e).requests ++ [])
        (.accessor ((EndView.ofEnds r p side e).accessor m n))
  | endImmutability {r : Relation} {p : Property} {e : Ends} {side : EndSide} {i : Immutability}
      (hr : m.FieldRelation r e) (hp : p ∈ r.ends)
      (hrole : m.roleOf (.ofRelation r) p = .relationEnd r side)
      (hi : .immutability i ∈ (EndView.ofEnds r p side e).immutability n) :
      Emits m n (.property (.ofRelation r) p) ((EndView.ofEnds r p side e).requests ++ [])
        (.immutability i)
  | endCount {r : Relation} {p : Property} {e : Ends} {side : EndSide} {k : Multiplicity}
      {b : Bounds} (hr : m.FieldRelation r e) (hp : p ∈ r.ends)
      (hrole : m.roleOf (.ofRelation r) p = .relationEnd r side) (hk : p.multiplicity = .ok k)
      (hb : .fact (.multiplicity ((EndView.ofEnds r p side e).counted n) b)
        ∈ (EndView.ofEnds r p side e).multiplicityFact m k n) :
      Emits m n (.property (.ofRelation r) p) ((EndView.ofEnds r p side e).requests ++ [])
        (.fact (.multiplicity ((EndView.ofEnds r p side e).counted n) b))

namespace Model

variable {m : Model} {n : Names} {f : Fragment}

/-! ## Attributes and ends -/

/-- What an ordered attribute emits, read off the list of its fragments. -/
theorem emits_orderedFragments {c : Class} {p : Property} {v : ValueSignature}
    (hmem : (.ofClass c, p) ∈ m.properties) (hp : m.FieldAttribute c p v)
    (hrole : m.roleOf (.ofClass c) p = .orderedAttribute c) (hf : f ∈ p.orderedFragments c v n) :
    m.Emits n (.property (.ofClass c) p) (p.attributeRequests c v) f := by
  simp only [Property.orderedFragments, List.mem_append, List.mem_cons, List.not_mem_nil,
    or_false] at hf
  -- field, ordering, accessor, and the immutability if there is one
  rcases hf with (rfl | rfl | rfl) | hf
  · exact .field (q := p.label.request) List.mem_cons_self (.orderedAttribute hmem hp hrole)
  · exact .functionalOrdering hmem hp hrole
  · exact .orderedAccessor hmem hp hrole
  · obtain rfl := Property.mem_attributeImmutability hf
    exact .attributeImmutability hmem hp hf

/-- What an attribute of a class emits, read off the list of its fragments. -/
theorem emits_plainFragments {c : Class} {p : Property} {v : ValueSignature} {k : Multiplicity}
    (hmem : (.ofClass c, p) ∈ m.properties) (hp : m.FieldAttribute c p v)
    (hrole : m.roleOf (.ofClass c) p = .plainAttribute c) (hk : p.multiplicity = .ok k)
    (hf : f ∈ p.plainFragments c v k n) :
    m.Emits n (.property (.ofClass c) p) (p.attributeRequests c v) f := by
  simp only [Property.plainFragments, List.mem_append, List.mem_cons, List.not_mem_nil,
    or_false] at hf
  -- field, accessor, immutability, count and selector
  rcases hf with (((rfl | rfl) | hf) | hf) | rfl
  · exact .field (q := p.label.request) List.mem_cons_self (.plainAttribute hmem hp hrole hk)
  · exact .plainAccessor hmem hp hrole hk
  · obtain rfl := Property.mem_attributeImmutability hf
    exact .attributeImmutability hmem hp hf
  · obtain ⟨b, rfl⟩ := Multiplicity.mem_customFact hf
    exact .attributeCount hmem hp hrole hk hf
  · exact .selector hmem hp hrole

/-! ## Steps -/

/-- What a step emits is one of the fragments, emitted after the requests of the step. -/
theorem Takes.emits {t : Task} {step : Step} (h : m.Takes t step) (ht : t.IsOf m)
    (hf : f ∈ step.fragments n) : m.Emits n t step.requests f := by
  -- one case for each kind of step, in which the fragments are a list that is written out
  cases h with
  | nothing requests => cases hf
  -- a value type emits one declaration
  | @datatype c hc hvalue =>
    obtain rfl := List.mem_singleton.mp hf
    exact .datatype hc hvalue
  | @enumeration c hc hvalue =>
    obtain rfl := List.mem_singleton.mp hf
    exact .enumeration hc hvalue
  -- a world field, and the rigidity of its class if that is stated
  | @extension c base hc hbase =>
    rcases List.mem_cons.mp hf with rfl | hf
    · exact .field (q := c.label.declaredRequest) List.mem_cons_self (.extension hc hbase)
    · rcases Class.mem_rigidity hf with rfl | rfl
      · exact .rigid hc hbase hf
      · exact .antirigid hc hbase hf
  | coverings =>
    rcases List.mem_append.mp hf with hf | hf
    -- a covering of the objects, or one of the aspects
    all_goals
      obtain rfl := mem_coveringFragment hf
      exact .covering hf
  | generalization requests general specific hfields =>
    obtain rfl := List.mem_singleton.mp hf
    exact .generalization ht hfields
  | generalizationSet requests members hmembers =>
    -- all lines of the set are in one fact
    obtain rfl := GeneralizationSet.mem_fragments hf
    exact .generalizationSet ht hmembers hf
  | @inline r e hr he hdatatypes =>
    obtain rfl := List.mem_singleton.mp hf
    exact .inlineRelation hr he hdatatypes
  | @founded r e hr founder hfounder =>
    obtain rfl := List.mem_singleton.mp hf
    -- whatever the relation is called, the name of its field is the answer to its first request
    rw [r.fieldName_eq]
    exact .field List.mem_cons_self (.founded hr hfounder)
  | @indexed r e hr hfounder hordered =>
    rcases List.mem_cons.mp hf with rfl | hf
    · rw [r.fieldName_eq]
      exact .field List.mem_cons_self (.indexed hr hfounder hordered)
    · obtain rfl := List.mem_singleton.mp hf
      exact .ordering hr hfounder hordered
  | @binary r e hr atSource atTarget hfounder hordered hsource htarget =>
    obtain rfl := List.mem_singleton.mp hf
    rw [r.fieldName_eq]
    exact .field List.mem_cons_self (.binary hr hfounder hordered hsource htarget)
  | derivation hmaterial he hrelator hderives hatSource hatTarget =>
    obtain rfl := List.mem_singleton.mp hf
    exact .derivation hmaterial he hrelator hderives hatSource hatTarget
  | inlineAttribute hc hdatatype hv hk =>
    -- the field of the attribute, or the count of its values
    rcases List.mem_cons.mp hf with rfl | hf
    · exact .inlineAttribute hc hdatatype hv hk
    · obtain ⟨b, rfl⟩ := Multiplicity.mem_customFact hf
      exact .inlineCount hc hdatatype hv hk hf
  | orderedAttribute hp hrole => exact emits_orderedFragments ht hp hrole hf
  | plainAttribute hp hrole hk => exact emits_plainFragments ht hp hrole hk hf
  | relationEnd side hr hp hrole hk =>
    simp only [List.cons_append, List.mem_cons, List.mem_append] at hf
    -- the accessor, then the immutability, then the count
    rcases hf with rfl | hf | hf
    · exact .endAccessor hr hp hrole
    -- an end states at most one immutability, of the source or of the target
    · have himmutability : ∃ i, f = .immutability i := by
        rcases EndView.mem_immutability hf with rfl | rfl
        · exact ⟨_, rfl⟩
        · exact ⟨_, rfl⟩
      obtain ⟨i, rfl⟩ := himmutability
      exact .endImmutability hr hp hrole hf
    · obtain ⟨b, rfl⟩ := EndView.mem_multiplicityFact hf
      exact .endCount hr hp hrole hk hf

/-- What a task of a run emits is one of the fragments, emitted after requests of the run. -/
theorem exists_emits (hok : ∀ t ∈ m.tasks, (m.stepOf t).failure = none) {t : Task}
    (ht : t ∈ m.tasks) (hf : f ∈ (m.stepOf t).fragments m.names) :
    ∃ requests ⊆ m.requests, m.Emits m.names t requests f := by
  have hrequests : (m.stepOf t).requests ⊆ m.requests := by
    intro q hq
    exact mem_requests_iff.mpr ⟨t, ht, hq⟩
  exact ⟨_, hrequests, (takes_of_mem_tasks hok ht).emits (isOf_of_mem_tasks ht) hf⟩

/-- What a run emits is one of the fragments, emitted for one of its tasks. -/
theorem exists_emits_of_mem_fragments (hok : ∀ t ∈ m.tasks, (m.stepOf t).failure = none)
    (hf : f ∈ m.fragments) :
    ∃ t ∈ m.tasks, ∃ requests ⊆ m.requests, m.Emits m.names t requests f := by
  obtain ⟨t, ht, hft⟩ := mem_fragments_iff.mp hf
  exact ⟨t, ht, exists_emits hok ht hft⟩

end Model

end OntoWorlds
