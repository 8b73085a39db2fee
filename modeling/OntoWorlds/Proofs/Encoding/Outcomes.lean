import OntoWorlds.Proofs.Encoding.Tasks

/-!
# OntoWorlds — the steps of a run without defects

A task that meets no defect takes one of a few steps: what it looked up is there, what it read is
well formed, and its requests and fragments are known. This is said once, with all guards that lead
to a step, so that properties of whole modules are shown by going through these cases.

* `Model.Takes` — the steps that the tasks of a model can take.
* `Model.Turn` — what a property comes to in each role.
* `takes_stepOf` — a task without a defect takes one of them.
-/

namespace OntoWorlds

open Alloy

/-! ## Elements with their look-ups -/

/-- A relation of the model that is a world field, with its ends. -/
structure Model.FieldRelation (m : Model) (r : Relation) (e : Ends) : Prop where
  mem : r ∈ m.relations
  isField : m.IsFieldRelation r
  ends : m.endsOf r = .ok e

/-- An attribute of the model that is a world field, with the signature of its values. -/
structure Model.FieldAttribute (m : Model) (c : Class) (p : Property) (s : ValueSignature) :
    Prop where
  mem : c ∈ m.classes
  isField : m.IsFieldAttribute c p
  signature : m.valueSignature p = .ok s

/-- A derivation of the model, from a relation to a relator that is a world field. -/
structure Model.Derives (m : Model) (d material : Relation) (relator : Class) : Prop where
  mem : d ∈ m.relations
  isDerivation : d.isDerivation = true
  source : m.sourceOf d = some (.ofRelation material)
  target : m.targetOf d = some (.ofClass relator)
  worldField : relator.hasWorldField = true

/-- The members of a generalization set are found one by one, each with fields for both ends. -/
inductive Model.Members (m : Model) :
    List ElementId → List Request → List (Classifier × Classifier) → Prop
  | nil : Members m [] [] []
  | cons {id : ElementId} {ids : List ElementId} {g : Generalization}
      {requests requests' : List Request} {fields : Classifier × Classifier}
      {members : List (Classifier × Classifier)} (hg : m.findGeneralization id = some g)
      (hfields : m.subsumptionOf g = .ok ⟨requests, some fields⟩)
      (hrest : Members m ids requests' members) :
      Members m (id :: ids) (requests ++ requests') (fields :: members)

/-- The requests of every relation: its field and the types of its ends. -/
def Relation.endRequests (r : Relation) (e : Ends) : List Request :=
  [r.fieldRequest, e.source.label.request, e.target.label.request]

/-! ## Steps -/

/-- The steps that tasks take when they meet no defect. -/
inductive Model.Takes (m : Model) : Task → Step → Prop
  | nothing {t : Task} (requests : List Request) : Takes m t ⟨requests, fun _ => [], none⟩
  | datatype {c : Class} (hc : c ∈ m.classes) (hvalue : c.isValueType = true) :
      Takes m (.klass c) c.datatypeStep
  | enumeration {c : Class} (hc : c ∈ m.classes) (hvalue : c.isValueType = true) :
      Takes m (.klass c) c.enumerationStep
  | extension {c : Class} {base : BaseSignature} (hc : c ∈ m.classes)
      (hbase : c.base? = some base) : Takes m (.klass c) (c.extensionStep base)
  | coverings : Takes m .coverings m.coveringStep
  | generalization {g : Generalization} (requests : List Request) (general specific : Classifier)
      (hfields : m.subsumptionOf g = .ok ⟨requests, some (general, specific)⟩) :
      Takes m (.generalization g)
        ⟨requests, fun n => [.fact (.generalization (specific.fieldName n) (general.fieldName n))],
          none⟩
  | generalizationSet {s : GeneralizationSet} (requests : List Request)
      (members : List (Classifier × Classifier)) (hmembers : m.Members s.members requests members) :
      Takes m (.generalizationSet s) ⟨requests, s.fragments members, none⟩
  | inline {r : Relation} {e : Ends} (hr : r ∈ m.relations) (he : m.endsOf r = .ok e)
      (hdatatypes : m.holdsBetweenDatatypes r = true) : Takes m (.relation r) (r.inlineStep e)
  | founded {r : Relation} {e : Ends} (hr : m.FieldRelation r e) (relator : Classifier)
      (hfounder : m.founderOf r = some (.ok relator)) :
      Takes m (.relation r) ((r.foundedStep e relator).requesting (r.endRequests e))
  | indexed {r : Relation} {e : Ends} (hr : m.FieldRelation r e) (hfounder : m.founderOf r = none)
      (hordered : r.hasOrderedEnd = true) :
      Takes m (.relation r) ((r.indexedStep e).requesting (r.endRequests e))
  | binary {r : Relation} {e : Ends} (hr : m.FieldRelation r e) (atSource atTarget : Quantifier)
      (hfounder : m.founderOf r = none) (hordered : r.hasOrderedEnd = false)
      (hsource : e.sourceEnd.multiplicity.map Multiplicity.quantifier = .ok atSource)
      (htarget : e.targetEnd.multiplicity.map Multiplicity.quantifier = .ok atTarget) :
      Takes m (.relation r)
        ⟨r.endRequests e,
          fun n => [.worldField ⟨r.fieldName n,
            .binary (n.own e.source.id) atSource atTarget (n.own e.target.id)⟩], none⟩
  | derivation {r material atSource atTarget : Relation} {relator : Class} {e : Ends}
      (hmaterial : material ∈ m.relations) (he : m.endsOf material = .ok e)
      (hrelator : relator ∈ m.classes) (hderives : m.Derives r material relator)
      (hatSource : m.findMediation relator.id e.source.id = some atSource)
      (hatTarget : m.findMediation relator.id e.target.id = some atTarget) :
      Takes m (.relation r)
        ⟨[material.fieldRequest, atSource.fieldRequest, atTarget.fieldRequest,
          relator.label.request, e.source.label.request, e.target.label.request],
          fun n => [.fact (.derivation (e.source.inWorld (n.own e.source.id))
            (e.target.inWorld (n.own e.target.id)) (n.own relator.id) (material.fieldName n)
            (atSource.fieldName n) (atTarget.fieldName n))], none⟩
  | inlineAttribute {c : Class} {p : Property} {s : ValueSignature} {k : Multiplicity}
      (hc : c ∈ m.classes) (hdatatype : c.isDatatype = true) (hs : m.valueSignature p = .ok s)
      (hk : p.multiplicity = .ok k) :
      Takes m (.property (.ofClass c) p)
        ⟨[p.label.request, c.label.request] ++ (s.requests ++ []), p.inlineFragments c s k, none⟩
  | orderedAttribute {c : Class} {p : Property} {s : ValueSignature}
      (hp : m.FieldAttribute c p s) (hrole : m.roleOf (.ofClass c) p = .orderedAttribute c) :
      Takes m (.property (.ofClass c) p)
        ⟨[p.label.request, c.label.request] ++ (s.requests ++ [.aliasLike p.id p.id]),
          p.orderedFragments c s, none⟩
  | plainAttribute {c : Class} {p : Property} {s : ValueSignature} {k : Multiplicity}
      (hp : m.FieldAttribute c p s) (hrole : m.roleOf (.ofClass c) p = .plainAttribute c)
      (hk : p.multiplicity = .ok k) :
      Takes m (.property (.ofClass c) p)
        ⟨[p.label.request, c.label.request] ++ (s.requests ++ [.aliasLike p.id p.id]),
          p.plainFragments c s k, none⟩
  | relationEnd {r : Relation} {p : Property} {e : Ends} {k : Multiplicity} (side : EndSide)
      (hr : m.FieldRelation r e) (hp : p ∈ r.ends)
      (hrole : m.roleOf (.ofRelation r) p = .relationEnd r side) (hk : p.multiplicity = .ok k) :
      Takes m (.property (.ofRelation r) p)
        ⟨(EndView.ofEnds r p side e).requests ++ [],
          fun n => .accessor ((EndView.ofEnds r p side e).accessor m n)
            :: (EndView.ofEnds r p side e).immutability n
            ++ (EndView.ofEnds r p side e).multiplicityFact m k n, none⟩

/-- What a property without a defect comes to in each role, with what has been looked up and read
by then. The multiplicity of a sequence is not read. -/
inductive Model.Turn (m : Model) (x : Classifier) (p : Property) : Step → Prop
  | skipped {reason : SkipReason} (hrole : m.roleOf x p = .skipped reason) : Turn m x p .skip
  | datatypeAttribute {c : Class} {v : ValueSignature} {k : Multiplicity}
      (hrole : m.roleOf x p = .datatypeAttribute c) (hv : m.valueSignature p = .ok v)
      (hk : p.multiplicity = .ok k) :
      Turn m x p ⟨[p.label.request, c.label.request] ++ (v.requests ++ []),
        p.inlineFragments c v k, none⟩
  | orderedAttribute {c : Class} {v : ValueSignature}
      (hrole : m.roleOf x p = .orderedAttribute c) (hv : m.valueSignature p = .ok v) :
      Turn m x p ⟨[p.label.request, c.label.request] ++ (v.requests ++ [.aliasLike p.id p.id]),
        p.orderedFragments c v, none⟩
  | plainAttribute {c : Class} {v : ValueSignature} {k : Multiplicity}
      (hrole : m.roleOf x p = .plainAttribute c) (hv : m.valueSignature p = .ok v)
      (hk : p.multiplicity = .ok k) :
      Turn m x p ⟨[p.label.request, c.label.request] ++ (v.requests ++ [.aliasLike p.id p.id]),
        p.plainFragments c v k, none⟩
  | relationEnd {r : Relation} {side : EndSide} {e : Ends} {k : Multiplicity}
      (hrole : m.roleOf x p = .relationEnd r side) (he : m.endsOf r = .ok e)
      (hk : p.multiplicity = .ok k) :
      Turn m x p ⟨(EndView.ofEnds r p side e).requests ++ [],
        fun n => .accessor ((EndView.ofEnds r p side e).accessor m n)
          :: (EndView.ofEnds r p side e).immutability n
          ++ (EndView.ofEnds r p side e).multiplicityFact m k n, none⟩

/-! ## Steps of classes -/

namespace Class

variable {c : Class}

/-- A class with a signature that is no world field is a value type. -/
theorem isValueType_of_hasSignature (h : c.hasSignature = true) (hfield : c.hasWorldField = false) :
    c.isValueType = true := by
  -- of the two ways to have a signature, the field is ruled out
  rw [hasSignature, hfield, Bool.or_false] at h
  exact h

/-- A datatype becomes a signature. -/
theorem step_of_isDatatype (h : c.isDatatype = true) : c.step = c.datatypeStep := by
  rw [step, h, Bool.true_or, if_pos rfl]

/-- A value type becomes a signature or an `enum`. -/
theorem step_of_isValueType (h : c.isValueType = true) :
    c.step = c.datatypeStep ∨ c.step = c.enumerationStep := by
  unfold step
  split
  · exact Or.inl rfl
  · next hdatatype =>
    -- not a datatype, so it is an enumeration; one without literals has been sorted out before
    rw [Bool.or_eq_true, not_or, Bool.not_eq_true] at hdatatype
    rw [isValueType, hdatatype.1, Bool.false_or] at h
    rw [if_pos h]
    exact Or.inr rfl

/-- A class with a base signature is neither a datatype nor an enumeration. -/
theorem isValueType_of_base? {base : BaseSignature} (h : c.base? = some base) :
    c.isDatatype = false ∧ c.isEnumeration = false := by
  unfold base? at h
  unfold isDatatype isEnumeration
  cases hs : c.stereotype with
  | none => exact ⟨rfl, rfl⟩
  | some st =>
    rw [hs] at h
    -- only the stereotypes with a base signature are left
    cases st <;> first | exact ⟨rfl, rfl⟩ | cases h

/-- Classes are encoded without a look at the rest of the model, and never fail. -/
theorem failure_step (c : Class) : c.step.failure = none := by
  unfold step
  split_ifs
  · rfl
  · rfl
  · split <;> rfl

/-- A class with a base signature becomes a world field. -/
theorem step_of_base? {base : BaseSignature} (h : c.base? = some base) :
    c.step = c.extensionStep base := by
  obtain ⟨hdatatype, henumeration⟩ := isValueType_of_base? h
  simp only [step, hdatatype, henumeration, h, Bool.false_and, Bool.or_false, Bool.false_eq_true,
    if_false]

/-- A class that covers a base signature is drawn from one. -/
theorem base?_of_covers? {base : BaseSignature} (h : c.covers? = some base) :
    ∃ b, c.base? = some b := by
  unfold covers? at h
  split at h
  · next st b hst hb => exact ⟨b, hb⟩
  · cases h

end Class

/-! ## Optional fragments -/

section

variable {f : Fragment}

/-- The rigidity of a class is one of two facts. -/
theorem Class.mem_rigidity {c : Class} {name : String} {base : BaseSignature}
    (h : f ∈ c.rigidity name base) :
    f = .fact (.rigid name base) ∨ f = .fact (.antirigid name base) := by
  unfold Class.rigidity at h
  split at h
  · split_ifs at h
    · exact Or.inl (List.mem_singleton.mp h)
    · exact Or.inr (List.mem_singleton.mp h)
    · cases h
  · cases h

/-- A covering names all classes that cover the base signature. -/
theorem Model.mem_coveringFragment {m : Model} {n : Names} {base : BaseSignature}
    (h : f ∈ m.coveringFragment n base) :
    f = .covering ⟨base, (m.covering base).map fun c => n.own c.id⟩ := by
  simp only [Model.coveringFragment] at h
  split at h
  · cases h
  · exact List.mem_singleton.mp h

/-- The lines of a set stand in one fact. -/
theorem GeneralizationSet.mem_fragments {s : GeneralizationSet}
    {members : List (Classifier × Classifier)} {n : Names} (h : f ∈ s.fragments members n) :
    f = .fact (.generalizationSet (s.lines members n)) := by
  simp only [GeneralizationSet.fragments] at h
  split at h
  · cases h
  · exact List.mem_singleton.mp h

/-- The bounds of a multiplicity are stated by a fact about what is counted. -/
theorem Multiplicity.mem_boundsFact {k : Multiplicity} {counted : Counted}
    (h : f ∈ k.boundsFact counted) : ∃ b, f = .fact (.multiplicity counted b) := by
  unfold Multiplicity.boundsFact at h
  split at h
  · exact ⟨_, List.mem_singleton.mp h⟩
  · cases h

/-- So are those of a custom one. -/
theorem Multiplicity.mem_customFact {k : Multiplicity} {counted : Counted}
    (h : f ∈ k.customFact counted) : ∃ b, f = .fact (.multiplicity counted b) := by
  unfold Multiplicity.customFact at h
  split at h
  · exact mem_boundsFact h
  · cases h

/-- An attribute can only have its target fixed. -/
theorem Property.mem_attributeImmutability {p : Property} {owner name : String}
    (h : f ∈ p.attributeImmutability owner name) : f = .immutability (.target owner name) := by
  unfold Property.attributeImmutability at h
  split at h
  · exact List.mem_singleton.mp h
  · cases h

/-- An end can have the source or the target of its relation fixed. -/
theorem EndView.mem_immutability {v : EndView} {n : Names} (h : f ∈ v.immutability n) :
    f = .immutability (.source (n.own v.opposite.id) (v.relation.fieldName n)) ∨
      f = .immutability (.target (n.own v.opposite.id) (v.relation.fieldName n)) := by
  unfold EndView.immutability at h
  split at h
  · split at h
    · exact Or.inl (List.mem_singleton.mp h)
    · cases h
  · split at h
    · exact Or.inr (List.mem_singleton.mp h)
    · cases h

/-- The multiplicity of an end is counted for its accessor. -/
theorem EndView.mem_multiplicityFact {m : Model} {v : EndView} {k : Multiplicity} {n : Names}
    (h : f ∈ v.multiplicityFact m k n) : ∃ b, f = .fact (.multiplicity (v.counted n) b) := by
  unfold EndView.multiplicityFact at h
  split at h
  · exact Multiplicity.mem_boundsFact h
  · cases h

end

namespace Model

variable {m : Model}

/-! ## Classes -/

/-- A class takes one of its three steps, or none. -/
theorem takes_klass {c : Class} (hc : c ∈ m.classes) : m.Takes (.klass c) c.step := by
  -- a signature, an `enum`, a world field or nothing
  unfold Class.step
  split
  · next h =>
    refine .datatype hc ?_
    rw [Class.isValueType, Bool.or_eq_true]
    rw [Bool.or_eq_true, Bool.and_eq_true] at h
    exact h.imp_right And.left
  split
  · next h => exact .enumeration hc (by rw [Class.isValueType, h, Bool.or_true])
  split
  · next base hbase => exact .extension hc hbase
  · exact .nothing []

/-! ## Generalizations -/

/-- A generalization without a defect states an inclusion, or nothing. -/
theorem takes_generalization {g : Generalization} (h : (m.generalizationStep g).failure = none) :
    m.Takes (.generalization g) (m.generalizationStep g) := by
  unfold generalizationStep at h ⊢
  cases hs : m.subsumptionOf g with
  -- a defect of the look-up would be the defect of the step
  | error d => rw [hs] at h; cases h
  | ok s =>
    rw [Step.given_ok]
    cases hfields : s.fields with
    | none => exact .nothing s.requests
    | some fields =>
      refine .generalization s.requests fields.1 fields.2 ?_
      rw [hs, ← hfields]

/-- The members of a set without a defect all have fields, or the set states nothing. -/
theorem takes_members {s : GeneralizationSet} {members : List ElementId}
    {seen : List (Classifier × Classifier)} (h : (m.membersStep s members seen).failure = none) :
    ∃ requests fragments, m.membersStep s members seen = ⟨requests, fragments, none⟩ ∧
      (fragments = (fun _ => []) ∨
        ∃ fields, m.Members members requests fields ∧
          fragments = s.fragments (seen ++ fields)) := by
  induction members generalizing seen with
  | nil =>
    -- the whole list has been seen
    refine ⟨[], s.fragments seen, rfl, Or.inr ⟨[], .nil, ?_⟩⟩
    rw [List.append_nil]
  | cons id members ih =>
    -- the step goes through the members as this induction does
    unfold membersStep at h ⊢
    cases hg : m.findGeneralization id with
    | none => rw [hg] at h; cases h
    | some g =>
      simp only [hg] at h ⊢
      cases ht : m.subsumptionOf g with
      | error d => rw [ht] at h; cases h
      | ok t =>
        simp only [ht, Step.given_ok] at h ⊢
        cases hfields : t.fields with
        | none => exact ⟨t.requests ++ [], fun _ => [], rfl, Or.inl rfl⟩
        | some fields =>
          simp only [hfields] at h ⊢
          -- the fragments are those of the rest, with this member among the ones seen
          obtain ⟨requests, fragments, heq, hfragments⟩ := ih h
          refine ⟨t.requests ++ requests, fragments, by rw [heq]; rfl, hfragments.imp_right ?_⟩
          rintro ⟨rest, hrest, rfl⟩
          have hmember : m.subsumptionOf g = .ok ⟨t.requests, some fields⟩ := by
            rw [ht, ← hfields]
          refine ⟨fields :: rest, .cons hg hmember hrest, ?_⟩
          rw [List.append_assoc, List.singleton_append]

/-- A generalization set without a defect states its lines, or nothing. -/
theorem takes_generalizationSet {s : GeneralizationSet}
    (h : (m.generalizationSetStep s).failure = none) :
    m.Takes (.generalizationSet s) (m.generalizationSetStep s) := by
  unfold generalizationSetStep at h ⊢
  split
  · next hlines =>
    rw [if_pos hlines] at h
    obtain ⟨requests, fragments, heq, rfl | ⟨members, hmembers, rfl⟩⟩ := takes_members h
    · rw [heq]
      exact .nothing requests
    · rw [heq]
      exact .generalizationSet requests members hmembers
  · exact .nothing []

/-! ## Relations -/

/-- The three shapes of the field of a relation: with the relator that founds it, with positions,
or with the quantifiers of its ends. -/
theorem fieldStep_cases {r : Relation} {e : Ends} (h : (m.fieldStep r e).failure = none) :
    (∃ relator, m.founderOf r = some (.ok relator) ∧
      m.fieldStep r e = (r.foundedStep e relator).requesting (r.endRequests e)) ∨
    (m.founderOf r = none ∧ r.hasOrderedEnd = true ∧
      m.fieldStep r e = (r.indexedStep e).requesting (r.endRequests e)) ∨
    (m.founderOf r = none ∧ r.hasOrderedEnd = false ∧ ∃ atSource atTarget,
      e.sourceEnd.multiplicity = .ok atSource ∧ e.targetEnd.multiplicity = .ok atTarget ∧
      m.fieldStep r e = ⟨r.endRequests e, fun n => [.worldField ⟨r.fieldName n,
        .binary (n.own e.source.id) atSource.quantifier atTarget.quantifier
          (n.own e.target.id)⟩], none⟩) := by
  unfold fieldStep at h ⊢
  cases hfounder : m.founderOf r with
  | some founder =>
    rw [hfounder] at h
    cases founder with
    -- without a relator the step would fail
    | error d => cases h
    | ok relator => exact Or.inl ⟨relator, rfl, rfl⟩
  | none =>
    right
    rw [hfounder] at h
    dsimp only at h ⊢
    by_cases hordered : r.hasOrderedEnd = true
    -- an ordered end makes the field an indexed one, before any cardinality is read
    · left
      rw [if_pos hordered]
      exact ⟨rfl, hordered, rfl⟩
    · right
      -- only here are the cardinalities read, so only here can they be the defect
      rw [if_neg hordered] at h ⊢
      unfold Relation.binaryStep at h ⊢
      cases hs : e.sourceEnd.multiplicity with
      | error d => rw [hs] at h; cases h
      | ok atSource =>
        cases ht : e.targetEnd.multiplicity with
        | error d => rw [hs, ht] at h; cases h
        | ok atTarget =>
          exact ⟨rfl, Bool.eq_false_iff.mpr hordered, atSource, atTarget, rfl, rfl, rfl⟩

/-- The field of a relation takes one of the three shapes. -/
theorem takes_field {r : Relation} {e : Ends} (hr : m.FieldRelation r e)
    (h : (m.fieldStep r e).failure = none) : m.Takes (.relation r) (m.fieldStep r e) := by
  rcases fieldStep_cases h with ⟨relator, hfounder, heq⟩ | ⟨hfounder, hordered, heq⟩ |
    ⟨hfounder, hordered, k, k', hk, hk', heq⟩
  · -- the relator that founds it is in the middle
    rw [heq]
    exact .founded hr relator hfounder
  · -- positions are in the middle
    rw [heq]
    exact .indexed hr hfounder hordered
  · -- the multiplicities of the ends have been read
    rw [heq]
    refine .binary hr k.quantifier k'.quantifier hfounder hordered ?_ ?_
    · rw [hk]
      rfl
    · rw [hk']
      rfl

/-- A derivation without a defect states a fact if both mediations are found, else nothing. -/
theorem takes_derivation {r material : Relation} {relator : Class}
    (hmaterial : material ∈ m.relations) (hrelator : relator ∈ m.classes)
    (hderives : m.Derives r material relator)
    (h : (m.derivationStep material relator).failure = none) :
    m.Takes (.relation r) (m.derivationStep material relator) := by
  unfold derivationStep at h ⊢
  cases he : m.endsOf material with
  | error d => rw [he] at h; cases h
  | ok e =>
    rw [Step.given_ok]
    -- both mediations, or no fact
    split
    · next hatSource hatTarget =>
      exact .derivation hmaterial he hrelator hderives hatSource hatTarget
    · exact .nothing []

/-- A relation without a defect is an inline field, a derivation, a world field, or nothing. -/
theorem takes_relation {r : Relation} (hr : r ∈ m.relations)
    (h : (m.relationStep r).failure = none) : m.Takes (.relation r) (m.relationStep r) := by
  unfold relationStep at h ⊢
  cases he : m.endsOf r with
  | error d => rw [he] at h; cases h
  | ok e =>
    simp only [he, Step.given_ok] at h ⊢
    -- the guards are gone through in the order of the step
    by_cases hdatatypes : m.holdsBetweenDatatypes r = true
    · rw [if_pos hdatatypes]
      exact .inline hr he hdatatypes
    rw [if_neg hdatatypes] at h ⊢
    by_cases hrepresented : m.isRepresented r = true
    · rw [hrepresented, Bool.not_true, if_neg Bool.false_ne_true] at h ⊢
      by_cases hderivation : r.isDerivation = true
      · rw [if_pos hderivation] at h ⊢
        have hmaterial := has_source_of_endsOf he
        have hrelator := has_target_of_endsOf he
        cases hs : e.source with
        -- a derivation between other elements is left out
        | ofClass c => exact .nothing []
        | ofRelation material =>
          cases ht : e.target with
          | ofRelation q => exact .nothing []
          | ofClass relator =>
            rw [hs] at hmaterial
            rw [ht] at hrelator
            -- a derivation is represented by the field of its relator
            have hsource := sourceOf_of_endsOf he
            have htarget := targetOf_of_endsOf he
            rw [hs] at hsource
            rw [ht] at htarget
            rw [isRepresented, hsource, htarget] at hrepresented
            have hfield : relator.hasWorldField = true := (Bool.and_eq_true _ _ ▸ hrepresented).2
            simp only [hs, ht] at h ⊢
            exact takes_derivation hmaterial hrelator ⟨hr, hderivation, hsource, htarget, hfield⟩ h
      · rw [if_neg hderivation] at h ⊢
        refine takes_field ⟨hr, ⟨?_, ?_, hrepresented⟩, he⟩ h
        · exact Bool.eq_false_iff.mpr hdatatypes
        · exact Bool.eq_false_iff.mpr hderivation
    · rw [Bool.eq_false_iff.mpr hrepresented, Bool.not_false, if_pos rfl]
      exact .nothing []

/-! ## Properties -/

/-- The multiplicity of a property is what its cardinality denotes, if it denotes any. -/
theorem multiplicity_eq_ok_iff {p : Property} {k : Multiplicity} :
    p.multiplicity = .ok k ↔ Multiplicity.parse p.cardinality = some k := by
  unfold Property.multiplicity
  cases Multiplicity.parse p.cardinality with
  | none => simp only [reduceCtorEq]
  | some k' => simp only [Except.ok.injEq, Option.some.injEq]

/-- From either side, the view of an end is of the property itself. -/
theorem property_ofEnds (r : Relation) (p : Property) (side : EndSide) (e : Ends) :
    (EndView.ofEnds r p side e).property = p := by
  cases side <;> rfl

theorem relation_ofEnds (r : Relation) (p : Property) (side : EndSide) (e : Ends) :
    (EndView.ofEnds r p side e).relation = r := by
  cases side <;> rfl

/-- A property without a defect has the turn of its role. -/
theorem turn_propertyStep {x : Classifier} {p : Property}
    (h : (m.propertyStep x p).failure = none) : m.Turn x p (m.propertyStep x p) := by
  unfold propertyStep at h ⊢
  -- each role reads what it needs in its own order; the first thing missing would be the defect
  cases hrole : m.roleOf x p with
  | skipped reason => exact .skipped hrole
  | datatypeAttribute c =>
    simp only [hrole, datatypeAttributeStep] at h ⊢
    cases hv : m.valueSignature p with
    | error d => rw [hv] at h; cases h
    | ok v =>
      cases hk : p.multiplicity with
      | error d => rw [hv, hk] at h; cases h
      | ok k => exact .datatypeAttribute hrole hv hk
  | orderedAttribute c =>
    simp only [hrole, orderedAttributeStep] at h ⊢
    cases hv : m.valueSignature p with
    | error d => rw [hv] at h; cases h
    | ok v => exact .orderedAttribute hrole hv
  | plainAttribute c =>
    simp only [hrole, plainAttributeStep] at h ⊢
    cases hv : m.valueSignature p with
    | error d => rw [hv] at h; cases h
    | ok v =>
      cases hk : p.multiplicity with
      | error d => rw [hv, hk] at h; cases h
      | ok k => exact .plainAttribute hrole hv hk
  | relationEnd r side =>
    simp only [hrole, relationEndStep] at h ⊢
    cases he : m.endsOf r with
    | error d => rw [he] at h; cases h
    | ok e =>
      rw [he, Step.given_ok] at h
      simp only [Step.given_ok, EndView.step, property_ofEnds] at h ⊢
      cases hk : p.multiplicity with
      | error d => rw [hk] at h; cases h
      | ok k => exact .relationEnd hrole he hk

/-- A property of the model without a defect takes the step of its role. -/
theorem takes_property {x : Classifier} {p : Property} (hp : (x, p) ∈ m.properties)
    (h : (m.propertyStep x p).failure = none) : m.Takes (.property x p) (m.propertyStep x p) := by
  have hhas := has_of_mem_properties hp
  have hturn := turn_propertyStep h
  -- the step is forgotten, so that the cases are those of the turn
  generalize m.propertyStep x p = step at hturn ⊢
  cases hturn with
  | skipped hrole => exact .nothing []
  | datatypeAttribute hrole hv hk =>
    obtain ⟨rfl, hdatatype⟩ := roleOf_datatypeAttribute hrole
    exact .inlineAttribute hhas hdatatype hv hk
  | orderedAttribute hrole hv =>
    obtain ⟨rfl, hfield, -⟩ := roleOf_orderedAttribute hrole
    exact .orderedAttribute ⟨hhas, hfield, hv⟩ hrole
  | plainAttribute hrole hv hk =>
    obtain ⟨rfl, hfield, -⟩ := roleOf_plainAttribute hrole
    exact .plainAttribute ⟨hhas, hfield, hv⟩ hrole hk
  | relationEnd hrole he hk =>
    obtain ⟨rfl, hfield, -⟩ := roleOf_relationEnd hrole
    exact .relationEnd _ ⟨hhas, hfield, he⟩ (mem_ends_of_mem_properties hp) hrole hk

/-! ## Tasks -/

/-- A task of the model without a defect takes one of the steps. -/
theorem takes_stepOf {t : Task} (ht : t.IsOf m) (h : (m.stepOf t).failure = none) :
    m.Takes t (m.stepOf t) := by
  cases t with
  | klass c => exact takes_klass ht
  | coverings => exact .coverings
  | generalization g => exact takes_generalization h
  | generalizationSet s => exact takes_generalizationSet h
  | relation r => exact takes_relation ht h
  | property x p => exact takes_property ht h

/-- So does every task of a run without defects. -/
theorem takes_of_mem_tasks (hok : ∀ t ∈ m.tasks, (m.stepOf t).failure = none) {t : Task}
    (ht : t ∈ m.tasks) : m.Takes t (m.stepOf t) :=
  takes_stepOf (isOf_of_mem_tasks ht) (hok t ht)

end Model

end OntoWorlds
