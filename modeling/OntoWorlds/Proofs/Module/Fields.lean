import OntoWorlds.Proofs.Module.References

/-!
# OntoWorlds — the world fields of a module

A world field is declared by a class of endurants, by a relation or by an attribute. The element
decides the shape of the field: its columns are the names of the elements that it relates, and what
decides between the shapes of a relation is looked up in the model. In a model with distinct ids an
element declares one field at most, and different elements declare fields of different names, so a
name that is used for an element is the name of a field only if this element declares one.

* `exists_declaresField`, `mem_worldFields_of_declaresField` — the world fields of a run are those
  that elements declare.
* `DeclaresField.of_class`, `DeclaresField.of_relation`, `DeclaresField.of_attribute` — what an
  element declares.
* `declaresField_of_name` — a name is the one of a field only if its element declares the field.
-/

namespace OntoWorlds

open Alloy

/-! ## Elements that are fields -/

/-- The id that a key stands for. -/
def Key.id : Key → ElementId
  | own id => id
  | byname id => id

/-- The key of the field of a relation stands for the relation, with a name or without. -/
theorem Relation.id_fieldRequest_key (r : Relation) : r.fieldRequest.key.id = r.id := by
  unfold fieldRequest
  split <;> rfl

/-- The key of the field of a classifier stands for the classifier. -/
theorem Classifier.id_fieldRequest_key (x : Classifier) : x.fieldRequest.key.id = x.id := by
  cases x with
  | ofClass c => rfl
  | ofRelation r => exact r.id_fieldRequest_key

/-- A type that is a world field is no datatype. -/
theorem Classifier.isDatatype_of_hasWorldField {x : Classifier} (h : x.hasWorldField = true) :
    x.isDatatype = false := by
  cases x with
  | ofClass c =>
    obtain ⟨base, hbase⟩ := Option.isSome_iff_exists.mp h
    exact (Class.isValueType_of_base? hbase).1
  | ofRelation r => rfl

namespace Model

variable {m : Model} {n : Names}

/-- A represented relation that is no derivation is a world field. -/
theorem isFieldRelation_of_isRepresented {r : Relation} (hrepresented : m.isRepresented r = true)
    (hderivation : r.isDerivation = false) : m.IsFieldRelation r := by
  refine ⟨?_, hderivation, hrepresented⟩
  unfold isRepresented at hrepresented
  unfold holdsBetweenDatatypes
  split at hrepresented
  · next q target hs ht =>
    -- the source is a relation, which is no datatype
    rw [hs, ht]
    rfl
  · next c target hs ht =>
    -- one of the ends is a world field, which is no datatype
    rw [hs, ht]
    have hends : c.hasWorldField = true ∨ target.hasWorldField = true := by
      rw [Bool.and_eq_true] at hrepresented
      exact Bool.or_eq_true _ _ ▸ hrepresented.2
    rw [Bool.and_eq_false_iff]
    exact hends.imp (Classifier.isDatatype_of_hasWorldField (x := .ofClass c))
      Classifier.isDatatype_of_hasWorldField
  · cases hrepresented

/-- A relation is founded if it is a derived material relation, whatever founds it. -/
theorem isDerivedMaterial_eq (r : Relation) : m.isDerivedMaterial r = (m.founderOf r).isSome := by
  unfold founderOf
  -- the derivation that the founder is looked up by is the one that makes the relation derived
  cases hd : m.derivationOf r with
  | none =>
    rw [isDerivedMaterial, hd]
    exact Bool.and_false _
  | some d =>
    dsimp only
    split
    · next hderived => exact hderived
    · next hderived => exact Bool.eq_false_iff.mpr hderived

/-! ## Fields are emitted -/

/-- What an element declares is emitted, by the step of the element. -/
theorem DeclaresField.mem_fragments {k : Key} {shape : FieldShape}
    (h : m.DeclaresField m.names k shape) :
    .worldField ⟨m.names.of k, shape⟩ ∈ m.fragments := by
  rw [mem_fragments_iff]
  cases h with
  | @extension c base hc hbase =>
    refine ⟨.klass c, mem_tasks_of_mem_classes hc, ?_⟩
    show _ ∈ c.step.fragments m.names
    rw [Class.step_of_base? hbase]
    exact List.mem_cons_self
  -- the shape of the field of a relation is decided in the same order as in the step
  | @founded r e founder hr hfounder =>
    refine ⟨.relation r, mem_tasks_of_mem_relations hr.mem, ?_⟩
    rw [stepOf, hr.relationStep_eq, fieldStep, hfounder, ← r.fieldName_eq]
    exact List.mem_cons_self
  | @indexed r e hr hfounder hordered =>
    refine ⟨.relation r, mem_tasks_of_mem_relations hr.mem, ?_⟩
    rw [stepOf, hr.relationStep_eq, fieldStep, hfounder, if_pos hordered, ← r.fieldName_eq]
    exact List.mem_cons_self
  | @binary r e atSource atTarget hr hfounder hordered hsource htarget =>
    refine ⟨.relation r, mem_tasks_of_mem_relations hr.mem, ?_⟩
    rw [stepOf, hr.relationStep_eq, fieldStep, hfounder, hordered, ← r.fieldName_eq]
    -- both multiplicities are well formed, since they have keywords
    unfold Relation.binaryStep
    cases hs : e.sourceEnd.multiplicity with
    | error d => rw [hs] at hsource; cases hsource
    | ok k =>
      cases ht : e.targetEnd.multiplicity with
      | error d => rw [ht] at htarget; cases htarget
      | ok k' =>
        rw [hs] at hsource
        rw [ht] at htarget
        cases hsource
        cases htarget
        exact List.mem_cons_self
  | @orderedAttribute c p v hmem hp hrole =>
    refine ⟨.property (.ofClass c) p, mem_tasks_of_mem_properties hmem, ?_⟩
    rw [stepOf, propertyStep, hrole]
    show _ ∈ (m.orderedAttributeStep c p).fragments m.names
    rw [orderedAttributeStep, hp.signature]
    exact List.mem_cons_self
  | @plainAttribute c p v k hmem hp hrole hk =>
    refine ⟨.property (.ofClass c) p, mem_tasks_of_mem_properties hmem, ?_⟩
    rw [stepOf, propertyStep, hrole]
    show _ ∈ (m.plainAttributeStep c p).fragments m.names
    rw [plainAttributeStep, hp.signature, hk]
    exact List.mem_cons_self

/-! ## The fields of an element -/

section

variable {k : Key} {shape : FieldShape}

/-- An extension is the field of a class. -/
theorem DeclaresField.exists_class {base : BaseSignature}
    (h : m.DeclaresField n k (.extension base)) :
    ∃ c ∈ m.classes, c.base? = some base ∧ k = .own c.id := by
  cases h with
  | @extension c _ hc hbase => exact ⟨c, hc, hbase, rfl⟩

/-- The field of a class holds its extension. -/
theorem DeclaresField.of_class (hid : m.ids.Nodup) {c : Class} (hc : c ∈ m.classes)
    (h : m.DeclaresField n k shape) (hk : k.id = c.id) :
    ∃ base, c.base? = some base ∧ shape = .extension base := by
  have hclass : m.Has (.ofClass c) := hc
  -- a relation has another id
  have hrelation : ∀ {r : Relation} {e : Ends}, m.FieldRelation r e →
      r.fieldRequest.key.id ≠ c.id := by
    intro r e hr heq
    rw [r.id_fieldRequest_key] at heq
    have hhas : m.Has (.ofRelation r) := hr.mem
    cases eq_of_has hid hhas hclass heq
  cases h with
  | @extension d base hd hbase =>
    have hhas : m.Has (.ofClass d) := hd
    cases eq_of_has hid hhas hclass hk
    exact ⟨base, hbase, rfl⟩
  | founded hr => exact absurd hk (hrelation hr)
  | indexed hr => exact absurd hk (hrelation hr)
  | binary hr => exact absurd hk (hrelation hr)
  | orderedAttribute hmem => exact absurd hk (id_ne_of_mem_properties hid hclass hmem)
  | plainAttribute hmem => exact absurd hk (id_ne_of_mem_properties hid hclass hmem)

/-- The field of a relation has the columns of its ends, and between them the founder or a position
if there is either. -/
theorem DeclaresField.of_relation (hid : m.ids.Nodup) {r : Relation} (hr : r ∈ m.relations)
    (h : m.DeclaresField n k shape) (hk : k.id = r.id) :
    ∃ e, m.FieldRelation r e ∧
      ((∃ founder, m.founderOf r = some (.ok founder) ∧
          shape = .founded (n.own e.source.id) (n.own founder.id) (n.own e.target.id)) ∨
        (m.founderOf r = none ∧ r.hasOrderedEnd = true ∧
          shape = .indexed (n.own e.source.id) (n.own e.target.id)) ∨
        (m.founderOf r = none ∧ r.hasOrderedEnd = false ∧ ∃ atSource atTarget,
          shape = .binary (n.own e.source.id) atSource atTarget (n.own e.target.id))) := by
  -- the relation with this id is the one at hand
  have hrelation : m.Has (.ofRelation r) := hr
  have heq : ∀ {q : Relation} {e : Ends}, m.FieldRelation q e → q.fieldRequest.key.id = r.id →
      q = r := by
    intro q e hq hid'
    rw [q.id_fieldRequest_key] at hid'
    have hhas : m.Has (.ofRelation q) := hq.mem
    cases eq_of_has hid hhas hrelation hid'
    rfl
  cases h with
  | @extension d base hd hbase =>
    have hhas : m.Has (.ofClass d) := hd
    cases eq_of_has hid hhas hrelation hk
  | @founded q e founder hq hfounder =>
    obtain rfl := heq hq hk
    exact ⟨e, hq, Or.inl ⟨founder, hfounder, rfl⟩⟩
  | @indexed q e hq hfounder hordered =>
    obtain rfl := heq hq hk
    exact ⟨e, hq, Or.inr (Or.inl ⟨hfounder, hordered, rfl⟩)⟩
  | @binary q e atSource atTarget hq hfounder hordered =>
    obtain rfl := heq hq hk
    exact ⟨e, hq, Or.inr (Or.inr ⟨hfounder, hordered, atSource, atTarget, rfl⟩)⟩
  | orderedAttribute hmem => exact absurd hk (id_ne_of_mem_properties hid hrelation hmem)
  | plainAttribute hmem => exact absurd hk (id_ne_of_mem_properties hid hrelation hmem)

/-- The field of an attribute is one of sequences, or has the keyword of its cardinality at the
values. -/
theorem DeclaresField.of_attribute (hid : m.ids.Nodup) {x : Classifier} {p : Property}
    (hp : (x, p) ∈ m.properties) (h : m.DeclaresField n k shape) (hk : k.id = p.id) :
    ∃ c v, x = .ofClass c ∧ m.FieldAttribute c p v ∧
      ((m.roleOf x p = .orderedAttribute c ∧ shape = .indexed (n.own c.id) (v.name n)) ∨
        ∃ bounds, m.roleOf x p = .plainAttribute c ∧ p.multiplicity = .ok bounds ∧
          shape = .binary (n.own c.id) .set bounds.quantifier (v.name n)) := by
  -- a class or relation has another id
  have hrelation : ∀ {r : Relation} {e : Ends}, m.FieldRelation r e →
      r.fieldRequest.key.id ≠ p.id := by
    intro r e hr heq
    rw [r.id_fieldRequest_key] at heq
    have hhas : m.Has (.ofRelation r) := hr.mem
    exact id_ne_of_mem_properties hid hhas hp heq.symm
  cases h with
  | @extension c base hc hbase =>
    have hhas : m.Has (.ofClass c) := hc
    exact absurd hk.symm (id_ne_of_mem_properties hid hhas hp)
  | founded hr => exact absurd hk (hrelation hr)
  | indexed hr => exact absurd hk (hrelation hr)
  | binary hr => exact absurd hk (hrelation hr)
  | @orderedAttribute c q v hmem hq hrole =>
    obtain ⟨rfl, rfl⟩ := Prod.mk.inj (eq_of_mem_properties hid hmem hp hk)
    exact ⟨c, v, rfl, hq, Or.inl ⟨hrole, rfl⟩⟩
  | @plainAttribute c q v bounds hmem hq hrole hbounds =>
    obtain ⟨rfl, rfl⟩ := Prod.mk.inj (eq_of_mem_properties hid hmem hp hk)
    exact ⟨c, v, rfl, hq, Or.inr ⟨bounds, hrole, hbounds, rfl⟩⟩

end

/-! ## The fields of a run -/

/-- A relation with a field requests the name of the field. -/
theorem FieldRelation.fieldRequest_mem {r : Relation} {e : Ends} (hr : m.FieldRelation r e) :
    r.fieldRequest ∈ m.requests := by
  refine mem_requests_iff.mpr ⟨.relation r, mem_tasks_of_mem_relations hr.mem, ?_⟩
  rw [stepOf, hr.relationStep_eq]
  exact List.mem_cons_self

section

variable {s : Sections} (hid : m.ids.Nodup) (h : m.encoding = .ok s)
include hid h

/-- A world field is declared by an element, under a requested name. -/
theorem exists_declaresField {f : WorldField} (hf : f ∈ s.worldFields) :
    ∃ q ∈ m.requests, f.name = m.names.of q.key ∧ m.DeclaresField m.names q.key f.shape := by
  obtain ⟨rfl, hok⟩ := encoding_ok hid h
  obtain ⟨t, -, requests, hrequests, hemits⟩ :=
    exists_emits_of_mem_fragments hok (mem_worldFields_iff.mp hf)
  cases hemits with
  | @field _ _ q shape hq hdeclares => exact ⟨q, hrequests hq, rfl, hdeclares⟩

/-- What an element declares is a world field of the module. -/
theorem mem_worldFields_of_declaresField {k : Key} {shape : FieldShape}
    (hk : m.DeclaresField m.names k shape) : ⟨m.names.of k, shape⟩ ∈ s.worldFields := by
  obtain ⟨rfl, hok⟩ := encoding_ok hid h
  exact mem_worldFields_iff.mpr hk.mem_fragments

/-- A field that is called like an element is the field of the element. -/
theorem declaresField_of_name {f : WorldField} (hf : f ∈ s.worldFields) {q : Request}
    (hq : q ∈ m.requests) (hname : f.name = m.names.of q.key) :
    m.DeclaresField m.names q.key f.shape := by
  -- the element that declares the field has requested the same name, so it is the same element
  obtain ⟨q', hq', hname', hdeclares⟩ := exists_declaresField hid h hf
  rw [hname] at hname'
  rwa [of_injective hq hq' hname']

/-- In a model that is encoded, every relation has its two ends. -/
theorem exists_endsOf {r : Relation} (hr : r ∈ m.relations) : ∃ e, m.endsOf r = .ok e := by
  have hfailure : (m.relationStep r).failure = none :=
    (encoding_ok hid h).2 _ (mem_tasks_of_mem_relations hr)
  cases he : m.endsOf r with
  | ok e => exact ⟨e, rfl⟩
  | error d =>
    -- the step would have met the defect
    rw [relationStep, he] at hfailure
    cases hfailure

/-- The step for the field of a relation meets no defect. -/
theorem FieldRelation.failure_fieldStep {r : Relation} {e : Ends} (hr : m.FieldRelation r e) :
    (m.fieldStep r e).failure = none := by
  have hfailure := (encoding_ok hid h).2 _ (mem_tasks_of_mem_relations hr.mem)
  rw [stepOf, hr.relationStep_eq] at hfailure
  exact hfailure

/-- A relation that is a field has one, whatever its shape. -/
theorem FieldRelation.exists_declaresField {r : Relation} {e : Ends} (hr : m.FieldRelation r e) :
    ∃ shape, m.DeclaresField m.names r.fieldRequest.key shape := by
  -- the step has one of three shapes, and each belongs to one way to declare a field
  have hcases := fieldStep_cases (hr.failure_fieldStep hid h)
  rcases hcases with ⟨founder, hfounder, -⟩ | ⟨hfounder, hordered, -⟩ |
    ⟨hfounder, hordered, k, k', hk, hk', -⟩
  · exact ⟨_, .founded hr hfounder⟩
  · exact ⟨_, .indexed hr hfounder hordered⟩
  · exact ⟨_, .binary hr hfounder hordered (by rw [hk]; rfl) (by rw [hk']; rfl)⟩

end

end Model

end OntoWorlds
