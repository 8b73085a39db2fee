import OntoWorlds.Proofs.Module.Identifiers

/-!
# OntoWorlds — what a module refers to is declared

Rigidity facts, coverings, orderings, accessors, multiplicities, immutable columns and selectors
refer to declarations that other steps emit. Each refers to elements that have a counterpart: a
class with a base signature is a world field, a value type is a signature, the ends of a relation
that is a field are classes of either kind, and its field has been declared unless the run has met a
defect.

* `Use` — a name and what it is used as; `Sections.uses` lists those of a module.
* `Sections.Resolves` — the name is declared as such, exactly once.
* `resolves_uses` — all uses in the module of a run resolve.
-/

namespace OntoWorlds

namespace Alloy

/-! ## Uses -/

/-- A name that is used, and what it has to be. -/
inductive Use
  /-- A world field: after `w.` or `World.`, in a projection, a rigidity or a covering. -/
  | field (name : String)
  /-- A signature, as the type of a variable or of values. -/
  | type (name : String)
  | accessor (name : String)
  /-- The domain of an immutable column: a world field or a signature. -/
  | element (name : String)
deriving DecidableEq, Repr

/-- The domain or range of an accessor, as it is used. -/
def Extent.use : Extent → Use
  | signature name => .type name
  | inWorld field => .field field
  | acrossWorlds field => .field field

/-- The field that a projection is made of. -/
def Projection.use : Projection → Use
  | whole field => .field field
  | outer field => .field field

/-- The field that an accessor reads. -/
def AccessorBody.use : AccessorBody → Use
  | image p => p.use
  | preimage p => p.use
  | elements field => .field field

/-- An accessor refers to what it leads from, to what it leads to, and to a field. -/
def Accessor.uses (a : Accessor) : List Use := [a.domain.use, a.range.use, a.body.use]

/-- What facts about rigidity, about sequences and about the values of accessors refer to. -/
def Fact.uses : Fact → List Use
  | rigid name _ => [.field name]
  | antirigid name _ => [.field name]
  | ordering domain field => [domain.use, .field field]
  | functionalOrdering domain field => [domain.use, .field field]
  | multiplicity (.accessed domain accessor) _ => [domain.use, .accessor accessor]
  | multiplicity (.inline _ _) _ | generalization .. | generalizationSet .. | derivation .. => []

/-- The classes of a covering are world fields. -/
def Covering.uses (c : Covering) : List Use := c.classes.map .field

/-- An immutable column refers to the element that it belongs to and to its field. -/
def Immutability.uses : Immutability → List Use
  | source domain field => [.element domain, .field field]
  | target domain field => [.element domain, .field field]

/-- A selector refers to its field. -/
def Selector.uses (s : Selector) : List Use := [.field s.field]

/-- What a fragment refers to. -/
def Fragment.uses : Fragment → List Use
  | .covering c => c.uses
  | .fact f => f.uses
  | .immutability i => i.uses
  | .accessor a => a.uses
  | .selector s => s.uses
  | .worldField _ | .enumeration _ | .datatype _ _ | .inlineField _ _ => []

namespace Sections

/-- The uses of all sections. -/
def uses (s : Sections) : List Use :=
  s.coverings.flatMap Covering.uses
    ++ s.facts.flatMap Fact.uses
    ++ s.immutabilities.flatMap Immutability.uses
    ++ s.accessors.flatMap Accessor.uses
    ++ s.selectors.flatMap Selector.uses

/-- The signatures of the module: those of every module, enumerations and datatypes. -/
def signatures (s : Sections) : List String :=
  [BaseSignature.object, .aspect, .endurant].map BaseSignature.word
    ++ s.enumerations.map (·.name)
    ++ s.declaredDatatypes.map (·.name)

/-- The name is declared as what it is used for, and declared once; built-in signatures need no
declaration. -/
def Resolves (s : Sections) : Use → Prop
  | .field w => w ∈ s.worldFields.map (·.name) ∧ s.identifiers.count w = 1
  | .accessor w => w ∈ s.accessors.map (·.name) ∧ s.identifiers.count w = 1
  | .type w => Identifier.isBuiltin w = true ∨ w ∈ s.signatures ∧ s.identifiers.count w = 1
  | .element w =>
    Identifier.isBuiltin w = true ∨
      (w ∈ s.worldFields.map (·.name) ∨ w ∈ s.signatures) ∧ s.identifiers.count w = 1

/-- The uses of sections are those of the fragments sorted into them. -/
theorem exists_of_mem_uses {fs : List Fragment} {u : Use} (h : u ∈ (ofFragments fs).uses) :
    ∃ f ∈ fs, u ∈ f.uses := by
  simp only [uses, List.mem_append, List.mem_flatMap] at h
  -- one case for each of the five sections that refer to something
  rcases h with (((⟨c, hc, hu⟩ | ⟨f, hf, hu⟩) | ⟨i, hi, hu⟩) | ⟨a, ha, hu⟩) | ⟨x, hx, hu⟩
  · exact ⟨.covering c, mem_coverings_iff.mp hc, hu⟩
  · exact ⟨.fact f, mem_facts_iff.mp hf, hu⟩
  · exact ⟨.immutability i, mem_immutabilities_iff.mp hi, hu⟩
  · exact ⟨.accessor a, mem_accessors_iff.mp ha, hu⟩
  · exact ⟨.selector x, mem_selectors_iff.mp hx, hu⟩

/-! ## Declared once -/

variable {s : Sections} {w : String}

/-- World fields are identifiers of the module. -/
theorem mem_identifiers_of_field (h : w ∈ s.worldFields.map (·.name)) : w ∈ s.identifiers := by
  simp only [identifiers, List.mem_append]
  exact Or.inl (Or.inl (Or.inl (Or.inr h)))

/-- Accessors are identifiers of the module. -/
theorem mem_identifiers_of_accessor (h : w ∈ s.accessors.map (·.name)) : w ∈ s.identifiers := by
  simp only [identifiers, List.mem_append]
  exact Or.inr h

/-- Signatures are identifiers of the module. -/
theorem mem_identifiers_of_signature (h : w ∈ s.signatures) : w ∈ s.identifiers := by
  simp only [signatures, identifiers, List.mem_append] at h ⊢
  rcases h with (h | h) | h
  · -- the fixed ones are among the words of every module
    refine Or.inl (Or.inl (Or.inl (Or.inl ?_)))
    simp only [List.map_cons, List.map_nil, BaseSignature.word, List.mem_cons, List.not_mem_nil,
      or_false] at h
    rcases h with rfl | rfl | rfl <;> decide +kernel
  · -- the name of an enumeration
    obtain ⟨e, he, rfl⟩ := List.mem_map.mp h
    refine Or.inl (Or.inl (Or.inr (List.mem_flatMap.mpr ⟨e, he, ?_⟩)))
    exact List.mem_cons_self
  · -- the name of a declared datatype
    obtain ⟨d, hd, rfl⟩ := List.mem_map.mp h
    obtain ⟨hmem, hdeclared⟩ := List.mem_filter.mp hd
    refine Or.inl (Or.inr (List.mem_flatMap.mpr ⟨d, hmem, ?_⟩))
    rw [Datatype.identifiers, if_pos hdeclared]
    exact List.mem_cons_self

/-- An identifier that is declared is declared once, if none is declared twice. -/
theorem count_eq_one (hs : ∀ w, s.identifiers.count w ≤ 1) (h : w ∈ s.identifiers) :
    s.identifiers.count w = 1 :=
  Nat.le_antisymm (hs w) (List.count_pos_iff.mpr h)

end Sections

end Alloy

open Alloy

/-! ## Relations and their ends -/

/-- A class of the model that has a counterpart in the module. -/
def Model.HasCounterpart (m : Model) (x : Classifier) : Prop :=
  ∃ c ∈ m.classes, x = .ofClass c ∧ c.hasSignature = true

namespace Model.FieldRelation

variable {m : Model} {r : Relation} {e : Ends}

/-- The ends of a relation that is a field are classes with counterparts. -/
theorem hasCounterpart (hr : m.FieldRelation r e) :
    m.HasCounterpart e.source ∧ m.HasCounterpart e.target := by
  -- a represented relation that is no derivation has two classes as ends, both with signatures
  have hrepresented := hr.isField.represented
  have hsource := has_source_of_endsOf hr.ends
  have htarget := has_target_of_endsOf hr.ends
  rw [isRepresented, sourceOf_of_endsOf hr.ends, targetOf_of_endsOf hr.ends] at hrepresented
  cases hs : e.source with
  -- only a derivation may start from a relation
  | ofRelation q =>
    rw [hs] at hrepresented
    simp only [hr.isField.notDerivation, Bool.false_and, Bool.false_eq_true] at hrepresented
  | ofClass c =>
    rw [hs] at hrepresented hsource
    simp only [Bool.and_eq_true] at hrepresented
    obtain ⟨⟨hc, ht⟩, -⟩ := hrepresented
    refine ⟨⟨c, hsource, rfl, hc⟩, ?_⟩
    cases hd : e.target with
    | ofRelation q =>
      rw [hd] at ht
      cases ht
    | ofClass d =>
      rw [hd] at ht htarget
      exact ⟨d, htarget, rfl, ht⟩

/-- The step of a relation that is a field declares the field. -/
theorem relationStep_eq (hr : m.FieldRelation r e) : m.relationStep r = m.fieldStep r e := by
  unfold relationStep
  rw [hr.ends, Step.given_ok, hr.isField.notInline, hr.isField.represented,
    hr.isField.notDerivation]
  rfl

end Model.FieldRelation

/-- Whatever its shape, the field of a relation is emitted unless there is a defect. -/
theorem Model.exists_field_fieldStep {m : Model} {r : Relation} {e : Ends}
    (h : (m.fieldStep r e).failure = none) (n : Names) :
    ∃ shape, .worldField ⟨r.fieldName n, shape⟩ ∈ (m.fieldStep r e).fragments n := by
  -- each of the three shapes begins with the field
  rcases fieldStep_cases h with ⟨relator, -, heq⟩ | ⟨-, -, heq⟩ | ⟨-, -, k, k', -, -, heq⟩ <;>
    rw [heq] <;> exact ⟨_, List.mem_cons_self⟩

namespace Alloy.Sections

variable {s : Sections} {a b : Use} {w : String}

/-- A world field may be the domain of an immutable column. -/
theorem resolves_element_of_field (h : s.Resolves (.field w)) : s.Resolves (.element w) :=
  Or.inr ⟨Or.inl h.1, h.2⟩

theorem resolves_element_of_type (h : s.Resolves (.type w)) : s.Resolves (.element w) := by
  rcases h with h | h
  · exact Or.inl h
  · exact Or.inr ⟨Or.inr h.1, h.2⟩

/-- Two uses resolve together if each does. -/
theorem resolves_pair (ha : s.Resolves a) (hb : s.Resolves b) : ∀ u ∈ [a, b], s.Resolves u := by
  simp only [List.forall_mem_cons, List.not_mem_nil, false_implies, implies_true, and_true]
  exact ⟨ha, hb⟩

end Alloy.Sections

namespace Model

variable {m : Model} {s : Sections}

/-! ## The declared elements of a run -/

section

variable (hid : m.ids.Nodup) (h : m.encoding = .ok s)
include hid h

/-- An emitted world field resolves as a field. -/
theorem resolves_field {f : WorldField} (hf : .worldField f ∈ m.fragments) :
    s.Resolves (.field f.name) := by
  have hmem : f.name ∈ s.worldFields.map (·.name) := by
    rw [(encoding_ok hid h).1]
    exact List.mem_map_of_mem (mem_worldFields_iff.mpr hf)
  -- no two declarations clash, so the name is declared once
  exact ⟨hmem, Sections.count_eq_one (count_identifiers_le_one hid h)
    (Sections.mem_identifiers_of_field hmem)⟩

/-- An emitted accessor resolves as an accessor. -/
theorem resolves_accessor {a : Accessor} (ha : .accessor a ∈ m.fragments) :
    s.Resolves (.accessor a.name) := by
  have hmem : a.name ∈ s.accessors.map (·.name) := by
    rw [(encoding_ok hid h).1]
    exact List.mem_map_of_mem (mem_accessors_iff.mpr ha)
  exact ⟨hmem, Sections.count_eq_one (count_identifiers_le_one hid h)
    (Sections.mem_identifiers_of_accessor hmem)⟩

/-- A signature of the module resolves as a type. -/
theorem resolves_signature {w : String} (hw : w ∈ s.signatures) : s.Resolves (.type w) :=
  Or.inr ⟨hw, Sections.count_eq_one (count_identifiers_le_one hid h)
    (Sections.mem_identifiers_of_signature hw)⟩

/-- The base signatures resolve in every module. -/
theorem resolves_base (b : BaseSignature) : s.Resolves (.type b.word) := by
  refine resolves_signature hid h ?_
  simp only [Sections.signatures, List.mem_append]
  exact Or.inl (Or.inl (List.mem_map_of_mem (by cases b <;> simp)))

/-- A class with a base signature is a world field. -/
theorem resolves_extension {c : Class} {base : BaseSignature} (hc : c ∈ m.classes)
    (hbase : c.base? = some base) : s.Resolves (.field (m.names.own c.id)) := by
  refine resolves_field hid h (f := ⟨m.names.own c.id, .extension base⟩) ?_
  refine mem_fragments_iff.mpr ⟨.klass c, mem_tasks_of_mem_classes hc, ?_⟩
  show _ ∈ c.step.fragments m.names
  rw [Class.step_of_base? hbase]
  exact List.mem_cons_self

/-- A value type is a signature, whether it is built in, a datatype or an enumeration. -/
theorem resolves_valueType {c : Class} (hc : c ∈ m.classes) (hvalue : c.isValueType = true) :
    s.Resolves (.type (m.names.own c.id)) := by
  obtain ⟨rfl, hok⟩ := encoding_ok hid h
  have hmem : ∀ f ∈ c.step.fragments m.names, f ∈ m.fragments := fun f hf =>
    mem_fragments_iff.mpr ⟨.klass c, mem_tasks_of_mem_classes hc, hf⟩
  rcases Class.step_of_isValueType hvalue with hstep | hstep <;> rw [hstep] at hmem
  · have hdatatype := hmem _ (List.mem_singleton.mpr rfl)
    -- a datatype is mentioned by its own step, and declared unless it is built in
    cases hbuiltin : Identifier.isBuiltin (m.names.own c.id) with
    | true => exact Or.inl hbuiltin
    | false =>
      obtain ⟨d, hd, hname⟩ := exists_declaredDatatype (fieldsFollow_fragments hok)
        (fun _ _ => isDeclared_eq hok) hdatatype hbuiltin
      refine resolves_signature hid h (List.mem_append_right _ ?_)
      exact List.mem_map.mpr ⟨d, hd, hname⟩
  · -- the step of an enumeration with literals emits the `enum`, and its name is a signature
    have henumeration := mem_enumerations_iff.mpr (hmem _ (List.mem_singleton.mpr rfl))
    refine resolves_signature hid h (List.mem_append_left _ (List.mem_append_right _ ?_))
    exact List.mem_map.mpr ⟨_, henumeration, rfl⟩

/-- A relation that is a field resolves by its name. -/
theorem resolves_relation {r : Relation} {e : Ends} (hr : m.FieldRelation r e) :
    s.Resolves (.field (r.fieldName m.names)) := by
  have htask : .relation r ∈ m.tasks := mem_tasks_of_mem_relations hr.mem
  have hfailure := (encoding_ok hid h).2 _ htask
  rw [stepOf, hr.relationStep_eq] at hfailure
  obtain ⟨shape, hshape⟩ := exists_field_fieldStep hfailure m.names
  refine resolves_field hid h (f := ⟨r.fieldName m.names, shape⟩) ?_
  refine mem_fragments_iff.mpr ⟨.relation r, htask, ?_⟩
  rw [stepOf, hr.relationStep_eq]
  exact hshape

/-- A counterpart is a field or a signature. -/
theorem resolves_counterpart {x : Classifier} (hx : m.HasCounterpart x) :
    x.hasWorldField = true ∧ s.Resolves (.field (m.names.own x.id)) ∨
      x.hasWorldField = false ∧ s.Resolves (.type (m.names.own x.id)) := by
  obtain ⟨c, hc, rfl, hsignature⟩ := hx
  -- with a base it is a world field, without one a value type
  cases hbase : c.base? with
  | some base =>
    refine Or.inl ⟨?_, resolves_extension hid h hc hbase⟩
    rw [Classifier.hasWorldField, Class.hasWorldField, hbase, Option.isSome_some]
  | none =>
    have hfield : c.hasWorldField = false := by
      rw [Class.hasWorldField, hbase, Option.isSome_none]
    refine Or.inr ⟨hfield, resolves_valueType hid h hc ?_⟩
    exact Class.isValueType_of_hasSignature hsignature hfield

/-- In a world, an element with a counterpart is used as what it is. -/
theorem resolves_inWorld {x : Classifier} (hx : m.HasCounterpart x) :
    s.Resolves (x.inWorld (m.names.own x.id)).use := by
  rcases resolves_counterpart hid h hx with ⟨hfield, hres⟩ | ⟨hfield, hres⟩ <;>
    rw [Classifier.inWorld, hfield] <;> exact hres

theorem resolves_acrossWorlds {x : Classifier} (hx : m.HasCounterpart x) :
    s.Resolves (x.acrossWorlds (m.names.own x.id)).use := by
  rcases resolves_counterpart hid h hx with ⟨hfield, hres⟩ | ⟨hfield, hres⟩ <;>
    rw [Classifier.acrossWorlds, hfield] <;> exact hres

/-- It may also be the domain of an immutable column. -/
theorem resolves_element {x : Classifier} (hx : m.HasCounterpart x) :
    s.Resolves (.element (m.names.own x.id)) := by
  rcases resolves_counterpart hid h hx with ⟨-, hres⟩ | ⟨-, hres⟩
  · exact Sections.resolves_element_of_field hres
  · exact Sections.resolves_element_of_type hres

/-- The type of the values of an attribute resolves. -/
theorem resolves_valueSignature {p : Property} {v : ValueSignature}
    (hv : m.valueSignature p = .ok v) : s.Resolves (.type (v.name m.names)) := by
  obtain ⟨c, hc, -, hsignature⟩ := valueSignature_ok hv
  cases v with
  | base b => exact resolves_base hid h b
  | ofClass d =>
    obtain ⟨rfl, hvalue⟩ := of_valueSignature? hsignature
    exact resolves_valueType hid h hc hvalue

/-- The class of an attribute that is a world field is one itself. -/
theorem resolves_owner {c : Class} {p : Property} {v : ValueSignature}
    (hp : m.FieldAttribute c p v) : s.Resolves (.field (m.names.own c.id)) := by
  have hfield := hp.isField.worldField
  obtain ⟨base, hbase⟩ := Option.isSome_iff_exists.mp hfield
  exact resolves_extension hid h hp.mem hbase

/-! ## The uses of steps -/

/-- An attribute declares its field and its accessor in the step that uses them. -/
theorem resolves_orderedFragments {c : Class} {p : Property} {v : ValueSignature}
    (hp : m.FieldAttribute c p v)
    (hmem : ∀ f ∈ p.orderedFragments c v m.names, f ∈ m.fragments) :
    ∀ f ∈ p.orderedFragments c v m.names, ∀ u ∈ f.uses, s.Resolves u := by
  have howner := resolves_owner hid h hp
  have hvalues := resolves_valueSignature hid h hp.signature
  have hfield : s.Resolves (.field (m.names.own p.id)) :=
    resolves_field hid h (hmem _ List.mem_cons_self)
  intro f hf
  simp only [Property.orderedFragments, List.mem_append, List.mem_cons, List.not_mem_nil,
    or_false] at hf
  -- the field, the order, the accessor and the immutability, in this order
  rcases hf with (rfl | rfl | rfl) | hf
  · exact fun u hu => absurd hu List.not_mem_nil
  · exact Sections.resolves_pair howner hfield
  · refine List.forall_mem_cons.mpr ⟨howner, Sections.resolves_pair hvalues hfield⟩
  · rw [Property.mem_attributeImmutability hf]
    exact Sections.resolves_pair (Sections.resolves_element_of_field howner) hfield

/-- The same holds of a plain attribute, whose accessor is counted as well. -/
theorem resolves_plainFragments {c : Class} {p : Property} {v : ValueSignature} {k : Multiplicity}
    (hp : m.FieldAttribute c p v)
    (hmem : ∀ f ∈ p.plainFragments c v k m.names, f ∈ m.fragments) :
    ∀ f ∈ p.plainFragments c v k m.names, ∀ u ∈ f.uses, s.Resolves u := by
  have howner := resolves_owner hid h hp
  have hvalues := resolves_valueSignature hid h hp.signature
  have hfield : s.Resolves (.field (m.names.own p.id)) :=
    resolves_field hid h (hmem _ List.mem_cons_self)
  have haccessor : s.Resolves (.accessor (m.names.alias p.id)) :=
    resolves_accessor hid h (hmem _ (List.mem_cons_of_mem _ List.mem_cons_self))
  intro f hf
  simp only [Property.plainFragments, List.mem_append, List.mem_cons, List.not_mem_nil,
    or_false] at hf
  -- the field, the accessor, the immutability, the bounds and the selector
  rcases hf with (((rfl | rfl) | hf) | hf) | rfl
  · exact fun u hu => absurd hu List.not_mem_nil
  · exact List.forall_mem_cons.mpr ⟨howner, Sections.resolves_pair hvalues hfield⟩
  · rw [Property.mem_attributeImmutability hf]
    exact Sections.resolves_pair (Sections.resolves_element_of_field howner) hfield
  · obtain ⟨b, rfl⟩ := Multiplicity.mem_customFact hf
    exact Sections.resolves_pair howner haccessor
  · exact fun u hu => (List.mem_singleton.mp hu) ▸ hfield

/-- The view of an end looks at the same relation and the same two classes, from either side. -/
theorem resolves_endFragments {r : Relation} {p : Property} {e : Ends} (side : EndSide)
    {k : Multiplicity} (hr : m.FieldRelation r e) {v : EndView} (hv : v = .ofEnds r p side e)
    (haccessor : .accessor (v.accessor m m.names) ∈ m.fragments) :
    ∀ f ∈ .accessor (v.accessor m m.names) :: v.immutability m.names
      ++ v.multiplicityFact m k m.names, ∀ u ∈ f.uses, s.Resolves u := by
  -- both ends have counterparts, so it does not matter which of them is looked at
  have hview : v.relation = r ∧ m.HasCounterpart v.own ∧ m.HasCounterpart v.opposite := by
    obtain ⟨hsource, htarget⟩ := hr.hasCounterpart
    rw [hv]
    cases side with
    | source => exact ⟨rfl, hsource, htarget⟩
    | target => exact ⟨rfl, htarget, hsource⟩
  obtain ⟨hrelation, hown, hopposite⟩ := hview
  have hfield : s.Resolves (.field (v.relation.fieldName m.names)) := by
    rw [hrelation]
    exact resolves_relation hid h hr
  -- the field is the same whether a column is left out or not
  have hprojection : s.Resolves (v.projection m m.names).use := by
    unfold EndView.projection
    split <;> exact hfield
  have hbody : s.Resolves (v.accessor m m.names).body.use := by
    unfold EndView.accessor
    cases v.side <;> exact hprojection
  have hdomain := resolves_element hid h hopposite
  intro f hf
  simp only [List.cons_append, List.mem_cons, List.mem_append] at hf
  -- the accessor, the immutability and the bounds
  rcases hf with rfl | hf | hf
  · exact List.forall_mem_cons.mpr ⟨resolves_acrossWorlds hid h hopposite,
      Sections.resolves_pair (resolves_acrossWorlds hid h hown) hbody⟩
  · rcases EndView.mem_immutability hf with rfl | rfl <;>
      exact Sections.resolves_pair hdomain hfield
  · obtain ⟨b, rfl⟩ := EndView.mem_multiplicityFact hf
    exact Sections.resolves_pair (resolves_inWorld hid h hopposite)
      (resolves_accessor hid h haccessor)

/-- A step of a run refers to what the run declares. -/
theorem resolves_of_takes {t : Task} {step : Step} (htakes : m.Takes t step)
    (hmem : ∀ f ∈ step.fragments m.names, f ∈ m.fragments) :
    ∀ f ∈ step.fragments m.names, ∀ u ∈ f.uses, s.Resolves u := by
  have hnone : ∀ u ∈ ([] : List Use), s.Resolves u := fun u hu => absurd hu List.not_mem_nil
  intro f hf
  -- one case for each way to take a step; most of what is emitted refers to nothing here
  cases htakes with
  | nothing requests => cases hf
  | @datatype c hc hvalue =>
    rw [List.mem_singleton.mp hf]
    exact hnone
  | @enumeration c hc hvalue =>
    rw [List.mem_singleton.mp hf]
    exact hnone
  | @extension c base hc hbase =>
    have hfield := resolves_extension hid h hc hbase
    rcases List.mem_cons.mp hf with rfl | hf
    · exact hnone
    · rcases Class.mem_rigidity hf with rfl | rfl <;>
        exact fun u hu => (List.mem_singleton.mp hu) ▸ hfield
  | coverings =>
    -- only classes with the base signature take part in a covering
    have hcovering : ∀ base, ∀ u ∈ (Fragment.covering
        ⟨base, (m.covering base).map fun c => m.names.own c.id⟩).uses, s.Resolves u := by
      intro base u hu
      simp only [Fragment.uses, Covering.uses, List.map_map, List.mem_map,
        Function.comp_apply] at hu
      obtain ⟨c, hc, rfl⟩ := hu
      obtain ⟨hclass, hcovers⟩ := mem_covering_iff.mp hc
      obtain ⟨b, hb⟩ := Class.base?_of_covers? hcovers
      exact resolves_extension hid h hclass hb
    rcases List.mem_append.mp hf with hf | hf <;> rw [mem_coveringFragment hf] <;>
      exact hcovering _
  | generalization requests general specific =>
    rw [List.mem_singleton.mp hf]
    exact hnone
  | generalizationSet requests members =>
    rw [GeneralizationSet.mem_fragments hf]
    exact hnone
  | @inline r e hr he hdatatypes =>
    rw [List.mem_singleton.mp hf]
    exact hnone
  | @founded r e hr relator =>
    rw [List.mem_singleton.mp hf]
    exact hnone
  | @indexed r e hr =>
    rcases List.mem_cons.mp hf with rfl | hf
    · exact hnone
    · rw [List.mem_singleton.mp hf]
      exact Sections.resolves_pair (resolves_inWorld hid h hr.hasCounterpart.1)
        (resolves_relation hid h hr)
  | @binary r e hr atSource atTarget =>
    rw [List.mem_singleton.mp hf]
    exact hnone
  | derivation hmaterial he hrelator =>
    rw [List.mem_singleton.mp hf]
    exact hnone
  | @inlineAttribute c p v k hc hdatatype hv =>
    rcases List.mem_cons.mp hf with rfl | hf
    · exact hnone
    · obtain ⟨b, rfl⟩ := Multiplicity.mem_customFact hf
      exact hnone
  | orderedAttribute hp => exact resolves_orderedFragments hid h hp hmem f hf
  | plainAttribute hp => exact resolves_plainFragments hid h hp hmem f hf
  | @relationEnd r p e k side hr hp =>
    exact resolves_endFragments hid h side hr rfl (hmem _ List.mem_cons_self) f hf

/-- **Referential closure.** In the module of a model with distinct ids, all uses resolve. -/
theorem resolves_uses : ∀ u ∈ s.uses, s.Resolves u := by
  intro u hu
  obtain ⟨hs, hok⟩ := encoding_ok hid h
  rw [hs] at hu
  obtain ⟨f, hf, hu⟩ := Sections.exists_of_mem_uses hu
  obtain ⟨t, ht, hf⟩ := mem_fragments_iff.mp hf
  have htakes := takes_of_mem_tasks hok ht
  have hmem : ∀ f ∈ (m.stepOf t).fragments m.names, f ∈ m.fragments := fun f hf =>
    mem_fragments_iff.mpr ⟨t, ht, hf⟩
  exact resolves_of_takes hid h htakes hmem f hf u hu

end

/-- The module about lending uses names, and all of them resolve. -/
theorem lending_resolves_uses :
    lending.ids.Nodup ∧
      ∃ s, lending.encoding = .ok s ∧ s.uses ≠ [] ∧ ∀ u ∈ s.uses, s.Resolves u := by
  have hid : lending.ids.Nodup := by decide +kernel
  have huses : lending.encoding.toOption.map (·.uses.isEmpty) = some false := by decide +kernel
  obtain ⟨s, hs⟩ := exists_encoding_of_isOk (m := lending) (by decide +kernel)
  rw [hs] at huses
  refine ⟨hid, s, hs, ?_, resolves_uses hid hs⟩
  exact List.isEmpty_eq_false_iff.mp (Option.some.inj huses)

end Model

end OntoWorlds
