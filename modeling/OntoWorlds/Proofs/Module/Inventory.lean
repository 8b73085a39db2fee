import OntoWorlds.Proofs.Module.Columns

/-!
# OntoWorlds — the inventory of a module

Each element of a model has a known share in the module: a class its world field or its datatype,
a relation its field, an attribute its field with an accessor and a selector, the end of a relation
an accessor. The tasks of a run add these shares one after another, so that the sections of the
module list the elements that have a share in them, in the order of the model, once each. Datatypes
are gathered by name: each lists what it has been given, relations before attributes.

* `Entry` — a share of the module, by the name that it goes by.
* `foldl_gather` — gathered datatypes, with the fields that they have been given.
* `Model.entriesOf` — the share of each task; `entries_stepOf` — its step emits no other.
* `sections_eq` — the sections of a module, as lists of elements.
-/

namespace OntoWorlds

namespace Alloy

/-! ## Entries -/

/-- What a fragment adds to the sections of a module, by name. -/
inductive Entry
  | field (name : String)
  | accessor (name : String)
  | selector (field : String)
  | datatype (name : String)
  | inlineField (datatype name : String)
deriving DecidableEq, Repr

/-- The entry of a fragment, if it has one. -/
def Fragment.entry? : Fragment → Option Entry
  | .worldField f => some (.field f.name)
  | .accessor a => some (.accessor a.name)
  | .selector s => some (.selector s.field)
  | .datatype name _ => some (.datatype name)
  | .inlineField d f => some (.inlineField d f.name)
  | .covering _ | .fact _ | .immutability _ | .enumeration _ => none

/-- The entries of some fragments, in their order. -/
def entries (fs : List Fragment) : List Entry := fs.filterMap Fragment.entry?

namespace Entry

/-- The name of a world field. -/
def field? : Entry → Option String
  | field name => some name
  | accessor _ | selector _ | datatype _ | inlineField _ _ => none

/-- The name of an accessor. -/
def accessor? : Entry → Option String
  | accessor name => some name
  | field _ | selector _ | datatype _ | inlineField _ _ => none

/-- The field that a selector is for. -/
def selector? : Entry → Option String
  | selector name => some name
  | field _ | accessor _ | datatype _ | inlineField _ _ => none

/-- The name of a datatype. -/
def datatype? : Entry → Option String
  | datatype name => some name
  | field _ | accessor _ | selector _ | inlineField _ _ => none

/-- The field that an entry gives to the datatype called `w`. -/
def fieldOf? (w : String) : Entry → Option String
  | inlineField d name => if d = w then some name else none
  | field _ | accessor _ | selector _ | datatype _ => none

end Entry

variable {fs : List Fragment}

/-- Entries of two lists come one after the other. -/
theorem entries_append (fs gs : List Fragment) : entries (fs ++ gs) = entries fs ++ entries gs :=
  List.filterMap_append

/-- Fragments that add nothing by name have no entries. -/
theorem entries_eq_nil (h : ∀ f ∈ fs, f.entry? = none) : entries fs = [] :=
  List.filterMap_eq_nil_iff.mpr h

/-- A section by the names of its entries. -/
theorem map_section {α : Type} {pick : Fragment → Option α} {name : α → String}
    {entry : Entry → Option String}
    (h : ∀ f : Fragment, (pick f).map name = f.entry?.bind entry) :
    (fs.filterMap pick).map name = (entries fs).filterMap entry := by
  rw [entries, List.map_filterMap, List.filterMap_filterMap]
  exact List.filterMap_congr fun f _ => h f

/-- The world fields are the entries of fields. -/
theorem worldFields_names :
    (Sections.ofFragments fs).worldFields.map (·.name) = (entries fs).filterMap Entry.field? :=
  map_section fun f => by cases f <;> rfl

theorem accessors_names :
    (Sections.ofFragments fs).accessors.map (·.name) = (entries fs).filterMap Entry.accessor? :=
  map_section fun f => by cases f <;> rfl

theorem selectors_fields :
    (Sections.ofFragments fs).selectors.map (·.field) = (entries fs).filterMap Entry.selector? :=
  map_section fun f => by cases f <;> rfl

/-! ## Gathered datatypes -/

/-- A datatype and its fields, by name. -/
def Datatype.summary (d : Datatype) : String × List String := (d.name, d.fields.map (·.name))

/-- The datatype and its fields, with some more to come for each name. -/
def Datatype.summaryWith (more : String → List String) (d : Datatype) : String × List String :=
  (d.name, d.fields.map (·.name) ++ more d.name)

variable {ds : List Datatype} {w : String}

/-- The names of datatypes are those in their headers. -/
theorem mem_names_iff : w ∈ ds.map (·.name) ↔ ∃ b, (w, b) ∈ headers ds := by
  rw [← any_name_iff, List.any_eq_true, List.mem_map]
  simp only [beq_iff_eq]

/-- A datatype that has not been mentioned is added at the end, without fields. -/
theorem gather_datatype (h : w ∉ ds.map (·.name)) (b : Bool) :
    gather ds (.datatype w b) = ds ++ [⟨w, b, []⟩] := by
  rw [mem_names_iff, ← any_name_iff] at h
  rw [gather, mention, if_neg h]

/-- A field of a datatype that has been mentioned is added to it. -/
theorem gather_inlineField (h : w ∈ ds.map (·.name)) (g : InlineField) :
    gather ds (.inlineField w g) = addField w g ds := by
  obtain ⟨b, hb⟩ := mem_names_iff.mp h
  rw [gather, mention_of_mem hb]

/-- Among datatypes with distinct names, a field is added to the one of its name. -/
theorem summaryWith_addField (hnodup : (ds.map (·.name)).Nodup) (w : String) (g : InlineField)
    (more : String → List String) :
    (addField w g ds).map (Datatype.summaryWith more) =
      ds.map (Datatype.summaryWith fun v => if v = w then g.name :: more v else more v) := by
  -- induction on the datatypes, up to the one with the name
  induction ds with
  | nil => rfl
  | cons d ds ih =>
    rw [List.map_cons, List.nodup_cons] at hnodup
    obtain ⟨hd, hds⟩ := hnodup
    unfold addField
    split
    · next hname =>
      rw [beq_iff_eq] at hname
      -- no other datatype has the name
      have hrest : ds.map (Datatype.summaryWith more) =
          ds.map (Datatype.summaryWith fun v => if v = w then g.name :: more v else more v) := by
        refine List.map_congr_left fun d' hd' => ?_
        have hne : d'.name ≠ w := by
          rintro rfl
          exact hd (hname ▸ List.mem_map_of_mem hd')
        rw [Datatype.summaryWith, Datatype.summaryWith, if_neg hne]
      rw [List.map_cons, List.map_cons, hrest]
      simp only [Datatype.summaryWith, hname, if_true, List.map_append, List.map_cons, List.map_nil,
        List.append_assoc, List.singleton_append]
    · next hname =>
      rw [beq_iff_eq] at hname
      rw [List.map_cons, List.map_cons, ih hds]
      simp only [Datatype.summaryWith, if_neg hname]

/-- The fields that some entries give to each datatype. -/
def fieldsGiven (es : List Entry) (w : String) : List String := es.filterMap (Entry.fieldOf? w)

/-- An inline field is given to its own datatype, before the rest. -/
theorem fieldsGiven_cons (d name : String) (es : List Entry) :
    fieldsGiven (.inlineField d name :: es) = fun v => if v = d then name :: fieldsGiven es v
      else fieldsGiven es v := by
  funext v
  rw [fieldsGiven, List.filterMap_cons, Entry.fieldOf?]
  by_cases hv : d = v
  · rw [if_pos hv, if_pos hv.symm]
    rfl
  · rw [if_neg hv, if_neg (Ne.symm hv)]
    rfl

/-- Where fields follow distinct mentions, datatypes are those mentioned, each with the fields that
it has been given. -/
theorem foldl_gather (hfs : FieldsFollow ds fs)
    (hnodup : (ds.map (·.name) ++ (entries fs).filterMap Entry.datatype?).Nodup) :
    (fs.foldl gather ds).map Datatype.summary =
      ds.map (Datatype.summaryWith (fieldsGiven (entries fs))) ++
        ((entries fs).filterMap Entry.datatype?).map fun v => (v, fieldsGiven (entries fs) v) := by
  -- induction on the fragments; the names gathered and the names to come stay distinct
  induction fs generalizing ds with
  | nil => simp [entries, fieldsGiven, Datatype.summary, Datatype.summaryWith]
  | cons f fs ih =>
    obtain ⟨hds, hmentions, hdisjoint⟩ := List.nodup_append.mp hnodup
    have hrest := hfs.2
    rw [List.foldl_cons]
    cases f with
    | datatype name b =>
      have hcons : (entries (.datatype name b :: fs)).filterMap Entry.datatype? =
          name :: (entries fs).filterMap Entry.datatype? := rfl
      have hgiven : fieldsGiven (entries (.datatype name b :: fs)) = fieldsGiven (entries fs) := rfl
      rw [hcons] at hnodup hdisjoint ⊢
      -- the name is new, so the datatype comes last, and has no fields yet
      have hnew : name ∉ ds.map (·.name) :=
        fun hmem => hdisjoint name hmem name List.mem_cons_self rfl
      rw [gather_datatype hnew] at hrest ⊢
      rw [ih hrest (by simpa using hnodup), hgiven]
      simp only [List.map_append, List.map_cons, List.map_nil, List.append_assoc,
        List.singleton_append, Datatype.summaryWith, List.nil_append]
    | inlineField name g =>
      have hcons : (entries (.inlineField name g :: fs)).filterMap Entry.datatype? =
          (entries fs).filterMap Entry.datatype? := rfl
      have hgiven : fieldsGiven (entries (.inlineField name g :: fs)) = _ :=
        fieldsGiven_cons name g.name (entries fs)
      rw [hcons] at hnodup hdisjoint ⊢
      -- the name is there, so no datatype to come has it
      have hmem : name ∈ ds.map (·.name) := mem_names_iff.mpr (hfs.1 name g rfl)
      rw [gather_inlineField hmem] at hrest ⊢
      rw [ih hrest (by rwa [names_addField]), summaryWith_addField hds, hgiven]
      refine congrArg (_ ++ ·) (List.map_congr_left fun v hv => ?_)
      have hne : v ≠ name := fun heq => hdisjoint name hmem v hv heq.symm
      dsimp only
      rw [if_neg hne]
    -- the other fragments leave the datatypes as they are
    | _ => exact ih hrest hnodup

end Alloy

open Alloy

/-! ## Shares of elements -/

/-- The class is a signature of its own. This includes enumerations without literals. -/
def Class.hasDatatypeEntry (c : Class) : Bool :=
  c.isDatatype || (c.isEnumeration && c.literals.isEmpty)

namespace Model

/-- The relation is a world field. -/
def isField (m : Model) (r : Relation) : Bool := m.isRepresented r && !r.isDerivation

/-- The type of the property has a signature. -/
def isValued (m : Model) (p : Property) : Bool := (m.typeOf p).any Classifier.hasSignature

/-- The attribute is a world field: its owner is one, and its type has a signature. -/
def isFieldAttribute (m : Model) (c : Class) (p : Property) : Bool :=
  c.hasWorldField && m.isValued p

/-- What the task on an element adds to the module. -/
def entriesOf (m : Model) (n : Names) : Task → List Entry
  | .klass c =>
    (if c.hasDatatypeEntry then [.datatype (n.own c.id)] else [])
      ++ if c.hasWorldField then [.field (n.own c.id)] else []
  | .relation r =>
    (if m.holdsBetweenDatatypes r then
      (m.sourceOf r).toList.map fun source => .inlineField (n.own source.id) (r.fieldName n)
    else [])
      ++ if m.isField r then [.field (r.fieldName n)] else []
  | .property (.ofClass c) p =>
    (if c.isDatatype then [.inlineField (n.own c.id) (n.own p.id)] else [])
      ++ (if m.isFieldAttribute c p then [.field (n.own p.id), .accessor (n.alias p.id)] else [])
      ++ if m.isFieldAttribute c p && !p.isOrdered then [.selector (n.own p.id)] else []
  | .property (.ofRelation r) p => if m.isField r then [.accessor (n.alias p.id)] else []
  | .coverings | .generalization _ | .generalizationSet _ => []

variable {m : Model} {n : Names}

/-- A represented relation that is no derivation does not hold between datatypes either. -/
theorem isField_iff {r : Relation} : m.isField r = true ↔ m.IsFieldRelation r := by
  rw [isField, Bool.and_eq_true, Bool.not_eq_true']
  constructor
  · rintro ⟨hrepresented, hderivation⟩
    exact isFieldRelation_of_isRepresented hrepresented hderivation
  · intro hr
    exact ⟨hr.represented, hr.notDerivation⟩

/-! ## Entries of steps -/

/-- A datatype is no world field. -/
theorem hasWorldField_of_isDatatype {c : Class} (h : c.isDatatype = true) :
    c.hasWorldField = false := by
  rw [Bool.eq_false_iff]
  intro hfield
  obtain ⟨base, hbase⟩ := Option.isSome_iff_exists.mp hfield
  rw [(Class.isValueType_of_base? hbase).1] at h
  cases h

/-- A class with a base signature is no datatype, and no enumeration. -/
theorem hasDatatypeEntry_of_base? {c : Class} {base : BaseSignature} (h : c.base? = some base) :
    c.hasDatatypeEntry = false := by
  obtain ⟨hdatatype, henumeration⟩ := Class.isValueType_of_base? h
  rw [Class.hasDatatypeEntry, hdatatype, henumeration]
  rfl

/-- The step of a class adds its world field or its datatype. -/
theorem entries_klass (c : Class) : entries (c.step.fragments n) = m.entriesOf n (.klass c) := by
  rw [entriesOf, Class.hasWorldField]
  cases hbase : c.base? with
  | some base =>
    rw [Class.step_of_base? hbase, hasDatatypeEntry_of_base? hbase]
    -- a world field comes with facts about its rigidity, which have no entries
    show Entry.field (n.own c.id) :: entries (c.rigidity (n.own c.id) base) = _
    rw [entries_eq_nil]
    · rfl
    intro f hf
    rcases Class.mem_rigidity hf with rfl | rfl <;> rfl
  | none =>
    rw [Option.isSome_none, if_neg Bool.false_ne_true, List.append_nil]
    unfold Class.step Class.hasDatatypeEntry
    rw [hbase]
    -- an enumeration with literals has a section of its own
    split_ifs <;> rfl

/-- The coverings have no entries. -/
theorem entries_coverings : entries (m.coveringStep.fragments n) = [] := by
  refine entries_eq_nil fun f hf => ?_
  rcases List.mem_append.mp hf with hf | hf <;> rw [mem_coveringFragment hf] <;> rfl

/-- A generalization has no entries. -/
theorem entries_generalization (g : Generalization) :
    entries ((m.generalizationStep g).fragments n) = [] := by
  unfold generalizationStep
  cases m.subsumptionOf g with
  | error d => rfl
  | ok s =>
    rw [Step.given_ok]
    dsimp only
    split <;> rfl

theorem entries_generalizationSet {s : GeneralizationSet}
    (h : (m.generalizationSetStep s).failure = none) :
    entries ((m.generalizationSetStep s).fragments n) = [] := by
  have htakes := takes_generalizationSet h
  generalize m.generalizationSetStep s = step at htakes
  cases htakes with
  | nothing requests => rfl
  | generalizationSet requests members hmembers =>
    refine entries_eq_nil fun f hf => ?_
    rw [GeneralizationSet.mem_fragments hf]
    rfl

/-- A relation that is a field adds the field. -/
theorem entries_fieldStep {r : Relation} {e : Ends} (h : (m.fieldStep r e).failure = none) :
    entries ((m.fieldStep r e).fragments n) = [.field (r.fieldName n)] := by
  -- whatever the shape, there is one field; an indexed one has a fact besides
  rcases fieldStep_cases h with ⟨relator, -, heq⟩ | ⟨-, -, heq⟩ | ⟨-, -, k, k', -, -, heq⟩ <;>
    rw [heq] <;> rfl

/-- A derivation has no entries. -/
theorem entries_derivationStep (material : Relation) (relator : Class) :
    entries ((m.derivationStep material relator).fragments n) = [] := by
  unfold derivationStep
  cases m.endsOf material with
  | error d => rfl
  | ok e =>
    rw [Step.given_ok]
    split <;> rfl

/-- The step of a relation adds its inline field or its world field. -/
theorem entries_relation {r : Relation} (h : (m.relationStep r).failure = none) :
    entries ((m.relationStep r).fragments n) = m.entriesOf n (.relation r) := by
  unfold relationStep at h ⊢
  cases he : m.endsOf r with
  | error d =>
    rw [he] at h
    cases h
  | ok e =>
    simp only [he, Step.given_ok] at h ⊢
    rw [entriesOf]
    -- the branches of the step in their order: between datatypes, not represented, derivation,
    -- field
    by_cases hdatatypes : m.holdsBetweenDatatypes r = true
    · have hfield : ¬ m.isField r = true := by
        rw [isField_iff]
        intro hr
        rw [hr.notInline] at hdatatypes
        cases hdatatypes
      rw [if_pos hdatatypes, if_pos hdatatypes, if_neg hfield, sourceOf_of_endsOf he]
      rfl
    rw [if_neg hdatatypes] at h ⊢
    rw [if_neg hdatatypes, isField, List.nil_append]
    by_cases hrepresented : m.isRepresented r = true
    · rw [hrepresented, Bool.not_true, if_neg Bool.false_ne_true] at h ⊢
      by_cases hderivation : r.isDerivation = true
      · rw [if_pos hderivation, hderivation, Bool.not_true, Bool.and_false,
          if_neg Bool.false_ne_true]
        split
        · exact entries_derivationStep _ _
        · rfl
      · rw [if_neg hderivation] at h ⊢
        rw [Bool.eq_false_iff.mpr hderivation, Bool.not_false, Bool.and_true, if_pos rfl]
        exact entries_fieldStep h
    · rw [Bool.eq_false_iff.mpr hrepresented, Bool.not_false, if_pos rfl, Bool.false_and,
        if_neg Bool.false_ne_true]
      rfl

/-! ## Entries of properties -/

/-- The bounds of an attribute have no entries. -/
theorem entries_customFact (k : Multiplicity) (counted : Counted) :
    entries (k.customFact counted) = [] := by
  refine entries_eq_nil fun f hf => ?_
  obtain ⟨b, rfl⟩ := Multiplicity.mem_customFact hf
  rfl

theorem entries_attributeImmutability (p : Property) (owner name : String) :
    entries (p.attributeImmutability owner name) = [] := by
  refine entries_eq_nil fun f hf => ?_
  rw [Property.mem_attributeImmutability hf]
  rfl

theorem entries_endConstraints (v : EndView) (k : Multiplicity) :
    entries (v.immutability n ++ v.multiplicityFact m k n) = [] := by
  refine entries_eq_nil fun f hf => ?_
  rcases List.mem_append.mp hf with hf | hf
  · rcases EndView.mem_immutability hf with rfl | rfl <;> rfl
  · obtain ⟨b, rfl⟩ := EndView.mem_multiplicityFact hf
    rfl

/-- A property that may have values has a type with a signature, if it has a type. -/
theorem isValued_eq {p : Property} {x : Classifier} (h : m.typeOf p = some x) :
    m.isValued p = m.mayHaveValues p := by
  rw [isValued, mayHaveValues, h]
  rfl

/-- An attribute that is a world field has a type with a signature. -/
theorem FieldAttribute.isValued {c : Class} {p : Property} {v : ValueSignature}
    (hp : m.FieldAttribute c p v) : m.isValued p = true := by
  obtain ⟨d, -, htype, -⟩ := valueSignature_ok hp.signature
  rw [isValued_eq htype, hp.isField.valued]

/-- A property that may not have values is not valued, whether it has a type or not. -/
theorem isValued_of_not_mayHaveValues {p : Property} (h : m.mayHaveValues p = false) :
    m.isValued p = false := by
  cases htype : m.typeOf p with
  | none => rw [isValued, htype, Option.any_none]
  | some x => rw [isValued_eq htype, h]

/-- The share of an attribute that is a world field. -/
theorem entriesOf_fieldAttribute {c : Class} {p : Property} {v : ValueSignature}
    (hp : m.FieldAttribute c p v) :
    m.entriesOf n (.property (.ofClass c) p) =
      [.field (n.own p.id), .accessor (n.alias p.id)]
        ++ if !p.isOrdered then [.selector (n.own p.id)] else [] := by
  have hfield : m.isFieldAttribute c p = true := by
    rw [isFieldAttribute, hp.isField.worldField, hp.isValued]
    rfl
  rw [entriesOf, hp.isField.notDatatype, hfield, Bool.true_and]
  rfl

/-- A skipped property has no share. -/
theorem entriesOf_skipped {x : Classifier} {p : Property} {reason : SkipReason}
    (h : m.roleOf x p = .skipped reason) : m.entriesOf n (.property x p) = [] := by
  cases x with
  | ofClass c =>
    simp only [roleOf, attributeRole] at h
    have hdatatype : ¬ c.isDatatype = true := by
      intro hdatatype
      rw [if_pos hdatatype] at h
      cases h
    have hfield : m.isFieldAttribute c p = false := by
      rw [isFieldAttribute, Bool.and_eq_false_iff]
      split_ifs at h with hnot hnone
      · -- the owner is no world field
        exact Or.inl (Bool.not_eq_true' _ ▸ hnot)
      · -- the type has no signature
        exact Or.inr (isValued_of_not_mayHaveValues (Bool.not_eq_true' _ ▸ hnone))
    rw [entriesOf, if_neg hdatatype, hfield]
    rfl
  | ofRelation r =>
    simp only [roleOf, endRole] at h
    have hfield : ¬ m.isField r = true := by
      rw [isField_iff]
      rintro ⟨hinline, hderivation, hrepresented⟩
      -- each reason to skip an end says that the relation is no field
      split_ifs at h with hdatatypes hderived hunrepresented
      · rw [hinline] at hdatatypes
        cases hdatatypes
      · rw [hderivation] at hderived
        cases hderived
      · rw [hrepresented] at hunrepresented
        cases hunrepresented
    rw [entriesOf, if_neg hfield]

/-- The step of a property adds its share. -/
theorem entries_property {x : Classifier} {p : Property} (hp : (x, p) ∈ m.properties)
    (h : (m.propertyStep x p).failure = none) :
    entries ((m.propertyStep x p).fragments n) = m.entriesOf n (.property x p) := by
  have hturn := turn_propertyStep h
  generalize m.propertyStep x p = step at hturn
  -- the role of the property decides on its share, as it decides on the step
  cases hturn with
  | skipped hrole => exact (entriesOf_skipped hrole).symm
  | @datatypeAttribute c v k hrole hv hk =>
    obtain ⟨rfl, hdatatype⟩ := roleOf_datatypeAttribute hrole
    have hfield : m.isFieldAttribute c p = false := by
      rw [isFieldAttribute, hasWorldField_of_isDatatype hdatatype, Bool.false_and]
    rw [entriesOf, if_pos hdatatype, hfield]
    show Entry.inlineField (n.own c.id) (n.own p.id) :: entries (k.customFact _) = _
    rw [entries_customFact]
    rfl
  | @orderedAttribute c v hrole hv =>
    obtain ⟨rfl, hfield, hordered⟩ := roleOf_orderedAttribute hrole
    rw [entriesOf_fieldAttribute ⟨has_of_mem_properties hp, hfield, hv⟩, hordered]
    show entries (p.orderedFragments c v n) = _
    rw [Property.orderedFragments, entries_append, entries_attributeImmutability]
    rfl
  | @plainAttribute c v k hrole hv hk =>
    obtain ⟨rfl, hfield, hordered⟩ := roleOf_plainAttribute hrole
    rw [entriesOf_fieldAttribute ⟨has_of_mem_properties hp, hfield, hv⟩, hordered]
    show entries (p.plainFragments c v k n) = _
    rw [Property.plainFragments, entries_append, entries_append, entries_append,
      entries_attributeImmutability, entries_customFact]
    rfl
  | @relationEnd r side e k hrole he hk =>
    obtain ⟨rfl, hfield, -⟩ := roleOf_relationEnd hrole
    rw [entriesOf, if_pos (isField_iff.mpr hfield)]
    show Entry.accessor ((EndView.ofEnds r p side e).accessor m n).name :: entries (_ ++ _) = _
    rw [entries_endConstraints, EndView.accessor, property_ofEnds]

/-- The step of a task adds its share, and nothing else. -/
theorem entries_stepOf {t : Task} (ht : t.IsOf m) (h : (m.stepOf t).failure = none) :
    entries ((m.stepOf t).fragments n) = m.entriesOf n t := by
  cases t with
  | klass c => exact entries_klass c
  | coverings => exact entries_coverings
  | generalization g => exact entries_generalization g
  | generalizationSet s => exact entries_generalizationSet h
  | relation r => exact entries_relation h
  | property x p => exact entries_property ht h

/-! ## Elements with entries -/

/-- The classes that are world fields. -/
def fieldClasses (m : Model) : List Class := m.classes.filter (·.hasWorldField)

/-- The represented relations that are no derivations. -/
def fieldRelations (m : Model) : List Relation := m.relations.filter m.isField

/-- The attributes of classes that are world fields, with a type that has a signature. -/
def fieldAttributes (m : Model) : List (Class × Property) :=
  m.attributes.filter fun a => m.isFieldAttribute a.1 a.2

/-- The properties of represented relations that are no derivations. -/
def fieldEnds (m : Model) : List (Relation × Property) :=
  m.relationEnds.filter fun a => m.isField a.1

/-- The relations between two datatypes that leave a class. -/
def inlineRelations (m : Model) (c : Class) : List Relation :=
  m.relations.filter fun r => m.holdsBetweenDatatypes r && m.sourceOf r == some (.ofClass c)

/-- The inline fields of the datatype entry of a class: its relations to datatypes and then, if it
is a datatype, its attributes. -/
def inlineNames (m : Model) (n : Names) (c : Class) : List String :=
  (m.inlineRelations c).map (·.fieldName n)
    ++ if c.isDatatype then c.attributes.map fun p => n.own p.id else []

/-! ## Shares by kind of element -/

/-- Parts of a list that are empty without a condition are those of the elements with the condition.
-/
theorem flatMap_if {α β : Type} (p : α → Bool) (g : α → List β) (l : List α) :
    (l.flatMap fun a => if p a then g a else []) = (l.filter p).flatMap g := by
  induction l with
  | nil => rfl
  | cons a l ih =>
    rw [List.flatMap_cons, ih, List.filter_cons]
    split <;> rfl

theorem flatMap_if_singleton {α β : Type} (p : α → Bool) (f : α → β) (l : List α) :
    (l.flatMap fun a => if p a then [f a] else []) = (l.filter p).map f := by
  rw [flatMap_if, List.map_eq_flatMap]

theorem flatMap_none {α β : Type} (l : List α) : l.flatMap (fun _ => ([] : List β)) = [] :=
  List.flatMap_eq_nil_iff.mpr fun _ _ => rfl

theorem filterMap_singleton {α β : Type} (f : α → Option β) (a : α) :
    [a].filterMap f = (f a).toList := by
  rw [List.filterMap_cons]
  cases f a <;> rfl

/-- What all tasks add to a section, by kind of element. -/
theorem filterMap_entries {β : Type} (entry : Entry → Option β) :
    (m.tasks.flatMap (m.entriesOf n)).filterMap entry =
      m.classes.flatMap (fun c =>
          (if c.hasDatatypeEntry then (entry (.datatype (n.own c.id))).toList else [])
            ++ if c.hasWorldField then (entry (.field (n.own c.id))).toList else [])
        ++ m.relations.flatMap (fun r =>
          (if m.holdsBetweenDatatypes r then (m.sourceOf r).toList.filterMap fun source =>
            entry (.inlineField (n.own source.id) (r.fieldName n)) else [])
            ++ if m.isField r then (entry (.field (r.fieldName n))).toList else [])
        ++ m.attributes.flatMap (fun a =>
          (if a.1.isDatatype then
            (entry (.inlineField (n.own a.1.id) (n.own a.2.id))).toList else [])
            ++ (if m.isFieldAttribute a.1 a.2 then
              (entry (.field (n.own a.2.id))).toList ++ (entry (.accessor (n.alias a.2.id))).toList
              else [])
            ++ if m.isFieldAttribute a.1 a.2 && !a.2.isOrdered then
              (entry (.selector (n.own a.2.id))).toList else [])
        ++ m.relationEnds.flatMap fun a =>
          if m.isField a.1 then (entry (.accessor (n.alias a.2.id))).toList else [] := by
  -- tasks that have no entries contribute nothing
  have hnone : ∀ {α : Type} (f : α → Task) (l : List α), (∀ a, m.entriesOf n (f a) = []) →
      (l.map f).flatMap (m.entriesOf n) = [] := by
    intro α f l h
    rw [List.flatMap_map, List.flatMap_eq_nil_iff]
    exact fun a _ => h a
  have hpair : ∀ e e' : Entry, [e, e'].filterMap entry = (entry e).toList ++ (entry e').toList := by
    intro e e'
    rw [← filterMap_singleton, ← filterMap_singleton, ← List.filterMap_append]
    rfl
  rw [tasks]
  simp only [List.flatMap_append, properties, List.map_append]
  -- coverings and generalizations have no entries
  rw [hnone _ m.generalizations fun _ => rfl, hnone _ m.generalizationSets fun _ => rfl,
    List.flatMap_singleton, entriesOf, List.append_nil, List.append_nil, List.append_nil]
  simp only [List.filterMap_append, List.flatMap_map, List.map_map, List.filterMap_flatMap,
    Function.comp_def, List.append_assoc, entriesOf, apply_ite (List.filterMap entry), hpair,
    filterMap_singleton, List.filterMap_nil, List.filterMap_map]

/-! ## Sections by their elements -/

/-- The world fields: classes, then relations, then attributes. -/
theorem fields_entries : (m.tasks.flatMap (m.entriesOf n)).filterMap Entry.field? =
    m.fieldClasses.map (fun c => n.own c.id) ++ m.fieldRelations.map (·.fieldName n)
      ++ m.fieldAttributes.map fun a => n.own a.2.id := by
  rw [filterMap_entries]
  simp only [Entry.field?, Option.toList_none, Option.toList_some, ite_self, List.nil_append,
    List.append_nil, List.filterMap_none, flatMap_if_singleton, flatMap_none]
  rfl

/-- The accessors: attributes, then ends. -/
theorem accessors_entries : (m.tasks.flatMap (m.entriesOf n)).filterMap Entry.accessor? =
    m.fieldAttributes.map (fun a => n.alias a.2.id)
      ++ m.fieldEnds.map fun a => n.alias a.2.id := by
  rw [filterMap_entries]
  simp only [Entry.accessor?, Option.toList_none, Option.toList_some, ite_self, List.nil_append,
    List.append_nil, List.filterMap_none, flatMap_if_singleton, flatMap_none]
  rfl

/-- The selectors: attributes without an order. -/
theorem selectors_entries : (m.tasks.flatMap (m.entriesOf n)).filterMap Entry.selector? =
    (m.fieldAttributes.filter fun a => !a.2.isOrdered).map fun a => n.own a.2.id := by
  rw [filterMap_entries, fieldAttributes, List.filter_filter]
  simp only [Entry.selector?, Option.toList_none, Option.toList_some, ite_self, List.nil_append,
    List.append_nil, List.filterMap_none, flatMap_if_singleton, flatMap_none, Bool.and_comm]

/-- The datatypes: classes with a datatype entry. -/
theorem datatypes_entries : (m.tasks.flatMap (m.entriesOf n)).filterMap Entry.datatype? =
    (m.classes.filter (·.hasDatatypeEntry)).map fun c => n.own c.id := by
  rw [filterMap_entries]
  simp only [Entry.datatype?, Option.toList_none, Option.toList_some, ite_self, List.append_nil,
    List.filterMap_none, flatMap_if_singleton, flatMap_none]

/-- The fields given to the datatype called `w`: relations from it, and then its attributes. -/
theorem fieldsGiven_entries (w : String) : fieldsGiven (m.tasks.flatMap (m.entriesOf n)) w =
    (m.relations.filter fun r => m.holdsBetweenDatatypes r &&
        (m.sourceOf r).any fun x => n.own x.id == w).map (·.fieldName n)
      ++ (m.attributes.filter fun a => a.1.isDatatype && n.own a.1.id == w).map
        fun a => n.own a.2.id := by
  -- what an entry gives is a condition on its datatype, so that the kinds of elements filter by it
  have hgiven : ∀ (d name : String), (Entry.fieldOf? w (.inlineField d name)).toList =
      if d == w then [name] else [] := by
    intro d name
    simp only [Entry.fieldOf?, beq_iff_eq, apply_ite Option.toList, Option.toList_some,
      Option.toList_none]
  have hsource : ∀ (source : Option Classifier) (name : String),
      (source.toList.filterMap fun x => Entry.fieldOf? w (.inlineField (n.own x.id) name)) =
        if source.any fun x => n.own x.id == w then [name] else [] := by
    intro source name
    cases source with
    | none => rfl
    | some x =>
      rw [Option.toList_some, filterMap_singleton, hgiven, Option.any_some]
  have hand : ∀ (b c : Bool) (name : String),
      (if b then if c then [name] else [] else []) = if b && c then [name] else [] := by
    intro b c name
    cases b <;> rfl
  rw [fieldsGiven, filterMap_entries]
  simp only [hgiven, hsource, hand]
  simp only [Entry.fieldOf?, Option.toList_none, ite_self, List.nil_append, List.append_nil,
    flatMap_if_singleton, flatMap_none]

/-! ## The inventory of a run -/

/-- The entries of a run are the shares of its tasks. -/
theorem entries_fragments (hok : ∀ t ∈ m.tasks, (m.stepOf t).failure = none) :
    entries m.fragments = m.tasks.flatMap (m.entriesOf m.names) := by
  rw [fragments, fragmentsOf, entries, List.filterMap_flatMap]
  exact List.flatMap_congr fun t ht => entries_stepOf (isOf_of_mem_tasks ht) (hok t ht)

/-- A class with a datatype entry requests its name. -/
theorem request_mem_of_hasDatatypeEntry {c : Class} (hc : c ∈ m.classes)
    (h : c.hasDatatypeEntry = true) : c.label.request ∈ m.requests := by
  refine mem_requests_iff.mpr ⟨.klass c, mem_tasks_of_mem_classes hc, ?_⟩
  have hstep : c.step = c.datatypeStep := if_pos h
  rw [stepOf, hstep]
  exact List.mem_cons_self

/-- A datatype has a datatype entry. -/
theorem hasDatatypeEntry_of_isDatatype {c : Class} (h : c.isDatatype = true) :
    c.hasDatatypeEntry = true := by
  rw [Class.hasDatatypeEntry, h, Bool.true_or]

/-- The attributes of one class are its own, as no other class equals it. -/
theorem filter_attributes (hid : m.ids.Nodup) {c : Class} (hc : c ∈ m.classes) :
    (m.attributes.filter fun a => a.1 == c) = c.attributes.map fun p => (c, p) := by
  have hclasses : m.classes.Nodup := (nodup_classIds hid).of_map
  have hown : ∀ d : Class, ((d.attributes.map fun p => (d, p)).filter fun a => a.1 == c) =
      if d == c then d.attributes.map (fun p => (d, p)) else [] := by
    intro d
    rw [List.filter_map]
    show ((d.attributes.filter fun _ => d == c).map _) = _
    cases d == c with
    | true => rw [List.filter_true, if_pos rfl]
    | false => rw [List.filter_false, List.map_nil, if_neg Bool.false_ne_true]
  rw [attributes, List.filter_flatMap]
  simp only [hown]
  rw [flatMap_if, List.filter_beq, List.count_eq_one_of_mem hclasses hc, List.replicate_one,
    List.flatMap_singleton]

section

variable {c d : Class} (hid : m.ids.Nodup)
include hid

/-- Datatypes with the same name are the same. -/
theorem own_eq_iff (hc : c ∈ m.classes) (hd : d ∈ m.classes) (hcentry : c.hasDatatypeEntry = true)
    (hdentry : d.hasDatatypeEntry = true) : m.names.own c.id = m.names.own d.id ↔ c = d := by
  constructor
  · intro h
    have hkey := of_injective (request_mem_of_hasDatatypeEntry hc hcentry)
      (request_mem_of_hasDatatypeEntry hd hdentry) h
    have hhasc : m.Has (.ofClass c) := hc
    have hhasd : m.Has (.ofClass d) := hd
    exact Classifier.ofClass.inj (eq_of_has hid hhasc hhasd (Key.own.inj hkey))
  · rintro rfl
    rfl

/-- A datatype is given the fields of the class that it is named after. -/
theorem fieldsGiven_own (hc : c ∈ m.classes) (hentry : c.hasDatatypeEntry = true) :
    fieldsGiven (m.tasks.flatMap (m.entriesOf m.names)) (m.names.own c.id) =
      m.inlineNames m.names c := by
  -- as names differ, the datatype of a name is the class itself
  have hrelations : (m.relations.filter fun r => m.holdsBetweenDatatypes r &&
      (m.sourceOf r).any fun x => m.names.own x.id == m.names.own c.id) = m.inlineRelations c := by
    refine List.filter_congr fun r _ => ?_
    -- a relation between datatypes leaves a class of the model
    cases hdatatypes : m.holdsBetweenDatatypes r with
    | false => rfl
    | true =>
      obtain ⟨d, hd, hsource, hdatatype⟩ := sourceOf_of_holdsBetweenDatatypes hdatatypes
      have hiff := own_eq_iff hid hd hc (hasDatatypeEntry_of_isDatatype hdatatype) hentry
      rw [hsource, Option.any_some, Bool.true_and, Bool.true_and, Bool.eq_iff_iff, beq_iff_eq,
        beq_iff_eq, Option.some.injEq, Classifier.ofClass.injEq]
      exact hiff
  have hattributes : (m.attributes.filter fun a => a.1.isDatatype &&
      m.names.own a.1.id == m.names.own c.id) =
      m.attributes.filter fun a => c.isDatatype && a.1 == c := by
    refine List.filter_congr fun a ha => ?_
    obtain ⟨d, hd, hmem⟩ := List.mem_flatMap.mp ha
    obtain ⟨p, -, rfl⟩ := List.mem_map.mp hmem
    rw [Bool.eq_iff_iff, Bool.and_eq_true, Bool.and_eq_true, beq_iff_eq, beq_iff_eq]
    constructor
    · rintro ⟨hdatatype, hname⟩
      have hdentry := hasDatatypeEntry_of_isDatatype hdatatype
      obtain rfl := (own_eq_iff hid hd hc hdentry hentry).mp hname
      exact ⟨hdatatype, rfl⟩
    · rintro ⟨hdatatype, rfl⟩
      exact ⟨hdatatype, rfl⟩
  -- only a datatype is given attributes
  rw [fieldsGiven_entries, hrelations, hattributes, inlineNames]
  cases c.isDatatype with
  | false =>
    simp only [Bool.false_and, List.filter_false]
    rfl
  | true =>
    simp only [Bool.true_and]
    rw [filter_attributes hid hc, List.map_map]
    rfl

end

/-- **Inventory.** In the module of a model with distinct ids, the world fields are those of the
classes of endurants, the represented relations that are no derivations, and the attributes of
classes of endurants that have a type with a signature; the accessors are those of these attributes
and of the ends of these relations; the selectors are those of the attributes without an order; all
in the order of the model. The fields of a datatype are its relations to datatypes and then its
attributes, and those of an enumeration without literals are none. -/
theorem sections_eq {s : Sections} (hid : m.ids.Nodup) (h : m.encoding = .ok s) :
    s.worldFields.map (·.name) =
        m.fieldClasses.map (fun c => m.names.own c.id)
          ++ m.fieldRelations.map (·.fieldName m.names)
          ++ m.fieldAttributes.map (fun a => m.names.own a.2.id) ∧
      s.accessors.map (·.name) =
        m.fieldAttributes.map (fun a => m.names.alias a.2.id)
          ++ m.fieldEnds.map (fun a => m.names.alias a.2.id) ∧
      s.selectors.map (·.field) =
        (m.fieldAttributes.filter fun a => !a.2.isOrdered).map (fun a => m.names.own a.2.id) ∧
      s.datatypes.map Datatype.summary =
        (m.classes.filter (·.hasDatatypeEntry)).map
          fun c => (m.names.own c.id, m.inlineNames m.names c) := by
  obtain ⟨rfl, hok⟩ := encoding_ok hid h
  have hentries := entries_fragments hok
  refine ⟨?_, ?_, ?_, ?_⟩
  · rw [worldFields_names, hentries, fields_entries]
  · rw [accessors_names, hentries, accessors_entries]
  · rw [selectors_fields, hentries, selectors_entries]
  · -- distinct classes with datatypes have distinct names, so the datatypes are gathered one by one
    have hnodup :
        ((m.classes.filter (·.hasDatatypeEntry)).map fun c => m.names.own c.id).Nodup := by
      refine List.Nodup.map_on ?_ ((nodup_classIds hid).of_map.filter _)
      intro c hc d hd heq
      obtain ⟨hc, hcentry⟩ := List.mem_filter.mp hc
      obtain ⟨hd, hdentry⟩ := List.mem_filter.mp hd
      exact (own_eq_iff hid hc hd hcentry hdentry).mp heq
    have hgather := foldl_gather (fieldsFollow_fragments hok)
      (by rwa [hentries, datatypes_entries])
    rw [hentries, datatypes_entries] at hgather
    show (m.fragments.foldl gather []).map Datatype.summary = _
    rw [hgather, List.map_nil, List.nil_append, List.map_map]
    refine List.map_congr_left fun c hc => ?_
    obtain ⟨hc, hentry⟩ := List.mem_filter.mp hc
    rw [Function.comp_apply, fieldsGiven_own hid hc hentry]

/-- The sections of the model about lending. -/
theorem lending_sections_eq :
    lending.ids.Nodup ∧ ∃ s, lending.encoding = .ok s ∧
      s.worldFields.map (·.name) =
          lending.fieldClasses.map (fun c => lending.names.own c.id)
            ++ lending.fieldRelations.map (·.fieldName lending.names)
            ++ lending.fieldAttributes.map (fun a => lending.names.own a.2.id) ∧
        s.accessors.map (·.name) =
          lending.fieldAttributes.map (fun a => lending.names.alias a.2.id)
            ++ lending.fieldEnds.map (fun a => lending.names.alias a.2.id) ∧
        s.selectors.map (·.field) =
          (lending.fieldAttributes.filter fun a => !a.2.isOrdered).map
            (fun a => lending.names.own a.2.id) ∧
        s.datatypes.map Datatype.summary =
          (lending.classes.filter (·.hasDatatypeEntry)).map
            fun c => (lending.names.own c.id, lending.inlineNames lending.names c) := by
  have hid : lending.ids.Nodup := by decide +kernel
  obtain ⟨s, hs⟩ := exists_encoding_of_isOk (m := lending) (by decide +kernel)
  exact ⟨hid, s, hs, sections_eq hid hs⟩

/-- A status has a label, and no literals yet. -/
def unlisted : Model where
  classes := [
    { id := ⟨"status"⟩, name := some "Status", stereotype := some .enumeration
      attributes := [{ id := ⟨"label"⟩, name := some "label", type := some ⟨"text"⟩ }] },
    { id := ⟨"text"⟩, name := some "String", stereotype := some .datatype }]

/-- The evaluation of the model: the enumeration without literals is a datatype without fields. -/
theorem unlisted_datatypes : unlisted.encoding.toOption.map (fun s =>
    s.datatypes.any fun d => d.name == unlisted.names.own ⟨"status"⟩ && d.fields.isEmpty)
      = some true := by
  decide +kernel

/-- So there are datatypes without a field for an attribute of their class. -/
theorem not_forall_fields_eq :
    ¬ ∀ (m : Model) (s : Sections), m.ids.Nodup → m.encoding = .ok s →
      ∀ d ∈ s.datatypes, ∀ c ∈ m.classes, c.hasDatatypeEntry = true →
        d.name = m.names.own c.id → d.fields.map (·.name) =
          (m.inlineRelations c).map (·.fieldName m.names)
            ++ c.attributes.map fun p => m.names.own p.id := by
  intro h
  have hdatatypes := unlisted_datatypes
  obtain ⟨s, hs⟩ := exists_encoding_of_isOk (m := unlisted) (by decide +kernel)
  rw [hs] at hdatatypes
  obtain ⟨d, hd, hstatus⟩ := List.any_eq_true.mp (Option.some.inj hdatatypes)
  rw [Bool.and_eq_true, beq_iff_eq, List.isEmpty_iff] at hstatus
  obtain ⟨hname, hempty⟩ := hstatus
  have hfields := h unlisted s (by decide +kernel) hs d hd _ List.mem_cons_self rfl hname
  rw [hempty] at hfields
  -- there is an attribute, but no field
  exact List.append_ne_nil_of_right_ne_nil _ (List.cons_ne_nil _ _) hfields.symm

end Model

end OntoWorlds
