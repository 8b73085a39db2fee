import OntoWorlds.Proofs.Module.Fields

/-!
# OntoWorlds — the columns of world fields

A column of a world field is named after what stands in it: a position, a base signature, a value
type or a class of endurants. Each of them is declared by the module or built in, with one
exception. The middle column of a derived material relation is named after the target of its
derivation, which may be any class or relation of the model, and no look is taken at whether this
has a counterpart.

* `FieldShape.columns` — the columns of a field.
* `Sections.IsColumn` — what a module has declared to stand in columns.
* `isColumn_of_hasCounterpart`, `exists_class_of_isColumn` — for an element of the model this means
  that it is a class with a signature.
* `undeclared_column_iff` — the columns that are not declared are the middle columns of material
  relations that are derived from an element without a signature.
-/

namespace OntoWorlds

open Identifier (isBuiltin)

namespace Alloy

/-! ## Columns -/

/-- The columns of the relation that a field holds. A class has a single one, for its instances. -/
def FieldShape.columns : FieldShape → List String
  | extension base => [base.word]
  | binary source _ _ target => [source, target]
  | founded source relator target => [source, relator, target]
  | indexed source target => [source, "Int", target]

/-- The field is the one of a class. -/
def FieldShape.isExtension : FieldShape → Bool
  | extension _ => true
  | binary .. | founded .. | indexed .. => false

namespace Sections

/-- The names of the world fields of classes. -/
def extensions (s : Sections) : List String :=
  (s.worldFields.filter (·.shape.isExtension)).map (·.name)

/-- What can stand in a column: positions, signatures, built-in ones among them, and the world
fields of classes. -/
def IsColumn (s : Sections) (w : String) : Prop :=
  w = "Int" ∨ isBuiltin w = true ∨ w ∈ s.signatures ∨ w ∈ s.extensions

instance (s : Sections) (w : String) : Decidable (s.IsColumn w) :=
  inferInstanceAs (Decidable (w = "Int" ∨ isBuiltin w = true ∨ w ∈ s.signatures ∨ w ∈ s.extensions))

/-- The field is declared, with these columns. -/
def HasColumns (s : Sections) (name : String) (columns : List String) : Prop :=
  ∃ f ∈ s.worldFields, f.name = name ∧ f.shape.columns = columns

instance (s : Sections) (name : String) (columns : List String) :
    Decidable (s.HasColumns name columns) :=
  inferInstanceAs (Decidable (∃ f ∈ s.worldFields, f.name = name ∧ f.shape.columns = columns))

variable {s : Sections} {w : String}

/-- The extensions are the fields that have the shape of one. -/
theorem mem_extensions_iff :
    w ∈ s.extensions ↔ ∃ base, ⟨w, .extension base⟩ ∈ s.worldFields := by
  simp only [extensions, List.mem_map, List.mem_filter]
  constructor
  · rintro ⟨⟨name, shape⟩, ⟨hmem, hextension⟩, rfl⟩
    cases shape with
    | extension base => exact ⟨base, hmem⟩
    | binary => cases hextension
    | founded => cases hextension
    | indexed => cases hextension
  · rintro ⟨base, hmem⟩
    exact ⟨_, ⟨hmem, rfl⟩, rfl⟩

/-- A name that resolves as a type can stand in a column. -/
theorem isColumn_of_resolves_type (h : s.Resolves (.type w)) : s.IsColumn w := by
  rcases h with hbuiltin | ⟨hsignature, -⟩
  · exact Or.inr (Or.inl hbuiltin)
  · exact Or.inr (Or.inr (Or.inl hsignature))

end Sections

/-- The name of the signature that a fragment introduces. -/
def Fragment.signature? : Fragment → Option String
  | .enumeration e => some e.name
  | .datatype name _ => some name
  | .worldField _ | .covering _ | .fact _ | .immutability _ | .accessor _ | .selector _
  | .inlineField _ _ => none

end Alloy

open Alloy

namespace Model

variable {m : Model}

/-! ## Elements with signatures -/

/-- The owner of a field attribute is a class with a signature. -/
theorem FieldAttribute.hasCounterpart {c : Class} {p : Property} {v : ValueSignature}
    (hp : m.FieldAttribute c p v) : m.HasCounterpart (.ofClass c) := by
  refine ⟨c, hp.mem, rfl, ?_⟩
  rw [Class.hasSignature, hp.isField.worldField, Bool.or_true]

/-- An element of the model with a signature has a counterpart. -/
theorem hasCounterpart_of_hasSignature {x : Classifier} (hx : m.Has x)
    (h : x.hasSignature = true) : m.HasCounterpart x := by
  cases x with
  | ofClass c => exact ⟨c, hx, rfl, h⟩
  | ofRelation r => cases h

/-- Only value types of the model introduce signatures, under their own names. -/
theorem Emits.exists_valueType {n : Names} {t : Task} {requests : List Request} {f : Fragment}
    (h : m.Emits n t requests f) {w : String} (hw : f.signature? = some w) :
    ∃ c ∈ m.classes, c.isValueType = true ∧ w = n.own c.id ∧ ∃ q ∈ requests, q.key = .own c.id := by
  -- of all fragments only datatypes and enumerations introduce a signature
  cases h with
  | @datatype c hc hvalue =>
    cases hw
    exact ⟨c, hc, hvalue, rfl, c.label.request, List.mem_cons_self, rfl⟩
  | @enumeration c hc hvalue =>
    cases hw
    exact ⟨c, hc, hvalue, rfl, c.label.declaredRequest, List.mem_cons_self, rfl⟩
  | _ => cases hw

section

variable {s : Sections} (hid : m.ids.Nodup) (h : m.encoding = .ok s)
include hid h

/-- An element with a counterpart can stand in columns, as an extension or as a value type. -/
theorem isColumn_of_hasCounterpart {x : Classifier} (hx : m.HasCounterpart x) :
    s.IsColumn (m.names.own x.id) := by
  obtain ⟨c, hc, rfl, hsignature⟩ := hx
  cases hbase : c.base? with
  | some base =>
    -- with a base signature it has a world field
    have hfield := mem_worldFields_of_declaresField hid h (.extension hc hbase)
    exact Or.inr (Or.inr (Or.inr (Sections.mem_extensions_iff.mpr ⟨base, hfield⟩)))
  | none =>
    -- without one it is a value type, which is a signature
    have hworld : c.hasWorldField = false := by
      rw [Class.hasWorldField, hbase, Option.isSome_none]
    have hvalue := Class.isValueType_of_hasSignature hsignature hworld
    exact Sections.isColumn_of_resolves_type (resolves_valueType hid h hc hvalue)

/-- A signature that is called like an element is the one of this element. -/
theorem exists_class_of_mem_signatures {q : Request} (hq : q ∈ m.requests)
    (hw : m.names.of q.key ∈ s.signatures) :
    ∃ c ∈ m.classes, c.hasSignature = true ∧ q.key = .own c.id := by
  obtain ⟨rfl, hok⟩ := encoding_ok hid h
  -- enumerations and datatypes are introduced by the step of a class
  have hclass : ∀ {f : Fragment}, f ∈ m.fragments → f.signature? = some (m.names.of q.key) →
      ∃ c ∈ m.classes, c.hasSignature = true ∧ q.key = .own c.id := by
    intro f hf hsignature
    obtain ⟨t, -, requests, hrequests, hemits⟩ := exists_emits_of_mem_fragments hok hf
    obtain ⟨c, hc, hvalue, hname, q', hq', hkey⟩ := hemits.exists_valueType hsignature
    have heq : q.key = q'.key := of_injective hq (hrequests hq') (by rw [hname, hkey]; rfl)
    refine ⟨c, hc, ?_, heq.trans hkey⟩
    rw [Class.hasSignature, hvalue, Bool.true_or]
  simp only [Sections.signatures, List.mem_append] at hw
  rcases hw with (hw | hw) | hw
  · -- base signatures are words that every module declares
    refine absurd ?_ (not_mem_declaredWords_of_mem_requests hq)
    obtain ⟨b, -, hb⟩ := List.mem_map.mp hw
    rw [← hb]
    cases b <;> decide +kernel
  · obtain ⟨e, he, hname⟩ := List.mem_map.mp hw
    exact hclass (mem_enumerations_iff.mp he) (congrArg some hname)
  · -- the signature of a declared datatype, whose header was gathered from a fragment
    obtain ⟨d, hd, hname⟩ := List.mem_map.mp hw
    obtain ⟨hmem, hdeclared⟩ := List.mem_filter.mp hd
    have hheader : (d.name, true) ∈ headers (m.fragments.foldl gather []) :=
      List.mem_map.mpr ⟨d, hmem, by rw [hdeclared]⟩
    rcases mem_headers_foldl (fieldsFollow_fragments hok) hheader with hnone | hdatatype
    · cases hnone
    · exact hclass hdatatype (congrArg some hname)

omit hid h in
/-- The word for positions is reserved, so no element is called like it. -/
theorem of_key_ne_int {q : Request} (hq : q ∈ m.requests) : m.names.of q.key ≠ "Int" := by
  obtain ⟨w, hgiven, hof⟩ := given?_of_mem_requests hq
  -- an identifier that was given is issuable, and the word for positions is not
  have hissuable : Identifier.IsIssuable w := issuable_of_given? hgiven
  have hint : ¬ Identifier.IsIssuable "Int" := by
    unfold Identifier.IsIssuable
    decide +kernel
  rw [hof]
  intro heq
  exact hint (heq ▸ hissuable)

/-- An element that may stand in columns is a class with a signature, unless its name is the one of
a built-in signature. -/
theorem exists_class_of_isColumn {q : Request} (hq : q ∈ m.requests)
    (hbuiltin : isBuiltin (m.names.of q.key) = false) (hw : s.IsColumn (m.names.of q.key)) :
    ∃ c ∈ m.classes, c.hasSignature = true ∧ q.key = .own c.id := by
  rcases hw with hint | hw | hw | hw
  · -- not a position, as no element is called by that word
    exact absurd hint (of_key_ne_int hq)
  · rw [hw] at hbuiltin
    cases hbuiltin
  · exact exists_class_of_mem_signatures hid h hq hw
  · -- the world field of a class
    obtain ⟨base, hfield⟩ := Sections.mem_extensions_iff.mp hw
    obtain ⟨c, hc, hbase, hkey⟩ := (declaresField_of_name hid h hfield hq rfl).exists_class
    refine ⟨c, hc, ?_, hkey⟩
    rw [Class.hasSignature, Class.hasWorldField, hbase, Option.isSome_some, Bool.or_true]

/-- A column of a declared field is declared, or it is the middle column of a derived relation. -/
theorem DeclaresField.isColumn_or_founder {k : Key} {shape : FieldShape}
    (hk : m.DeclaresField m.names k shape) {w : String} (hw : w ∈ shape.columns) :
    s.IsColumn w ∨ ∃ r e founder, m.FieldRelation r e ∧ m.founderOf r = some (.ok founder) ∧
      k = r.fieldRequest.key ∧ w = m.names.own founder.id ∧
      shape = .founded (m.names.own e.source.id) w (m.names.own e.target.id) := by
  -- what the two ends of a relation, and the owner and the values of an attribute, come to
  have hends : ∀ {r : Relation} {e : Ends}, m.FieldRelation r e →
      s.IsColumn (m.names.own e.source.id) ∧ s.IsColumn (m.names.own e.target.id) := by
    intro r e hr
    obtain ⟨hsource, htarget⟩ := hr.hasCounterpart
    exact ⟨isColumn_of_hasCounterpart hid h hsource, isColumn_of_hasCounterpart hid h htarget⟩
  have hattribute : ∀ {c : Class} {p : Property} {v : ValueSignature}, m.FieldAttribute c p v →
      s.IsColumn (m.names.own c.id) ∧ s.IsColumn (v.name m.names) := by
    intro c p v hp
    have hvalues := resolves_valueSignature hid h hp.signature
    exact ⟨isColumn_of_hasCounterpart hid h hp.hasCounterpart,
      Sections.isColumn_of_resolves_type hvalues⟩
  have hint : s.IsColumn "Int" := Or.inl rfl
  -- one case for each kind of field, column by column
  cases hk with
  | @extension c base hc hbase =>
    rw [List.mem_singleton.mp hw]
    exact Or.inl (Sections.isColumn_of_resolves_type (resolves_base hid h base))
  | @founded r e founder hr hfounder =>
    simp only [FieldShape.columns, List.mem_cons, List.not_mem_nil, or_false] at hw
    rcases hw with rfl | rfl | rfl
    · exact Or.inl (hends hr).1
    · -- the founder is looked up without asking for its signature
      exact Or.inr ⟨r, e, founder, hr, hfounder, rfl, rfl, rfl⟩
    · exact Or.inl (hends hr).2
  | @indexed r e hr =>
    simp only [FieldShape.columns, List.mem_cons, List.not_mem_nil, or_false] at hw
    rcases hw with rfl | rfl | rfl
    · exact Or.inl (hends hr).1
    · exact Or.inl hint
    · exact Or.inl (hends hr).2
  | @binary r e atSource atTarget hr =>
    simp only [FieldShape.columns, List.mem_cons, List.not_mem_nil, or_false] at hw
    rcases hw with rfl | rfl
    · exact Or.inl (hends hr).1
    · exact Or.inl (hends hr).2
  | @orderedAttribute c p v hmem hp =>
    simp only [FieldShape.columns, List.mem_cons, List.not_mem_nil, or_false] at hw
    rcases hw with rfl | rfl | rfl
    · exact Or.inl (hattribute hp).1
    · exact Or.inl hint
    · exact Or.inl (hattribute hp).2
  | @plainAttribute c p v k hmem hp =>
    simp only [FieldShape.columns, List.mem_cons, List.not_mem_nil, or_false] at hw
    rcases hw with rfl | rfl
    · exact Or.inl (hattribute hp).1
    · exact Or.inl (hattribute hp).2

end

/-! ## The columns of relations -/

/-- The columns of the field of a relation under given names: the two ends, and what founds the
relation or a position between them. -/
def relationColumns (m : Model) (r : Relation) (e : Ends) (n : Names) : List String :=
  match m.founderOf r with
  | some (.ok founder) => [n.own e.source.id, n.own founder.id, n.own e.target.id]
  | some (.error _) | none =>
    if r.hasOrderedEnd then [n.own e.source.id, "Int", n.own e.target.id]
    else [n.own e.source.id, n.own e.target.id]

/-- The field of a relation has the columns that the relation decides on. -/
theorem DeclaresField.columns_of_relation (hid : m.ids.Nodup) {n : Names} {k : Key}
    {shape : FieldShape} (h : m.DeclaresField n k shape) {r : Relation} (hr : r ∈ m.relations)
    (hk : k.id = r.id) : ∃ e, m.FieldRelation r e ∧ shape.columns = m.relationColumns r e n := by
  obtain ⟨e, hfield, hshape⟩ := h.of_relation hid hr hk
  refine ⟨e, hfield, ?_⟩
  rcases hshape with ⟨founder, hfounder, rfl⟩ | ⟨hfounder, hordered, rfl⟩ |
    ⟨hfounder, hordered, atSource, atTarget, rfl⟩ <;> rw [relationColumns, hfounder]
  · rfl
  · dsimp only
    rw [if_pos hordered]
    rfl
  · dsimp only
    rw [hordered, if_neg Bool.false_ne_true]
    rfl

/-- A relation with a field has its columns declared by the module. -/
theorem FieldRelation.hasColumns {s : Sections} (hid : m.ids.Nodup) (h : m.encoding = .ok s)
    {r : Relation} {e : Ends} (hr : m.FieldRelation r e) :
    s.HasColumns (r.fieldName m.names) (m.relationColumns r e m.names) := by
  obtain ⟨shape, hdeclares⟩ := hr.exists_declaresField hid h
  obtain ⟨e', hr', hcolumns⟩ := hdeclares.columns_of_relation hid hr.mem r.id_fieldRequest_key
  obtain rfl : e = e' := Except.ok.inj (hr.ends.symm.trans hr'.ends)
  have hfield := mem_worldFields_of_declaresField hid h hdeclares
  exact ⟨_, hfield, (r.fieldName_eq _).symm, hcolumns⟩

/-- A field that is called like a relation is the one of the relation, with its columns. -/
theorem hasColumns_iff {s : Sections} (hid : m.ids.Nodup) (h : m.encoding = .ok s) {r : Relation}
    (hr : r ∈ m.relations) (hq : r.fieldRequest ∈ m.requests) (columns : List String) :
    s.HasColumns (r.fieldName m.names) columns ↔
      ∃ e, m.FieldRelation r e ∧ columns = m.relationColumns r e m.names := by
  constructor
  · rintro ⟨f, hf, hname, rfl⟩
    rw [r.fieldName_eq] at hname
    -- the name has been requested for the relation, so the field is its own
    have hdeclares := declaresField_of_name hid h hf hq hname
    exact hdeclares.columns_of_relation hid hr r.id_fieldRequest_key
  · rintro ⟨e, hfield, rfl⟩
    exact hfield.hasColumns hid h

/-! ## Undeclared columns -/

/-- What founds a relation is an element of the model. -/
theorem has_of_founderOf {r : Relation} {founder : Classifier}
    (h : m.founderOf r = some (.ok founder)) : m.Has founder := by
  obtain ⟨d, e, -, -, hends, rfl⟩ := founderOf_ok h
  exact has_target_of_endsOf hends

/-- A derived material relation requests the name of what founds it. -/
theorem FieldRelation.founderRequest_mem {r : Relation} {e : Ends} {founder : Classifier}
    (hr : m.FieldRelation r e) (hfounder : m.founderOf r = some (.ok founder)) :
    founder.label.request ∈ m.requests := by
  refine mem_requests_iff.mpr ⟨.relation r, mem_tasks_of_mem_relations hr.mem, ?_⟩
  rw [stepOf, hr.relationStep_eq, fieldStep, hfounder]
  show _ ∈ r.endRequests e ++ [founder.label.request]
  exact List.mem_append_right _ (List.mem_singleton.mpr rfl)

/-- **Columns.** In the module of a model with distinct ids, a column of a world field is not
declared exactly if it is the middle column of a derived material relation, named after the target
of its derivation, and this has no signature. -/
theorem undeclared_column_iff {s : Sections} (hid : m.ids.Nodup) (h : m.encoding = .ok s)
    {f : WorldField} (hf : f ∈ s.worldFields) (w : String) :
    w ∈ f.shape.columns ∧ ¬ s.IsColumn w ↔
      ∃ r e founder, m.FieldRelation r e ∧ m.founderOf r = some (.ok founder) ∧
        f = ⟨r.fieldName m.names,
          .founded (m.names.own e.source.id) w (m.names.own e.target.id)⟩ ∧
        w = m.names.own founder.id ∧ founder.hasSignature = false ∧ isBuiltin w = false := by
  constructor
  · -- a column that is not declared is a middle column, so there is a founder
    rintro ⟨hw, hnot⟩
    obtain ⟨q, hq, hname, hdeclares⟩ := exists_declaresField hid h hf
    rcases hdeclares.isColumn_or_founder hid h hw with hcolumn |
      ⟨r, e, founder, hr, hfounder, hkey, rfl, hshape⟩
    · exact absurd hcolumn hnot
    refine ⟨r, e, founder, hr, hfounder, ?_, rfl, ?_, ?_⟩
    · obtain ⟨name, shape⟩ := f
      dsimp only at hname hshape
      rw [hname, hshape, hkey, r.fieldName_eq]
    · -- with a signature it would be declared
      rw [Bool.eq_false_iff]
      intro hsignature
      have hx := hasCounterpart_of_hasSignature (has_of_founderOf hfounder) hsignature
      exact hnot (isColumn_of_hasCounterpart hid h hx)
    · rw [Bool.eq_false_iff]
      intro hbuiltin
      exact hnot (Or.inr (Or.inl hbuiltin))
  · -- the middle column of a relation whose founder has no signature
    rintro ⟨r, e, founder, hr, hfounder, rfl, rfl, hsignature, hbuiltin⟩
    refine ⟨List.mem_cons_of_mem _ List.mem_cons_self, fun hcolumn => ?_⟩
    -- the founder is requested, so only its own declaration could stand for it
    have hrequest := hr.founderRequest_mem hfounder
    obtain ⟨c, hc, hclass, hkey⟩ := exists_class_of_isColumn hid h hrequest hbuiltin hcolumn
    have hhas : m.Has (.ofClass c) := hc
    have heq : founder = .ofClass c :=
      eq_of_has hid (has_of_founderOf hfounder) hhas (Key.own.inj hkey)
    rw [heq, Classifier.hasSignature, hclass] at hsignature
    cases hsignature

/-- Persons know each other from meetings, which are events. -/
def acquaintance : Model where
  classes := [
    { id := ⟨"person"⟩, name := some "Person", stereotype := some .kind },
    { id := ⟨"meeting"⟩, name := some "Meeting", stereotype := some .event }]
  relations := [
    { id := ⟨"knows"⟩, name := some "knows", stereotype := some .material
      ends := [
        { id := ⟨"knows source"⟩, type := some ⟨"person"⟩ },
        { id := ⟨"knows target"⟩, type := some ⟨"person"⟩ }] },
    { id := ⟨"founds"⟩, stereotype := some .derivation
      ends := [
        { id := ⟨"founds source"⟩, type := some ⟨"knows"⟩ },
        { id := ⟨"founds target"⟩, type := some ⟨"meeting"⟩ }] }]

/-- The evaluation of the model: the middle column is there, and declared nowhere. -/
theorem acquaintance_columns : acquaintance.encoding.toOption.map (fun s =>
    decide (⟨"knows", .founded "Person" "Meeting" "Person"⟩ ∈ s.worldFields) &&
      decide (¬ s.IsColumn "Meeting")) = some true := by
  decide +kernel

/-- The meetings have no counterpart, and yet a column. -/
theorem acquaintance_undeclared_column_iff :
    acquaintance.ids.Nodup ∧ ∃ s, acquaintance.encoding = .ok s ∧ ∃ f ∈ s.worldFields,
      ("Meeting" ∈ f.shape.columns ∧ ¬ s.IsColumn "Meeting") ∧
      ∃ r e founder, acquaintance.FieldRelation r e ∧
        acquaintance.founderOf r = some (.ok founder) ∧
        f = ⟨r.fieldName acquaintance.names, .founded (acquaintance.names.own e.source.id)
          "Meeting" (acquaintance.names.own e.target.id)⟩ ∧
        "Meeting" = acquaintance.names.own founder.id ∧ founder.hasSignature = false ∧
        isBuiltin "Meeting" = false := by
  have hid : acquaintance.ids.Nodup := by decide +kernel
  have hcolumns := acquaintance_columns
  obtain ⟨s, hs⟩ := exists_encoding_of_isOk (m := acquaintance) (by decide +kernel)
  rw [hs] at hcolumns
  obtain ⟨hfield, hnot⟩ := Bool.and_eq_true _ _ ▸ Option.some.inj hcolumns
  have hundeclared : "Meeting" ∈ (FieldShape.founded "Person" "Meeting" "Person").columns ∧
      ¬ s.IsColumn "Meeting" := ⟨by decide, of_decide_eq_true hnot⟩
  have hmem := of_decide_eq_true hfield
  exact ⟨hid, s, hs, _, hmem, hundeclared,
    (undeclared_column_iff hid hs hmem "Meeting").mp hundeclared⟩

/-- So there are columns that are declared nowhere, in models with distinct ids. -/
theorem not_forall_isColumn :
    ¬ ∀ (m : Model) (s : Sections), m.ids.Nodup → m.encoding = .ok s →
      ∀ f ∈ s.worldFields, f.shape.isExtension = false → ∀ w ∈ f.shape.columns, s.IsColumn w := by
  intro h
  have hcolumns := acquaintance_columns
  obtain ⟨s, hs⟩ := exists_encoding_of_isOk (m := acquaintance) (by decide +kernel)
  rw [hs] at hcolumns
  obtain ⟨hfield, hnot⟩ := Bool.and_eq_true _ _ ▸ Option.some.inj hcolumns
  have hcolumn := h acquaintance s (by decide +kernel) hs _ (of_decide_eq_true hfield) rfl
    "Meeting" (by decide)
  exact of_decide_eq_true hnot hcolumn

end Model

end OntoWorlds
