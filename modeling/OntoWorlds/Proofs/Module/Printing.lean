import OntoWorlds.Proofs.Module.Fields
import OntoWorlds.Proofs.Module.Text

/-!
# OntoWorlds — inline fields in print

Inline fields are gathered by the name of their datatype, by two kinds of tasks that come after the
classes. Whether the datatype is printed has been decided by then, when its class was encoded: all
are but a built-in one, which is referred to and not declared. So a field of any other datatype is
printed once, in the block of its datatype, and a count of its values finds it there.

* `perm_ownFields_foldl` — gathering keeps every inline field, under the name of its datatype.
* `Model.DeclaresInline` — the inline fields of elements.
* `Sections.printedFields` — the inline fields in the text, by datatype.
* `inlineFields_printed` — every inline field is printed once unless its datatype is built in.
-/

namespace OntoWorlds

open Identifier (isBuiltin declaredWords)

namespace Alloy

/-! ## Gathered fields -/

/-- The inline fields of the datatype, with its name. -/
def Datatype.ownFields (d : Datatype) : List (String × InlineField) := d.fields.map (d.name, ·)

/-- The inline field that a fragment adds, with its datatype. -/
def Fragment.inlineField? : Fragment → Option (String × InlineField)
  | .inlineField d f => some (d, f)
  | .worldField _ | .covering _ | .fact _ | .immutability _ | .accessor _ | .selector _ => none
  | .enumeration _ | .datatype .. => none

variable {ds : List Datatype} {w : String}

/-- A mention adds no field. -/
theorem ownFields_mention (w : String) (isDeclared : Bool) (ds : List Datatype) :
    (mention w isDeclared ds).flatMap Datatype.ownFields = ds.flatMap Datatype.ownFields := by
  unfold mention
  split
  · rfl
  · rw [List.flatMap_append, List.flatMap_singleton]
    exact List.append_nil _

/-- A field added to a datatype that is there is one field more. -/
theorem perm_ownFields_addField {b : Bool} (h : (w, b) ∈ headers ds) (f : InlineField) :
    ((addField w f ds).flatMap Datatype.ownFields).Perm
      (ds.flatMap Datatype.ownFields ++ [(w, f)]) := by
  fun_induction addField w f ds with
  -- without a header of the name the field has nowhere to go
  | case1 => cases h
  | case2 d ds hname =>
    obtain rfl : d.name = w := eq_of_beq hname
    have hown : Datatype.ownFields { d with fields := d.fields ++ [f] }
        = d.ownFields ++ [(d.name, f)] := List.map_append
    rw [List.flatMap_cons, List.flatMap_cons, hown, List.append_assoc, List.append_assoc]
    exact List.perm_append_comm.append_left _
  | case3 d ds hname ih =>
    -- the header is among the others, since the first one has another name
    have hrest : (w, b) ∈ headers ds := by
      rcases List.mem_cons.mp h with heq | h
      · exact absurd (beq_iff_eq.mpr (Prod.mk.inj heq).1.symm) hname
      · exact h
    rw [List.flatMap_cons, List.flatMap_cons, List.append_assoc]
    exact (ih hrest).append_left _

/-- A fragment adds its inline field, if it has one. -/
theorem perm_ownFields_gather (ds : List Datatype) (f : Fragment) :
    ((gather ds f).flatMap Datatype.ownFields).Perm
      (ds.flatMap Datatype.ownFields ++ f.inlineField?.toList) := by
  cases f with
  | datatype name isDeclared =>
    rw [gather, ownFields_mention]
    exact (List.append_nil _).symm ▸ List.Perm.refl _
  | inlineField name f =>
    -- the datatype is there, if only by this mention
    obtain ⟨b, hb⟩ := exists_mem_headers_mention name true ds
    have hadd := perm_ownFields_addField hb f
    rwa [ownFields_mention] at hadd
  | _ => exact (List.append_nil _).symm ▸ List.Perm.refl _

/-- Gathering keeps every inline field. -/
theorem perm_ownFields_foldl (ds : List Datatype) (fs : List Fragment) :
    ((fs.foldl gather ds).flatMap Datatype.ownFields).Perm
      (ds.flatMap Datatype.ownFields ++ fs.filterMap Fragment.inlineField?) := by
  induction fs generalizing ds with
  | nil =>
    rw [List.foldl_nil, List.filterMap_nil, List.append_nil]
  | cons f fs ih =>
    have hcons : (f :: fs).filterMap Fragment.inlineField?
        = f.inlineField?.toList ++ fs.filterMap Fragment.inlineField? := by
      rw [List.filterMap_cons]
      cases f.inlineField? <;> rfl
    rw [List.foldl_cons, hcons, ← List.append_assoc]
    exact (ih _).trans ((perm_ownFields_gather ds f).append_right _)

/-- Gathered datatypes have distinct names. -/
theorem nodup_names_foldl (hds : (ds.map (·.name)).Nodup) (fs : List Fragment) :
    ((fs.foldl gather ds).map (·.name)).Nodup := by
  have hmention : ∀ {ds : List Datatype} (w : String) (b : Bool), (ds.map (·.name)).Nodup →
      ((mention w b ds).map (·.name)).Nodup := by
    intro ds w b hds
    unfold mention
    split
    · exact hds
    · next hnew =>
      rw [List.map_append, List.map_singleton]
      refine List.nodup_append'.mpr ⟨hds, List.nodup_singleton _, ?_⟩
      intro v hv hw
      obtain rfl := List.mem_singleton.mp hw
      obtain ⟨d, hd, rfl⟩ := List.mem_map.mp hv
      exact hnew (List.any_eq_true.mpr ⟨d, hd, beq_self_eq_true _⟩)
  -- a name is only added where it is new
  induction fs generalizing ds with
  | nil => exact hds
  | cons f fs ih =>
    refine ih ?_
    cases f with
    | datatype name b => exact hmention name b hds
    | inlineField name g =>
      rw [gather, names_addField]
      exact hmention name true hds
    | _ => exact hds

/-- Only the fragment of an inline field has one. -/
theorem inlineField?_eq_some_iff {f : Fragment} {p : String × InlineField} :
    f.inlineField? = some p ↔ f = .inlineField p.1 p.2 := by
  cases f <;> simp [Fragment.inlineField?, Prod.ext_iff]

/-- The names of inline fields are among the identifiers that the fragments declare. -/
theorem names_inlineFields_sublist (fs : List Fragment) :
    ((fs.filterMap Fragment.inlineField?).map (·.2.name)).Sublist
      (fs.flatMap Fragment.identifiers) := by
  induction fs with
  | nil => exact List.Sublist.slnil
  | cons f fs ih =>
    rw [List.flatMap_cons]
    cases f with
    | inlineField d f => exact ih.cons_cons f.name
    | _ => exact ih.trans (List.sublist_append_right _ _)

/-! ## Printed fields -/

namespace Sections

/-- The inline fields in the blocks of the declared datatypes, with the names of these. -/
def printedFields (s : Sections) : List (String × InlineField) :=
  s.declaredDatatypes.flatMap Datatype.ownFields

variable {s : Sections}

/-- The datatypes of a module declare themselves and the fields printed in them. -/
theorem mem_datatypes_identifiers_iff {w : String} :
    w ∈ s.datatypes.flatMap Datatype.identifiers ↔
      (∃ d ∈ s.declaredDatatypes, d.name = w) ∨ ∃ p ∈ s.printedFields, p.2.name = w := by
  constructor
  · intro h
    -- a datatype that is not declared has no identifiers, so this one is, and it is the name or a
    -- field
    obtain ⟨d, hd, hmem⟩ := List.mem_flatMap.mp h
    rw [Datatype.identifiers] at hmem
    split at hmem
    · next hdeclared =>
      have hd' : d ∈ s.declaredDatatypes := List.mem_filter.mpr ⟨hd, hdeclared⟩
      rcases List.mem_cons.mp hmem with rfl | hmem
      · exact Or.inl ⟨d, hd', rfl⟩
      · obtain ⟨f, hf, rfl⟩ := List.mem_map.mp hmem
        exact Or.inr ⟨(d.name, f), List.mem_flatMap.mpr ⟨d, hd', List.mem_map_of_mem hf⟩, rfl⟩
    · cases hmem
  · intro h
    -- either way it is an identifier of a declared datatype
    obtain ⟨d, hd, hmem⟩ : ∃ d ∈ s.declaredDatatypes, w ∈ d.name :: d.fields.map (·.name) := by
      rcases h with ⟨d, hd, rfl⟩ | ⟨p, hp, rfl⟩
      · exact ⟨d, hd, List.mem_cons_self⟩
      · obtain ⟨d, hd, hown⟩ := List.mem_flatMap.mp hp
        obtain ⟨f, hf, rfl⟩ := List.mem_map.mp hown
        exact ⟨d, hd, List.mem_cons_of_mem _ (List.mem_map_of_mem hf)⟩
    obtain ⟨hd, hdeclared⟩ := List.mem_filter.mp hd
    refine List.mem_flatMap.mpr ⟨d, hd, ?_⟩
    rwa [Datatype.identifiers, if_pos hdeclared]

/-- If the built-in datatypes are those not declared, their fields are those not printed. -/
theorem printedFields_eq (h : ∀ d ∈ s.datatypes, d.isDeclared = !isBuiltin d.name) :
    s.printedFields
      = (s.datatypes.flatMap Datatype.ownFields).filter fun p => !isBuiltin p.1 := by
  have hown : ∀ d ∈ s.datatypes, (d.ownFields.filter fun p => !isBuiltin p.1)
      = if d.isDeclared then d.ownFields else [] := by
    intro d hd
    rw [Datatype.ownFields, List.filter_map, h d hd]
    -- all fields of a datatype go the same way, by its name
    cases hbuiltin : isBuiltin d.name with
    | true => simp [Function.comp_def, hbuiltin]
    | false => simp [Function.comp_def, hbuiltin]
  rw [List.filter_flatMap, List.flatMap_congr hown, printedFields, declaredDatatypes]
  induction s.datatypes with
  | nil => rfl
  | cons d ds ih =>
    rw [List.filter_cons, List.flatMap_cons]
    split
    · rw [List.flatMap_cons, ih]
    · exact ih

end Sections

end Alloy

open Alloy

/-! ## Inline fields of elements -/

/-- The inline field of an element: the key of its name, the datatype it belongs to and the field
under given names. -/
inductive Model.DeclaresInline (m : Model) (n : Names) : Key → Class → InlineField → Prop
  | ofRelation {r : Relation} {e : Ends} {c : Class} (hr : r ∈ m.relations)
      (hdatatypes : m.holdsBetweenDatatypes r = true) (he : m.endsOf r = .ok e)
      (hsource : e.source = .ofClass c) :
      DeclaresInline m n r.fieldRequest.key c ⟨r.fieldName n, none, n.own e.target.id⟩
  | ofAttribute {c : Class} {p : Property} {v : ValueSignature} {k : Multiplicity}
      (hp : (.ofClass c, p) ∈ m.properties) (hdatatype : c.isDatatype = true)
      (hv : m.valueSignature p = .ok v) (hk : p.multiplicity = .ok k) :
      DeclaresInline m n (.own p.id) c ⟨n.own p.id, some k.quantifier, v.name n⟩

namespace Model

variable {m : Model}

/-- An inline field is called by its key. -/
theorem DeclaresInline.name_eq {n : Names} {k : Key} {c : Class} {f : InlineField}
    (h : m.DeclaresInline n k c f) : f.name = n.of k := by
  cases h with
  | @ofRelation r => exact r.fieldName_eq n
  | ofAttribute => rfl

/-- What an element declares inline is emitted by the step of the element. -/
theorem DeclaresInline.mem_fragments {k : Key} {c : Class} {f : InlineField}
    (h : m.DeclaresInline m.names k c f) : .inlineField (m.names.own c.id) f ∈ m.fragments := by
  rw [mem_fragments_iff]
  cases h with
  | @ofRelation r e c hr hdatatypes he hsource =>
    refine ⟨.relation r, mem_tasks_of_mem_relations hr, ?_⟩
    rw [stepOf, relationStep, he, Step.given_ok, if_pos hdatatypes]
    exact List.mem_singleton.mpr (by rw [hsource]; rfl)
  | @ofAttribute c p v k hp hdatatype hv hk =>
    refine ⟨.property (.ofClass c) p, mem_tasks_of_mem_properties hp, ?_⟩
    have hrole : m.roleOf (.ofClass c) p = .datatypeAttribute c := if_pos hdatatype
    rw [stepOf, propertyStep, hrole]
    show _ ∈ (m.datatypeAttributeStep c p).fragments m.names
    rw [datatypeAttributeStep, hv, hk]
    exact List.mem_cons_self

section

variable (hok : ∀ t ∈ m.tasks, (m.stepOf t).failure = none)
include hok

/-- Only elements have inline fields, in the datatypes that they belong to. -/
theorem exists_declaresInline {w : String} {f : InlineField} (h : .inlineField w f ∈ m.fragments) :
    ∃ k c, m.DeclaresInline m.names k c f ∧ w = m.names.own c.id := by
  obtain ⟨t, ht, requests, -, hemits⟩ := exists_emits_of_mem_fragments hok h
  cases hemits with
  | @inlineRelation r e hr he hdatatypes =>
    obtain ⟨c, -, hsource, -⟩ := source_of_holdsBetweenDatatypes he hdatatypes
    exact ⟨_, c, .ofRelation hr hdatatypes he hsource, by rw [hsource]; rfl⟩
  | @inlineAttribute c p v k hc hdatatype hv hk =>
    exact ⟨_, c, .ofAttribute (isOf_of_mem_tasks ht) hdatatype hv hk, rfl⟩

/-- A relation between datatypes has an inline field. -/
theorem exists_inlineField_of_relation {r : Relation} (hr : r ∈ m.relations)
    (hdatatypes : m.holdsBetweenDatatypes r = true) :
    ∃ c f, m.sourceOf r = some (.ofClass c) ∧
      m.DeclaresInline m.names r.fieldRequest.key c f := by
  have hfailure := hok _ (mem_tasks_of_mem_relations hr)
  -- had the look-up failed, so would have the step
  rw [stepOf, relationStep] at hfailure
  cases he : m.endsOf r with
  | error d =>
    rw [he] at hfailure
    cases hfailure
  | ok e =>
    obtain ⟨c, -, hsource, -⟩ := source_of_holdsBetweenDatatypes he hdatatypes
    exact ⟨c, _, by rw [sourceOf_of_endsOf he, hsource], .ofRelation hr hdatatypes he hsource⟩

/-- An attribute of a datatype has an inline field. -/
theorem exists_inlineField_of_attribute {c : Class} {p : Property}
    (hp : (.ofClass c, p) ∈ m.properties) (hdatatype : c.isDatatype = true) :
    ∃ f, m.DeclaresInline m.names (.own p.id) c f := by
  have hrole : m.roleOf (.ofClass c) p = .datatypeAttribute c := if_pos hdatatype
  have hturn := turn_propertyStep (hok _ (mem_tasks_of_mem_properties hp))
  generalize m.propertyStep (.ofClass c) p = step at hturn
  -- the owner is a datatype, so its attribute has no other role
  cases hturn with
  | @datatypeAttribute d v k hrole' hv hk => exact ⟨_, .ofAttribute hp hdatatype hv hk⟩
  | skipped hrole' => rw [hrole] at hrole'; cases hrole'
  | orderedAttribute hrole' => rw [hrole] at hrole'; cases hrole'
  | plainAttribute hrole' => rw [hrole] at hrole'; cases hrole'
  | relationEnd hrole' => rw [hrole] at hrole'; cases hrole'

/-- A count of the values of an inline field is about the field of an attribute. -/
theorem exists_declaresInline_of_counted {w field : String} {b : Bounds}
    (h : .fact (.multiplicity (.inline w field) b) ∈ m.fragments) :
    ∃ k c f, m.DeclaresInline m.names k c f ∧ w = m.names.own c.id ∧ field = f.name := by
  obtain ⟨t, ht, requests, -, hemits⟩ := exists_emits_of_mem_fragments hok h
  generalize hcounted : Counted.inline w field = counted at hemits
  cases hemits with
  | @inlineCount c p v k b hc hdatatype hv hk hb =>
    cases hcounted
    exact ⟨_, c, _, .ofAttribute (isOf_of_mem_tasks ht) hdatatype hv hk, rfl, rfl⟩
  | _ => cases hcounted

/-! ## Inline fields of a run -/

/-- In a run, the declared datatypes are those that are not built in. -/
theorem isDeclared_eq_of_mem_datatypes {d : Datatype}
    (hd : d ∈ (Sections.ofFragments m.fragments).datatypes) :
    d.isDeclared = !isBuiltin d.name := by
  have hheader : (d.name, d.isDeclared) ∈ headers (m.fragments.foldl gather []) :=
    List.mem_map_of_mem hd
  rcases mem_headers_foldl (fieldsFollow_fragments hok) hheader with hnone | hdatatype
  · cases hnone
  · exact isDeclared_eq hok hdatatype

/-- What is printed are the inline fields emitted for datatypes that are not built in. -/
theorem perm_printedFields :
    (Sections.ofFragments m.fragments).printedFields.Perm
      ((m.fragments.filterMap Fragment.inlineField?).filter fun p => !isBuiltin p.1) := by
  rw [Sections.printedFields_eq fun d hd => isDeclared_eq_of_mem_datatypes hok hd]
  exact (perm_ownFields_foldl [] m.fragments).filter _

/-- Printed are the inline fields of elements, in datatypes that are not built in. -/
theorem mem_printedFields_iff {w : String} {f : InlineField} :
    (w, f) ∈ (Sections.ofFragments m.fragments).printedFields ↔
      isBuiltin w = false ∧ ∃ k c, m.DeclaresInline m.names k c f ∧ w = m.names.own c.id := by
  rw [(perm_printedFields hok).mem_iff, List.mem_filter, List.mem_filterMap, Bool.not_eq_true',
    and_comm]
  simp only [inlineField?_eq_some_iff, exists_eq_right]
  constructor
  · rintro ⟨hbuiltin, hf⟩
    exact ⟨hbuiltin, exists_declaresInline hok hf⟩
  · rintro ⟨hbuiltin, k, c, hdeclares, rfl⟩
    exact ⟨hbuiltin, hdeclares.mem_fragments⟩

/-- The printed fields have distinct names, as the identifiers of a run have. -/
theorem nodup_names_printedFields (hid : m.ids.Nodup) :
    ((Sections.ofFragments m.fragments).printedFields.map (·.2.name)).Nodup := by
  have hemitted : ((m.fragments.filterMap Fragment.inlineField?).map (·.2.name)).Nodup :=
    (List.nodup_append.mp (nodup_declared hid hok)).2.1.sublist (names_inlineFields_sublist _)
  rw [((perm_printedFields hok).map _).nodup_iff]
  exact hemitted.sublist (List.filter_sublist.map _)

end

/-- **Inline fields.** In the module of a model with distinct ids, the datatypes are printed in one
piece, signature by signature, under distinct names. The inline fields in them are those of the
relations between two datatypes and of the attributes of datatypes, a built-in datatype apart; each
is printed once, in the signature that it belongs to, and no other inline field has its name. A fact
that counts the values of an inline field finds the field there. -/
theorem inlineFields_printed {s : Sections} (hid : m.ids.Nodup) (h : m.encoding = .ok s)
    (o : RunScope) :
    s.text o = s.textBefore ++ terminated (spaced (s.declaredDatatypes.map Datatype.text))
        ++ s.textAfter o ∧
      (s.declaredDatatypes.map (·.name)).Nodup ∧
      (∀ r ∈ m.relations, m.holdsBetweenDatatypes r = true → ∃ c f,
        m.sourceOf r = some (.ofClass c) ∧ m.DeclaresInline m.names r.fieldRequest.key c f) ∧
      (∀ c p, (.ofClass c, p) ∈ m.properties → c.isDatatype = true → ∃ f,
        m.DeclaresInline m.names (.own p.id) c f) ∧
      (∀ k c f, m.DeclaresInline m.names k c f → isBuiltin (m.names.own c.id) = false →
        s.printedFields.count (m.names.own c.id, f) = 1 ∧
          (s.printedFields.map (·.2.name)).count (m.names.of k) = 1) ∧
      (∀ w f, (w, f) ∈ s.printedFields → ∃ k c,
        m.DeclaresInline m.names k c f ∧ w = m.names.own c.id) ∧
      ∀ w field b, .multiplicity (.inline w field) b ∈ s.facts → isBuiltin w = false →
        ∃ f, (w, f) ∈ s.printedFields ∧ f.name = field := by
  obtain ⟨rfl, hok⟩ := encoding_ok hid h
  have hnodup := nodup_names_printedFields hok hid
  refine ⟨Sections.text_eq_blocks _ o, ?_, fun r hr => exists_inlineField_of_relation hok hr,
    fun c p hp => exists_inlineField_of_attribute hok hp, ?_, ?_, ?_⟩
  · -- gathered under distinct names, the datatypes keep them
    have hnames := nodup_names_foldl
      (show (([] : List Datatype).map (·.name)).Nodup from List.nodup_nil) m.fragments
    exact hnames.sublist (List.filter_sublist.map _)
  · -- a field is there, and its name is there once, so each is counted once
    intro k c f hdeclares hbuiltin
    have hmem := (mem_printedFields_iff hok).mpr ⟨hbuiltin, k, c, hdeclares, rfl⟩
    refine ⟨List.count_eq_one_of_mem hnodup.of_map hmem, ?_⟩
    rw [← hdeclares.name_eq]
    exact List.count_eq_one_of_mem hnodup (List.mem_map.mpr ⟨_, hmem, rfl⟩)
  · exact fun w f hmem => ((mem_printedFields_iff hok).mp hmem).2
  · -- what is counted is an inline field, so it is found in its datatype
    intro w field b hfact hbuiltin
    obtain ⟨k, c, f, hdeclares, rfl, rfl⟩ :=
      exists_declaresInline_of_counted hok (mem_facts_iff.mp hfact)
    exact ⟨f, (mem_printedFields_iff hok).mpr ⟨hbuiltin, k, c, hdeclares, rfl⟩, rfl⟩

/-- Distances have values in a unit, and the texts of units have lengths. -/
def measured : Model where
  classes := [
    { id := ⟨"text"⟩, name := some "String", stereotype := some .datatype
      attributes := [
        { id := ⟨"length"⟩, name := some "length", type := some ⟨"number"⟩
          cardinality := "2..5" }] },
    { id := ⟨"number"⟩, name := some "Number", stereotype := some .datatype },
    { id := ⟨"distance"⟩, name := some "Distance", stereotype := some .datatype
      attributes := [
        { id := ⟨"value"⟩, name := some "value", type := some ⟨"number"⟩
          cardinality := "1..3" }] }]
  relations := [
    { id := ⟨"unit"⟩, name := some "unit"
      ends := [
        { id := ⟨"unit source"⟩, type := some ⟨"distance"⟩ },
        { id := ⟨"unit target"⟩, type := some ⟨"text"⟩ }] }]

/-- Of the two datatypes with fields, the one of texts is built in. -/
theorem measured_builtin : isBuiltin (measured.names.own ⟨"text"⟩) = true ∧
    isBuiltin (measured.names.own ⟨"distance"⟩) = false := by
  decide +kernel

/-- The values of distances are printed once. -/
theorem measured_inlineFields_printed : measured.ids.Nodup ∧ ∃ s, measured.encoding = .ok s ∧
    ∃ c f, c.id = ⟨"distance"⟩ ∧ measured.DeclaresInline measured.names (.own ⟨"value"⟩) c f ∧
      isBuiltin (measured.names.own c.id) = false ∧
      s.printedFields.count (measured.names.own c.id, f) = 1 ∧
      (s.printedFields.map (·.2.name)).count (measured.names.own ⟨"value"⟩) = 1 := by
  have hid : measured.ids.Nodup := by decide +kernel
  obtain ⟨s, hs⟩ := exists_encoding_of_isOk (m := measured) (by decide +kernel)
  obtain ⟨-, -, -, hattribute, hprinted, -, -⟩ := inlineFields_printed hid hs {}
  obtain ⟨f, hf⟩ := hattribute _ _ (List.mem_cons_of_mem _ List.mem_cons_self) rfl
  exact ⟨hid, s, hs, _, f, rfl, hf, measured_builtin.2, hprinted _ _ f hf measured_builtin.2⟩

/-- The lengths of texts are not: so there are inline fields that are printed nowhere. -/
theorem not_forall_inlineFields_printed :
    ¬ ∀ (m : Model) (s : Sections), m.ids.Nodup → m.encoding = .ok s → ∀ k c f,
      m.DeclaresInline m.names k c f → (m.names.own c.id, f) ∈ s.printedFields := by
  intro h
  have hid : measured.ids.Nodup := by decide +kernel
  obtain ⟨s, hs⟩ := exists_encoding_of_isOk (m := measured) (by decide +kernel)
  obtain ⟨hsections, hok⟩ := encoding_ok hid hs
  obtain ⟨f, hf⟩ := exists_inlineField_of_attribute hok (List.mem_cons_self) rfl
  have hmem := h measured s hid hs _ _ f hf
  rw [hsections, mem_printedFields_iff hok] at hmem
  rw [measured_builtin.1] at hmem
  cases hmem.1

end Model

end OntoWorlds
