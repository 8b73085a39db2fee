import OntoWorlds.Proofs.Module.Fields

/-!
# OntoWorlds — the fields in generalizations

Facts about generalizations and generalization sets relate the fields of classes and relations. A
class is named in them if it has a field. A relation is named if it is represented, and a
derivation that leads to a field is represented without having a field of its own, so the fact
refers to a name that is not declared. Every other name is the one of a field of the element.

* `Fact.subsumed` — the names that a fact about generalizations relates.
* `mem_disjoint_lines`, `covered_mem_lines_iff` — the names in the lines of a generalization set.
* `Model.elementFields` — the fields that the steps of classes and relations emit.
* `exists_elementField_iff` — an element that can be named has a field unless it is a derivation.
* `subsumed_declared_iff` — so it is for every name in a fact.
-/

namespace OntoWorlds

open Alloy

/-! ## Fields of generalizations -/

namespace Alloy

/-- The fields that a line is about. -/
def SetLine.fields : SetLine → List String
  | disjoint a b => [a, b]
  | covered general specifics => general :: specifics

/-- The names that a fact about a generalization or a generalization set relates. -/
def Fact.subsumed : Fact → List String
  | generalization specific general => [specific, general]
  | generalizationSet lines => lines.flatMap SetLine.fields
  | rigid .. | antirigid .. | derivation .. | ordering .. | functionalOrdering .. => []
  | multiplicity .. => []

end Alloy

/-- Only relations are derivations. -/
def Classifier.isDerivation : Classifier → Bool
  | ofClass _ => false
  | ofRelation r => r.isDerivation

/-- Both elements of a pair are in the list. -/
theorem mem_of_mem_pairs {α : Type} {l : List α} {a b : α} (h : (a, b) ∈ pairs l) :
    a ∈ l ∧ b ∈ l := by
  induction l with
  | nil => cases h
  | cons c l ih =>
    rw [pairs, List.mem_append] at h
    -- the pair is made with the head, or of two later elements
    rcases h with h | h
    · obtain ⟨d, hd, heq⟩ := List.mem_map.mp h
      cases heq
      exact ⟨List.mem_cons_self, List.mem_cons_of_mem _ hd⟩
    · obtain ⟨ha, hb⟩ := ih h
      exact ⟨List.mem_cons_of_mem _ ha, List.mem_cons_of_mem _ hb⟩

namespace GeneralizationSet

variable {g : GeneralizationSet} {fields : List (Classifier × Classifier)} {n : Names}

/-- A line excludes from each other the specific fields of two members. -/
theorem mem_disjoint_lines {a b : String} (h : .disjoint a b ∈ g.lines fields n) :
    ∃ x ∈ fields.map Prod.snd, ∃ y ∈ fields.map Prod.snd,
      a = x.fieldName n ∧ b = y.fieldName n := by
  rcases List.mem_append.mp h with h | h
  · -- the line was made for a pair
    split at h
    · obtain ⟨⟨c, d⟩, hpair, heq⟩ := List.mem_map.mp h
      obtain ⟨rfl, rfl⟩ := SetLine.disjoint.inj heq
      obtain ⟨hc, hd⟩ := mem_of_mem_pairs hpair
      obtain ⟨f, hf, rfl⟩ := List.mem_map.mp hc
      obtain ⟨f', hf', rfl⟩ := List.mem_map.mp hd
      exact ⟨_, List.mem_map_of_mem hf, _, List.mem_map_of_mem hf', rfl, rfl⟩
    · cases h
  · -- a line that sums up excludes nothing
    split at h
    · cases List.mem_singleton.mp h
    · cases h

/-- A line sums up specific fields only in a complete set, that of all members. -/
theorem covered_mem_lines_iff {general : String} {specifics : List String} :
    .covered general specifics ∈ g.lines fields n ↔
      g.isComplete = true ∧ specifics = fields.map (fun f => f.2.fieldName n) ∧
        ∃ f rest, fields = f :: rest ∧ general = f.1.fieldName n := by
  constructor
  · intro h
    -- the lines for pairs do not sum up, so it is the line of a complete set
    rcases List.mem_append.mp h with h | h
    · split at h
      · obtain ⟨p, -, heq⟩ := List.mem_map.mp h
        cases heq
      · cases h
    · split at h
      · next general' specific rest hcomplete h =>
        obtain ⟨rfl, rfl⟩ := SetLine.covered.inj (List.mem_singleton.mp h)
        exact ⟨hcomplete, rfl, _, _, rfl, rfl⟩
      · cases h
  · rintro ⟨hcomplete, rfl, f, rest, rfl, rfl⟩
    refine List.mem_append_right _ ?_
    rw [hcomplete]
    exact List.mem_singleton.mpr rfl

/-- The lines of a set relate the fields of its members. -/
theorem exists_of_mem_lines {w : String} (h : w ∈ (g.lines fields n).flatMap SetLine.fields) :
    ∃ f ∈ fields, w = f.1.fieldName n ∨ w = f.2.fieldName n := by
  have hspecific : ∀ {x : Classifier}, x ∈ fields.map Prod.snd →
      ∃ f ∈ fields, x.fieldName n = f.1.fieldName n ∨ x.fieldName n = f.2.fieldName n := by
    intro x hx
    obtain ⟨f, hf, rfl⟩ := List.mem_map.mp hx
    exact ⟨f, hf, Or.inr rfl⟩
  obtain ⟨line, hline, hw⟩ := List.mem_flatMap.mp h
  cases line with
  | disjoint a b =>
    obtain ⟨x, hx, y, hy, rfl, rfl⟩ := mem_disjoint_lines hline
    -- both fields of the line are specific ones
    simp only [SetLine.fields, List.mem_cons, List.not_mem_nil, or_false] at hw
    rcases hw with rfl | rfl
    · exact hspecific hx
    · exact hspecific hy
  | covered general specifics =>
    obtain ⟨-, rfl, f, rest, rfl, rfl⟩ := covered_mem_lines_iff.mp hline
    rcases List.mem_cons.mp hw with rfl | hw
    · -- the general field is the one of the first member
      exact ⟨f, List.mem_cons_self, Or.inl rfl⟩
    · obtain ⟨f', hf', rfl⟩ := List.mem_map.mp hw
      exact ⟨f', hf', Or.inr rfl⟩

end GeneralizationSet

namespace Model

variable {m : Model}

/-- An element whose field can be named, and has been requested. -/
structure RequestsField (m : Model) (requests : List Request) (x : Classifier) : Prop where
  mem : m.Has x
  hasField : m.hasField x = true
  requested : x.fieldRequest ∈ requests

/-- What a generalization gives fields for has requested them. -/
theorem requestsField_of_subsumptionOf {g : Generalization} {requests : List Request}
    {general specific : Classifier}
    (h : m.subsumptionOf g = .ok ⟨requests, some (general, specific)⟩) :
    m.RequestsField requests general ∧ m.RequestsField requests specific := by
  obtain ⟨a, b, ha, hb, heq⟩ := subsumptionOf_ok h
  have hfields : (m.subsumption a b).fields = some (general, specific) := by rw [← heq]
  obtain ⟨rfl, rfl, hgeneral, hspecific, hrequests⟩ := of_subsumption_fields hfields
  rw [← heq] at hrequests
  rw [show requests = [general.fieldRequest, specific.fieldRequest] from hrequests]
  exact ⟨⟨has_of_find ha, hgeneral, by simp⟩, ⟨has_of_find hb, hspecific, by simp⟩⟩

/-- More requests do no harm. -/
theorem RequestsField.mono {requests requests' : List Request} {x : Classifier}
    (h : m.RequestsField requests x) (hsub : requests ⊆ requests') : m.RequestsField requests' x :=
  ⟨h.mem, h.hasField, hsub h.requested⟩

/-- The fields of all members of a set have been requested. -/
theorem Members.requestsField {ids : List ElementId} {requests : List Request}
    {members : List (Classifier × Classifier)} (h : m.Members ids requests members)
    {f : Classifier × Classifier} (hf : f ∈ members) :
    m.RequestsField requests f.1 ∧ m.RequestsField requests f.2 := by
  -- a member requests its own two fields, before those of the members that follow
  induction h with
  | nil => cases hf
  | @cons id ids g requests requests' fields members hg hfields hrest ih =>
    rcases List.mem_cons.mp hf with rfl | hf
    · have hsub : requests ⊆ requests ++ requests' := List.subset_append_left _ _
      obtain ⟨hgeneral, hspecific⟩ := requestsField_of_subsumptionOf hfields
      exact ⟨hgeneral.mono hsub, hspecific.mono hsub⟩
    · have hsub : requests' ⊆ requests ++ requests' := List.subset_append_right _ _
      obtain ⟨hgeneral, hspecific⟩ := ih hf
      exact ⟨hgeneral.mono hsub, hspecific.mono hsub⟩

/-- A fact only relates elements that can be named, after their fields have been requested. -/
theorem Emits.exists_requestsField {n : Names} {t : Task} {requests : List Request} {f : Fact}
    (h : m.Emits n t requests (.fact f)) {w : String} (hw : w ∈ f.subsumed) :
    ∃ x, m.RequestsField requests x ∧ w = x.fieldName n := by
  cases h with
  | generalization hg hfields =>
    obtain ⟨hgeneral, hspecific⟩ := requestsField_of_subsumptionOf hfields
    simp only [Fact.subsumed, List.mem_cons, List.not_mem_nil, or_false] at hw
    rcases hw with rfl | rfl
    · exact ⟨_, hspecific, rfl⟩
    · exact ⟨_, hgeneral, rfl⟩
  | generalizationSet hs hmembers hlines =>
    obtain ⟨fields, hfields, hname⟩ := GeneralizationSet.exists_of_mem_lines hw
    obtain ⟨hgeneral, hspecific⟩ := hmembers.requestsField hfields
    rcases hname with rfl | rfl
    · exact ⟨_, hgeneral, rfl⟩
    · exact ⟨_, hspecific, rfl⟩
  | _ => cases hw

/-! ## The fields of elements -/

/-- The world fields that the steps of classes and relations emit. -/
def elementFields (m : Model) : List WorldField :=
  (m.fragmentsOf m.names (m.classes.map .klass ++ m.relations.map .relation)).filterMap
    Fragment.worldField?

/-- The fields of elements are those of classes and of relations. -/
theorem mem_elementFields_iff {f : WorldField} :
    f ∈ m.elementFields ↔ (∃ c ∈ m.classes, .worldField f ∈ c.step.fragments m.names) ∨
      ∃ r ∈ m.relations, .worldField f ∈ (m.relationStep r).fragments m.names := by
  have hsection : f ∈ m.elementFields ↔
      .worldField f ∈ m.fragmentsOf m.names (m.classes.map .klass ++ m.relations.map .relation) :=
    mem_worldFields_iff
  rw [hsection, fragmentsOf, List.mem_flatMap]
  constructor
  · rintro ⟨t, ht, hf⟩
    rcases List.mem_append.mp ht with ht | ht
    · obtain ⟨c, hc, rfl⟩ := List.mem_map.mp ht
      exact Or.inl ⟨c, hc, hf⟩
    · obtain ⟨r, hr, rfl⟩ := List.mem_map.mp ht
      exact Or.inr ⟨r, hr, hf⟩
  · rintro (⟨c, hc, hf⟩ | ⟨r, hr, hf⟩)
    · exact ⟨.klass c, List.mem_append_left _ (List.mem_map_of_mem hc), hf⟩
    · exact ⟨.relation r, List.mem_append_right _ (List.mem_map_of_mem hr), hf⟩

/-- They are emitted in the run. -/
theorem mem_fragments_of_mem_elementFields {f : WorldField} (hf : f ∈ m.elementFields) :
    .worldField f ∈ m.fragments := by
  rw [mem_fragments_iff]
  rcases mem_elementFields_iff.mp hf with ⟨c, hc, hf⟩ | ⟨r, hr, hf⟩
  · exact ⟨.klass c, mem_tasks_of_mem_classes hc, hf⟩
  · exact ⟨.relation r, mem_tasks_of_mem_relations hr, hf⟩

section

variable {s : Sections} (hid : m.ids.Nodup) (h : m.encoding = .ok s)
include hid h

/-- An element that can be named has a field of its own unless it is a derivation. -/
theorem exists_elementField {x : Classifier} (hx : m.Has x) (hfield : m.hasField x = true)
    (hderivation : x.isDerivation = false) :
    ∃ f ∈ m.elementFields, f.name = x.fieldName m.names := by
  cases x with
  | ofClass c =>
    obtain ⟨base, hbase⟩ := Option.isSome_iff_exists.mp hfield
    refine ⟨⟨m.names.own c.id, .extension base⟩, ?_, rfl⟩
    refine mem_elementFields_iff.mpr (Or.inl ⟨c, hx, ?_⟩)
    rw [Class.step_of_base? hbase]
    exact List.mem_cons_self
  | ofRelation r =>
    -- represented and no derivation: this is what makes a relation a field
    obtain ⟨e, he⟩ := exists_endsOf hid h hx
    have hr : m.FieldRelation r e :=
      ⟨hx, isFieldRelation_of_isRepresented hfield hderivation, he⟩
    obtain ⟨shape, hshape⟩ := exists_field_fieldStep (hr.failure_fieldStep hid h) m.names
    refine ⟨⟨r.fieldName m.names, shape⟩, ?_, rfl⟩
    refine mem_elementFields_iff.mpr (Or.inr ⟨r, hx, ?_⟩)
    rw [hr.relationStep_eq]
    exact hshape

/-- An element whose field has been requested has one among the world fields, unless it is a
derivation. -/
theorem exists_elementField_iff {x : Classifier} (hx : m.RequestsField m.requests x) :
    (∃ f ∈ s.worldFields, f ∈ m.elementFields ∧ f.name = x.fieldName m.names) ↔
      x.isDerivation = false := by
  constructor
  · rintro ⟨f, hf, -, hname⟩
    rw [x.fieldName_eq] at hname
    -- the name has been requested for the element, so the field is its own
    have hdeclares := declaresField_of_name hid h hf hx.requested hname
    cases x with
    | ofClass c => rfl
    | ofRelation r =>
      obtain ⟨e, hr, -⟩ := hdeclares.of_relation hid hx.mem r.id_fieldRequest_key
      exact hr.isField.notDerivation
  · intro hderivation
    obtain ⟨f, hf, hname⟩ := exists_elementField hid h hx.mem hx.hasField hderivation
    have hmem : f ∈ s.worldFields := by
      rw [(encoding_ok hid h).1]
      exact mem_worldFields_iff.mpr (mem_fragments_of_mem_elementFields hf)
    exact ⟨f, hmem, hf, hname⟩

end

/-- **Generalizations.** In the module of a model with distinct ids, a name in a fact about a
generalization or a generalization set is the one of a class or relation that counts as having a
field. It is the name of a field that a class or a relation declares, unless it is a derivation. -/
theorem subsumed_declared_iff {s : Sections} (hid : m.ids.Nodup) (h : m.encoding = .ok s) {f : Fact}
    (hf : f ∈ s.facts) {w : String} (hw : w ∈ f.subsumed) :
    ∃ x, m.Has x ∧ m.hasField x = true ∧ w = x.fieldName m.names ∧
      ((∃ field ∈ s.worldFields, field ∈ m.elementFields ∧ field.name = w) ↔
        x.isDerivation = false) := by
  obtain ⟨rfl, hok⟩ := encoding_ok hid h
  obtain ⟨t, -, requests, hrequests, hemits⟩ :=
    exists_emits_of_mem_fragments hok (mem_facts_iff.mp hf)
  obtain ⟨x, hx, rfl⟩ := hemits.exists_requestsField hw
  -- the element that the name was requested for decides whether there is a field
  exact ⟨x, hx.mem, hx.hasField, rfl, exists_elementField_iff hid h (hx.mono hrequests)⟩

/-- Persons borrow and lend by loans. The one derivation is said to be a special case of the
other. -/
def credit : Model where
  classes := [
    { id := ⟨"person"⟩, name := some "Person", stereotype := some .kind },
    { id := ⟨"loan"⟩, name := some "Loan", stereotype := some .relator }]
  relations := [
    { id := ⟨"borrows"⟩, name := some "borrows", stereotype := some .material
      ends := [
        { id := ⟨"borrows source"⟩, type := some ⟨"person"⟩ },
        { id := ⟨"borrows target"⟩, type := some ⟨"person"⟩ }] },
    { id := ⟨"lends"⟩, name := some "lends", stereotype := some .material
      ends := [
        { id := ⟨"lends source"⟩, type := some ⟨"person"⟩ },
        { id := ⟨"lends target"⟩, type := some ⟨"person"⟩ }] },
    { id := ⟨"founds"⟩, name := some "founds", stereotype := some .derivation
      ends := [
        { id := ⟨"founds source"⟩, type := some ⟨"borrows"⟩ },
        { id := ⟨"founds target"⟩, type := some ⟨"loan"⟩ }] },
    { id := ⟨"grounds"⟩, name := some "grounds", stereotype := some .derivation
      ends := [
        { id := ⟨"grounds source"⟩, type := some ⟨"lends"⟩ },
        { id := ⟨"grounds target"⟩, type := some ⟨"loan"⟩ }] }]
  generalizations := [⟨⟨"refines"⟩, none, ⟨"founds"⟩, ⟨"grounds"⟩⟩]

/-- The evaluation of the model: the fact is there, and the field of its general side is not. -/
theorem credit_facts : credit.encoding.toOption.map (fun s =>
    decide (.generalization "grounds" "founds" ∈ s.facts) &&
      decide ("founds" ∉ s.worldFields.map (·.name))) = some true := by
  decide +kernel

/-- The fact about the two derivations names one of them. -/
theorem credit_subsumed_declared_iff :
    credit.ids.Nodup ∧ ∃ s, credit.encoding = .ok s ∧
      ∃ f ∈ s.facts, "founds" ∈ f.subsumed ∧
        ∃ x, credit.Has x ∧ credit.hasField x = true ∧ "founds" = x.fieldName credit.names ∧
          ((∃ field ∈ s.worldFields, field ∈ credit.elementFields ∧ field.name = "founds") ↔
            x.isDerivation = false) := by
  have hid : credit.ids.Nodup := by decide +kernel
  have hfacts := credit_facts
  obtain ⟨s, hs⟩ := exists_encoding_of_isOk (m := credit) (by decide +kernel)
  rw [hs] at hfacts
  obtain ⟨hfact, -⟩ := Bool.and_eq_true _ _ ▸ Option.some.inj hfacts
  have hmem := of_decide_eq_true hfact
  have hw : "founds" ∈ (Fact.generalization "grounds" "founds").subsumed := by decide
  exact ⟨hid, s, hs, _, hmem, hw, subsumed_declared_iff hid hs hmem hw⟩

/-- So there are generalizations of fields that are declared nowhere. -/
theorem not_forall_subsumed_declared :
    ¬ ∀ (m : Model) (s : Sections), m.ids.Nodup → m.encoding = .ok s →
      ∀ f ∈ s.facts, ∀ w ∈ f.subsumed, ∃ field ∈ s.worldFields, field ∈ m.elementFields ∧
        field.name = w := by
  intro h
  have hfacts := credit_facts
  obtain ⟨s, hs⟩ := exists_encoding_of_isOk (m := credit) (by decide +kernel)
  rw [hs] at hfacts
  obtain ⟨hfact, hundeclared⟩ := Bool.and_eq_true _ _ ▸ Option.some.inj hfacts
  obtain ⟨field, hfield, -, hname⟩ := h credit s (by decide +kernel) hs _ (of_decide_eq_true hfact)
    "founds" (by decide)
  exact of_decide_eq_true hundeclared (List.mem_map.mpr ⟨field, hfield, hname⟩)

end Model

end OntoWorlds
