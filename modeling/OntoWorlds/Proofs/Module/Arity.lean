import OntoWorlds.Proofs.Module.Columns
import OntoWorlds.Proofs.Module.Subsumption

/-!
# OntoWorlds — the arity of compared fields

Facts about generalizations put fields on the sides of an inclusion, an intersection, a union or an
equation, which only make sense between fields of the same arity. The field of a relation has a
third column in the middle if the relation is derived from a relator or has an ordered end. The
accessors of the relation project that column away, but the facts about generalizations name the
field itself. So they compare fields of different arity whenever one of the two relations has a
middle column and the other has none.

* `Fact.Compares` — the fields that a fact compares with each other.
* `DeclaresField.length_columns` — the arity of the field of a relation.
* `arity_eq_iff` — compared fields of relations have the same arity exactly if both have a middle
  column or neither has.
-/

namespace OntoWorlds

open Alloy

/-! ## Comparisons -/

namespace Alloy

/-- The groups of names that a fact about a generalization or a generalization set puts on the sides
of one operator. -/
def Fact.operands : Fact → List (List String)
  | generalization specific general => [[specific, general]]
  | generalizationSet lines => lines.map SetLine.fields
  | rigid .. | antirigid .. | derivation .. | ordering .. | functionalOrdering .. => []
  | multiplicity .. => []

/-- The fact compares the fields of the two names. -/
def Fact.Compares (f : Fact) (a b : String) : Prop := ∃ l ∈ f.operands, a ∈ l ∧ b ∈ l

instance (f : Fact) (a b : String) : Decidable (f.Compares a b) :=
  inferInstanceAs (Decidable (∃ l ∈ f.operands, a ∈ l ∧ b ∈ l))

/-- All operands together are the names that the fact subsumes. -/
theorem Fact.flatten_operands (f : Fact) : f.operands.flatten = f.subsumed := by
  cases f with
  | generalizationSet lines => rw [operands, subsumed, List.flatMap_def]
  | _ => rfl

variable {f : Fact} {a b : String}

/-- Compared names are among those that the fact subsumes. -/
theorem Fact.Compares.mem_subsumed (h : f.Compares a b) : a ∈ f.subsumed ∧ b ∈ f.subsumed := by
  obtain ⟨l, hl, ha, hb⟩ := h
  rw [← f.flatten_operands]
  exact ⟨List.mem_flatten_of_mem hl ha, List.mem_flatten_of_mem hl hb⟩

end Alloy

/-! ## Middle columns -/

/-- The field of the relation has a column between those of its ends. The accessors ask the same,
and project the column away. -/
def Model.hasMiddleColumn (m : Model) (r : Relation) : Bool :=
  m.isDerivedMaterial r || r.hasOrderedEnd

namespace Model

variable {m : Model}

/-- The field of a relation has three columns or two. -/
theorem DeclaresField.length_columns (hid : m.ids.Nodup) {n : Names} {k : Key} {shape : FieldShape}
    (h : m.DeclaresField n k shape) {r : Relation} (hr : r ∈ m.relations) (hk : k.id = r.id) :
    shape.columns.length = if m.hasMiddleColumn r then 3 else 2 := by
  -- the three shapes of a field: founded, indexed and binary
  obtain ⟨e, -, hshape⟩ := h.of_relation hid hr hk
  rw [hasMiddleColumn, isDerivedMaterial_eq]
  rcases hshape with ⟨founder, hfounder, rfl⟩ | ⟨hfounder, hordered, rfl⟩ |
    ⟨hfounder, hordered, atSource, atTarget, rfl⟩
  · -- the founder stands in the middle
    rw [hfounder, Option.isSome_some, Bool.true_or]
    rfl
  · -- the position stands in the middle
    rw [hfounder, hordered, Bool.or_true]
    rfl
  · -- nothing stands in the middle
    rw [hfounder, hordered, Option.isSome_none]
    rfl

section

variable {s : Sections} (hid : m.ids.Nodup) (h : m.encoding = .ok s)
include hid h

/-- A field in a fact about generalizations that is not the one of a class belongs to a relation,
which decides its arity. -/
theorem exists_relation_of_subsumed {f : Fact} (hf : f ∈ s.facts) {F : WorldField}
    (hF : F ∈ s.worldFields) (hclass : F.shape.isExtension = false) (hw : F.name ∈ f.subsumed) :
    ∃ r e, m.FieldRelation r e ∧ F.name = r.fieldName m.names ∧
      F.shape.columns.length = if m.hasMiddleColumn r then 3 else 2 := by
  -- the fact was emitted by a task that requested the fields it names
  obtain ⟨t, -, requests, hrequests, hemits⟩ :=
    exists_emits_of_mem_fragments (encoding_ok hid h).2
      (mem_facts_iff.mp ((encoding_ok hid h).1 ▸ hf))
  obtain ⟨x, hx, hname⟩ := hemits.exists_requestsField hw
  -- the name has been requested for the element, so the field is its own
  have hdeclares := declaresField_of_name hid h hF (hrequests hx.requested)
    (hname.trans (x.fieldName_eq _))
  cases x with
  | ofClass c =>
    obtain ⟨base, -, hshape⟩ := hdeclares.of_class hid hx.mem rfl
    rw [hshape] at hclass
    cases hclass
  | ofRelation r =>
    obtain ⟨e, hr, -⟩ := hdeclares.of_relation hid hx.mem r.id_fieldRequest_key
    exact ⟨r, e, hr, hname, hdeclares.length_columns hid hx.mem r.id_fieldRequest_key⟩

end

/-- **Arity.** In the module of a model with distinct ids, if a fact about generalizations compares
two fields of relations, these have the same number of columns exactly if both relations have a
middle column or neither has. -/
theorem arity_eq_iff {s : Sections} (hid : m.ids.Nodup) (h : m.encoding = .ok s) {f : Fact}
    (hf : f ∈ s.facts) {F G : WorldField} (hF : F ∈ s.worldFields) (hG : G ∈ s.worldFields)
    (hFclass : F.shape.isExtension = false) (hGclass : G.shape.isExtension = false)
    (hcompares : f.Compares F.name G.name) :
    ∃ q e r e', m.FieldRelation q e ∧ m.FieldRelation r e' ∧ F.name = q.fieldName m.names ∧
      G.name = r.fieldName m.names ∧
      (F.shape.columns.length = G.shape.columns.length ↔
        m.hasMiddleColumn q = m.hasMiddleColumn r) := by
  obtain ⟨hFmem, hGmem⟩ := hcompares.mem_subsumed
  obtain ⟨q, e, hq, hFname, hFlength⟩ := exists_relation_of_subsumed hid h hf hF hFclass hFmem
  obtain ⟨r, e', hr, hGname, hGlength⟩ := exists_relation_of_subsumed hid h hf hG hGclass hGmem
  -- both arities are decided by the middle columns, so four cases are left
  refine ⟨q, e, r, e', hq, hr, hFname, hGname, ?_⟩
  rw [hFlength, hGlength]
  cases m.hasMiddleColumn q <;> cases m.hasMiddleColumn r <;> decide

/-- Persons are acquainted with persons, and know some of them, in an order. -/
def circle : Model where
  classes := [{ id := ⟨"person"⟩, name := some "Person", stereotype := some .kind }]
  relations := [
    { id := ⟨"acquainted"⟩, name := some "acquainted"
      ends := [
        { id := ⟨"acquainted source"⟩, type := some ⟨"person"⟩ },
        { id := ⟨"acquainted target"⟩, type := some ⟨"person"⟩ }] },
    { id := ⟨"knows"⟩, name := some "knows"
      ends := [
        { id := ⟨"knows source"⟩, type := some ⟨"person"⟩ },
        { id := ⟨"knows target"⟩, type := some ⟨"person"⟩, isOrdered := true }] }]
  generalizations := [⟨⟨"refines"⟩, none, ⟨"acquainted"⟩, ⟨"knows"⟩⟩]

/-- The module about the circle holds its generalization and the two fields. -/
theorem circle_facts : ∃ s, circle.encoding = .ok s ∧
    .generalization "knows" "acquainted" ∈ s.facts ∧
    ⟨"knows", .indexed "Person" "Person"⟩ ∈ s.worldFields ∧
    ⟨"acquainted", .binary "Person" .set .set "Person"⟩ ∈ s.worldFields :=
  exists_encoding_of_map (by decide +kernel)

/-- The generalization compares the fields of its two relations. -/
theorem circle_compares :
    (Fact.generalization "knows" "acquainted").Compares "knows" "acquainted" := by
  decide

/-- A field of three columns is said to be in a field of two. -/
theorem circle_arity_eq_iff : circle.ids.Nodup ∧ ∃ s, circle.encoding = .ok s ∧
    ∃ f ∈ s.facts, ∃ F ∈ s.worldFields, ∃ G ∈ s.worldFields, F.shape.isExtension = false ∧
      G.shape.isExtension = false ∧ f.Compares F.name G.name ∧
      ∃ q e r e', circle.FieldRelation q e ∧ circle.FieldRelation r e' ∧
        F.name = q.fieldName circle.names ∧ G.name = r.fieldName circle.names ∧
        (F.shape.columns.length = G.shape.columns.length ↔
          circle.hasMiddleColumn q = circle.hasMiddleColumn r) := by
  have hid : circle.ids.Nodup := by decide +kernel
  obtain ⟨s, hs, hf, hF, hG⟩ := circle_facts
  exact ⟨hid, s, hs, _, hf, _, hF, _, hG, rfl, rfl, circle_compares,
    arity_eq_iff hid hs hf hF hG rfl rfl circle_compares⟩

/-- So there are comparisons of fields with different numbers of columns. -/
theorem not_forall_arity_eq :
    ¬ ∀ (m : Model) (s : Sections), m.ids.Nodup → m.encoding = .ok s → ∀ f ∈ s.facts,
      ∀ F ∈ s.worldFields, ∀ G ∈ s.worldFields, F.shape.isExtension = false →
        G.shape.isExtension = false → f.Compares F.name G.name →
        F.shape.columns.length = G.shape.columns.length := by
  intro h
  have hid : circle.ids.Nodup := by decide +kernel
  obtain ⟨s, hs, hf, hF, hG⟩ := circle_facts
  have hlength := h circle s hid hs _ hf _ hF _ hG rfl rfl circle_compares
  cases hlength

end Model

end OntoWorlds
