import OntoWorlds.Proofs.Ontology.Building

/-!
# OntoWorlds — ids of models that are loaded or edited

The id of an element that stands for itself is searched for, so it is new in every model. Those of
literals, relation ends and attributes are derived from the id of the owner, without a look at the
other ids. In a model that has been loaded, or in which elements have been renamed or removed, a
derived id may belong to another element already.

* `Model.nodup_addedIds` — the ids that one call adds differ from each other in every model.
* `Model.addedIds_new_iff` — what a call adds is new exactly if what it derives is.
* `Model.nodup_ids_add_iff` — distinct ids stay distinct exactly if no derived id is taken.
-/

namespace OntoWorlds.Model

variable {m : Model} {call : Addition}

/-- The id that is searched for is not taken. -/
theorem searched_not_mem {id : ElementId} (h : id ∈ (call.searches?.map m.freshId).toList) :
    id ∉ m.ids := by
  rw [Option.mem_toList, Option.map_eq_some_iff] at h
  obtain ⟨kind, -, rfl⟩ := h
  exact m.freshId_not_mem kind

/-- So only derived ids can be taken. -/
theorem addedIds_new_iff : (∀ id ∈ m.addedIds call, id ∉ m.ids) ↔
    ∀ id ∈ m.derivedIds call, id ∉ m.ids := by
  rw [addedIds, List.forall_mem_append]
  exact and_iff_right fun id hid => searched_not_mem hid

/-- Parts are told apart from each other and from their owner. -/
theorem nodup_addedIds (m : Model) (call : Addition) : (m.addedIds call).Nodup := by
  -- an element and its parts form a family, whose ids are distinct if the parts are
  have hfamily (kind : ElementKind) {parts : List String} (hparts : parts.Nodup) :
      (m.freshId kind :: parts.map (partId (m.freshId kind))).Nodup :=
    nodup_familyIds (f := (m.freshId kind, parts)) hparts
  cases call with
  | enumeration name literals => exact hfamily .klass (nodup_numberedParts _ _)
  | relation source target stereotype => exact hfamily .relation (by decide)
  | material name source target => exact hfamily .relation (by decide)
  | attributeOf owner name type =>
    -- the only id is the one of the new attribute, if the model has the owner
    show ((m.findClass owner).toList.map attributeId).Nodup
    cases m.findClass owner with
    | none => exact List.nodup_nil
    | some c => exact List.nodup_singleton _
  | klass | kind | datatype | generalization | generalizationSet => exact List.nodup_singleton _

/-- **Additions to any model.** A call adds its ids to those of the model and returns the first of
them. They differ from each other. If the ids of the model are distinct, then those added are new,
and all ids are distinct afterwards, exactly if no id that the call derives from an owner is in the
model: no literal of the new enumeration, no end of the new relation, no attribute with the number
of the next one. -/
theorem nodup_ids_add_iff (hid : m.ids.Nodup) (call : Addition) :
    (m.add call).2.ids.Perm (m.addedIds call ++ m.ids) ∧
    (m.add call).1 = (m.addedIds call).head? ∧
    ((∀ id ∈ m.addedIds call, m.containsId id = false) ↔
      ∀ id ∈ m.derivedIds call, m.containsId id = false) ∧
    ((m.add call).2.ids.Nodup ↔ ∀ id ∈ m.derivedIds call, m.containsId id = false) := by
  obtain ⟨hperm, hreturned⟩ := m.ids_add_perm call
  have hcontains : ∀ id, m.containsId id = false ↔ id ∉ m.ids := by
    intro id
    rw [containsId, List.contains_eq_mem, decide_eq_false_iff_not]
  simp only [hcontains]
  refine ⟨hperm, hreturned, addedIds_new_iff, ?_⟩
  -- all ids are distinct if those added are, those of the model are, and no id is in both
  rw [hperm.nodup_iff, ← addedIds_new_iff, List.nodup_append']
  constructor
  · rintro ⟨-, -, hdisjoint⟩ id hadded hold
    exact hdisjoint hadded hold
  · intro hnew
    exact ⟨m.nodup_addedIds call, hid, fun id hadded hold => hnew id hadded hold⟩

/-- A person that was the first class when it got its nickname, and a company that has taken over
its id since. -/
def takenOver : Model where
  classes := [
    { id := ⟨"person"⟩, name := some "Person", stereotype := some .kind
      attributes := [
        { id := ⟨"class-1-attribute-1"⟩, name := some "nickname", type := some ⟨"class-2"⟩ }] },
    { id := ⟨"class-2"⟩, name := some "String", stereotype := some .datatype },
    { id := ⟨"class-1"⟩, name := some "Company", stereotype := some .kind }]

/-- An attribute of the company. -/
def motto : Addition := .attributeOf ⟨"class-1"⟩ "motto" ⟨"class-2"⟩

/-- The first attribute of the company gets the id of the nickname. -/
theorem takenOver_nodup_ids_add_iff : takenOver.ids.Nodup ∧
    takenOver.derivedIds motto = [⟨"class-1-attribute-1"⟩] ∧
    takenOver.containsId ⟨"class-1-attribute-1"⟩ = true ∧ ¬ (takenOver.add motto).2.ids.Nodup := by
  have hid : takenOver.ids.Nodup := by decide +kernel
  have hderived : takenOver.derivedIds motto = [⟨"class-1-attribute-1"⟩] := by decide +kernel
  have htaken : takenOver.containsId ⟨"class-1-attribute-1"⟩ = true := by decide +kernel
  refine ⟨hid, hderived, htaken, fun hnodup => ?_⟩
  have hnew := (nodup_ids_add_iff hid motto).2.2.2.mp hnodup _ (hderived ▸ List.mem_cons_self)
  rw [htaken] at hnew
  cases hnew

/-- So there are models with distinct ids in which an addition makes two of them the same. -/
theorem not_forall_nodup_ids_add :
    ¬ ∀ (m : Model) (call : Addition), m.ids.Nodup →
      (∀ id ∈ m.addedIds call, m.containsId id = false) ∧ (m.add call).2.ids.Nodup := by
  intro h
  have hnodup := (h takenOver motto (by decide +kernel)).2
  have htwice : ¬ (takenOver.add motto).2.ids.Nodup := by decide +kernel
  exact htwice hnodup

end OntoWorlds.Model
