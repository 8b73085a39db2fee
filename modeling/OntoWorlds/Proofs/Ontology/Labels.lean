import Mathlib.Data.List.Flatten
import Mathlib.Data.List.Nodup
import Mathlib.Data.List.Perm.Basic
import OntoWorlds.Ontology.Model

/-!
# OntoWorlds — the elements of a model

The labels of all elements stand in the order of their ids, so that in a model with distinct ids an
id belongs to one label only. References resolve to classes and relations of the model itself.

* `eq_of_mem_labels` — with distinct ids, labels with the same id are the same.
* `ids_perm` — the ids by kind of element: classes with their literals, relations, properties.
* `has_of_find`, `has_of_typeOf` — what a reference resolves to is an element of the model.
* `eq_of_has`, `id_ne_of_mem_properties` — with distinct ids, the id of a class or relation belongs
  to no other, and to no property; `eq_of_mem_properties` — neither does that of a property.
-/

namespace OntoWorlds

namespace Model

variable {m : Model}

/-- The labels of all elements, in the order of their ids. -/
def labels (m : Model) : List Label :=
  m.classes.flatMap
      (fun c => c.label :: c.attributes.map Property.label ++ c.literals.map Literal.label)
    ++ m.relations.flatMap (fun r => r.label :: r.ends.map Property.label)
    ++ m.generalizations.map Generalization.label
    ++ m.generalizationSets.map GeneralizationSet.label

/-- The ids of the labels are the ids of the model. -/
theorem map_id_labels (m : Model) : m.labels.map (·.id) = m.ids := by
  simp only [labels, ids, List.map_append, List.map_flatMap, List.map_cons, List.map_map]
  rfl

/-- With distinct ids, an id belongs to one label. -/
theorem eq_of_mem_labels (hid : m.ids.Nodup) {l l' : Label} (hl : l ∈ m.labels)
    (hl' : l' ∈ m.labels) (h : l.id = l'.id) : l = l' := by
  rw [← map_id_labels] at hid
  exact List.inj_on_of_nodup_map hid hl hl' h

/-! ## Membership -/

/-- The class or relation is one of the model. -/
def Has (m : Model) : Classifier → Prop
  | .ofClass c => c ∈ m.classes
  | .ofRelation r => r ∈ m.relations

/-- The label of a class of the model. -/
theorem label_mem_of_mem_classes {c : Class} (h : c ∈ m.classes) : c.label ∈ m.labels := by
  simp only [labels, List.mem_append, List.mem_flatMap]
  exact Or.inl (Or.inl (Or.inl ⟨c, h, by simp⟩))

/-- The label of a literal of a class. -/
theorem label_mem_of_mem_literals {c : Class} (h : c ∈ m.classes) {l : Literal}
    (hl : l ∈ c.literals) : l.label ∈ m.labels := by
  simp only [labels, List.mem_append, List.mem_flatMap]
  refine Or.inl (Or.inl (Or.inl ⟨c, h, ?_⟩))
  exact Or.inr (List.mem_map_of_mem hl)

/-- The label of a relation of the model. -/
theorem label_mem_of_mem_relations {r : Relation} (h : r ∈ m.relations) : r.label ∈ m.labels := by
  simp only [labels, List.mem_append, List.mem_flatMap]
  exact Or.inl (Or.inl (Or.inr ⟨r, h, by simp⟩))

/-- The label of a class or relation. -/
theorem label_mem_of_has {x : Classifier} (h : m.Has x) : x.label ∈ m.labels := by
  cases x with
  | ofClass c => exact label_mem_of_mem_classes h
  | ofRelation r => exact label_mem_of_mem_relations h

/-- The properties are the attributes of classes and the ends of relations. -/
theorem mem_properties_iff {x : Classifier} {p : Property} :
    (x, p) ∈ m.properties ↔
      (∃ c ∈ m.classes, p ∈ c.attributes ∧ x = .ofClass c) ∨
        ∃ r ∈ m.relations, p ∈ r.ends ∧ x = .ofRelation r := by
  simp only [properties, attributes, relationEnds, List.mem_append, List.mem_map,
    List.mem_flatMap, Prod.exists, Prod.mk.injEq]
  constructor
  · rintro (⟨c, q, ⟨c', hc, q', hq, rfl, rfl⟩, rfl, rfl⟩ |
      ⟨r, q, ⟨r', hr, q', hq, rfl, rfl⟩, rfl, rfl⟩)
    · exact Or.inl ⟨c', hc, hq, rfl⟩
    · exact Or.inr ⟨r', hr, hq, rfl⟩
  · rintro (⟨c, hc, hp, rfl⟩ | ⟨r, hr, hp, rfl⟩)
    · exact Or.inl ⟨c, p, ⟨c, hc, p, hp, rfl, rfl⟩, rfl, rfl⟩
    · exact Or.inr ⟨r, p, ⟨r, hr, p, hp, rfl, rfl⟩, rfl, rfl⟩

/-- The owner of a property is an element of the model. -/
theorem has_of_mem_properties {x : Classifier} {p : Property} (h : (x, p) ∈ m.properties) :
    m.Has x := by
  rcases mem_properties_iff.mp h with ⟨c, hc, -, rfl⟩ | ⟨r, hr, -, rfl⟩
  · exact hc
  · exact hr

/-- A property of a relation is one of its ends. -/
theorem mem_ends_of_mem_properties {r : Relation} {p : Property}
    (h : (.ofRelation r, p) ∈ m.properties) : p ∈ r.ends := by
  rcases mem_properties_iff.mp h with ⟨c, -, -, hc⟩ | ⟨q, -, hq, hr⟩
  · cases hc
  · cases hr
    exact hq

/-- The ends of a relation are properties of the model. -/
theorem mem_properties_of_mem_ends {r : Relation} {p : Property} (hr : r ∈ m.relations)
    (hp : p ∈ r.ends) : (.ofRelation r, p) ∈ m.properties :=
  mem_properties_iff.mpr (Or.inr ⟨r, hr, hp, rfl⟩)

/-- The label of a property, with any owner. -/
theorem label_mem_of_mem_properties {x : Classifier} {p : Property} (h : (x, p) ∈ m.properties) :
    p.label ∈ m.labels := by
  simp only [labels, List.mem_append, List.mem_flatMap]
  rcases mem_properties_iff.mp h with ⟨c, hc, hp, -⟩ | ⟨r, hr, hp, -⟩
  · refine Or.inl (Or.inl (Or.inl ⟨c, hc, ?_⟩))
    -- attributes stand before the literals of their class
    exact Or.inl (List.mem_cons_of_mem _ (List.mem_map_of_mem hp))
  · refine Or.inl (Or.inl (Or.inr ⟨r, hr, ?_⟩))
    exact List.mem_cons_of_mem _ (List.mem_map_of_mem hp)

/-! ## References -/

/-- What is found by its id is an element of the model. -/
theorem has_of_find {id : ElementId} {x : Classifier} (h : m.find id = some x) : m.Has x := by
  unfold find at h
  split at h
  · next c hc =>
    obtain rfl := Option.some.inj h
    exact List.mem_of_find?_eq_some hc
  · obtain ⟨r, hr, rfl⟩ := Option.map_eq_some_iff.mp h
    exact List.mem_of_find?_eq_some hr

/-- The type of a property is an element of the model. -/
theorem has_of_typeOf {p : Property} {x : Classifier} (h : m.typeOf p = some x) : m.Has x := by
  obtain ⟨id, -, hid⟩ := Option.bind_eq_some_iff.mp h
  exact has_of_find hid

theorem has_of_sourceOf {r : Relation} {x : Classifier} (h : m.sourceOf r = some x) :
    m.Has x := by
  obtain ⟨p, -, hp⟩ := Option.bind_eq_some_iff.mp h
  exact has_of_typeOf hp

theorem has_of_targetOf {r : Relation} {x : Classifier} (h : m.targetOf r = some x) :
    m.Has x := by
  obtain ⟨p, -, hp⟩ := Option.bind_eq_some_iff.mp h
  exact has_of_typeOf hp

/-! ## Ids by kind of element -/

/-- The ids of classes, each followed by those of its literals. -/
def classAndLiteralIds (m : Model) : List ElementId :=
  m.classes.flatMap fun c => c.id :: c.literals.map (·.id)

/-- The ids of relations. -/
def relationIds (m : Model) : List ElementId := m.relations.map (·.id)

/-- The ids of properties. -/
def propertyIds (m : Model) : List ElementId := m.properties.map (·.2.id)

/-- The ids of properties are those of attributes, and then those of ends. -/
theorem propertyIds_eq (m : Model) :
    m.propertyIds = m.classes.flatMap (fun c => c.attributes.map (·.id))
      ++ m.relations.flatMap fun r => r.ends.map (·.id) := by
  simp only [propertyIds, properties, attributes, relationEnds, List.map_append, List.map_map,
    List.map_flatMap]
  rfl

/-- The ids of a model, sorted by kind of element. -/
theorem ids_perm (m : Model) :
    m.ids.Perm (m.classAndLiteralIds ++ m.relationIds ++ m.propertyIds
      ++ (m.generalizations.map (·.id) ++ m.generalizationSets.map (·.id))) := by
  -- the attributes of each class move behind its literals, and then behind all classes
  have hclasses : (m.classes.flatMap
      fun c => c.id :: c.attributes.map (·.id) ++ c.literals.map (·.id)).Perm
      (m.classAndLiteralIds ++ m.classes.flatMap fun c => c.attributes.map (·.id)) := by
    refine List.Perm.trans ?_ (List.flatMap_append_perm _ _ _).symm
    refine List.Perm.flatMap_left _ fun c _ => ?_
    exact (List.perm_append_comm).cons c.id
  have hrelations : (m.relations.flatMap fun r => r.id :: r.ends.map (·.id)).Perm
      (m.relationIds ++ m.relations.flatMap fun r => r.ends.map (·.id)) :=
    (List.map_append_flatMap_perm _ _ _).symm
  rw [ids, propertyIds_eq, List.append_assoc]
  refine List.Perm.append_right _ ?_
  -- only the attributes and the relations change places
  refine (hclasses.append hrelations).trans ?_
  rw [List.append_assoc, List.append_assoc]
  refine List.Perm.append_left _ ?_
  rw [← List.append_assoc, ← List.append_assoc]
  exact List.perm_append_comm.append_right _

/-! ## One element for each id -/

/-- The ids by kind of element, those of generalizations and their sets left out. -/
theorem nodup_idsByKind (hid : m.ids.Nodup) :
    (m.classAndLiteralIds ++ m.relationIds ++ m.propertyIds).Nodup := by
  have h := (ids_perm m).nodup_iff.mp hid
  exact (List.nodup_append.mp h).1

/-- With distinct ids, no two properties share their id. -/
theorem nodup_propertyIds (hid : m.ids.Nodup) : m.propertyIds.Nodup :=
  (List.nodup_append.mp (nodup_idsByKind hid)).2.1

/-- No property is there twice among the ends of a relation. -/
theorem nodup_ends (hid : m.ids.Nodup) {r : Relation} (hr : r ∈ m.relations) : r.ends.Nodup := by
  have hids := nodup_propertyIds hid
  rw [propertyIds_eq] at hids
  have hends := (List.nodup_flatMap.mp (List.nodup_append.mp hids).2.1).1 r hr
  exact List.Nodup.of_map _ hends

/-- With distinct ids, no two relations share their id. -/
theorem nodup_relationIds (hid : m.ids.Nodup) : m.relationIds.Nodup := by
  have h := (List.nodup_append.mp (nodup_idsByKind hid)).1
  exact (List.nodup_append.mp h).2.1

/-- With distinct ids, no two classes share their id. -/
theorem nodup_classIds (hid : m.ids.Nodup) : (m.classes.map (·.id)).Nodup := by
  have h := (List.nodup_append.mp (nodup_idsByKind hid)).1
  have hall : m.classAndLiteralIds.Nodup := (List.nodup_append.mp h).1
  -- the ids of the classes stand among those of the classes with their literals
  have hsub : (m.classes.map (·.id)).Sublist m.classAndLiteralIds := by
    rw [List.map_eq_flatMap, classAndLiteralIds]
    exact List.Sublist.flatMap_right _ fun c _ => List.singleton_sublist.mpr List.mem_cons_self
  exact hall.sublist hsub

/-- With distinct ids, an id belongs to one class or relation. -/
theorem eq_of_has (hid : m.ids.Nodup) {x y : Classifier} (hx : m.Has x) (hy : m.Has y)
    (h : x.id = y.id) : x = y := by
  -- the labels are the same, so the elements are of the same kind
  have hkind : x.label = y.label :=
    eq_of_mem_labels hid (label_mem_of_has hx) (label_mem_of_has hy) h
  match x, y, hx, hy, hkind with
  | .ofClass c, .ofClass d, hc, hd, _ =>
    exact congrArg _ (List.inj_on_of_nodup_map (nodup_classIds hid) hc hd h)
  | .ofRelation r, .ofRelation q, hr, hq, _ =>
    exact congrArg _ (List.inj_on_of_nodup_map (nodup_relationIds hid) hr hq h)
  | .ofClass c, .ofRelation q, _, _, hkind => cases congrArg Label.kind hkind
  | .ofRelation r, .ofClass d, _, _, hkind => cases congrArg Label.kind hkind

/-- With distinct ids, an id belongs to one property, of one owner. -/
theorem eq_of_mem_properties (hid : m.ids.Nodup) {a b : Classifier × Property}
    (ha : a ∈ m.properties) (hb : b ∈ m.properties) (h : a.2.id = b.2.id) : a = b :=
  List.inj_on_of_nodup_map (nodup_propertyIds hid) ha hb h

/-- The id of a property is not the one of a class or relation. -/
theorem id_ne_of_mem_properties (hid : m.ids.Nodup) {x : Classifier} (hx : m.Has x)
    {a : Classifier × Property} (ha : a ∈ m.properties) : a.2.id ≠ x.id := by
  intro h
  have hlabel : a.2.label = x.label :=
    eq_of_mem_labels hid (label_mem_of_mem_properties ha) (label_mem_of_has hx) h
  have hkind : ElementKind.property = x.label.kind := congrArg Label.kind hlabel
  cases x <;> cases hkind

end Model

end OntoWorlds
