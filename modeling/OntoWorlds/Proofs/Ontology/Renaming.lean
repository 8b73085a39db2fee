import Mathlib.Logic.Embedding.Basic
import OntoWorlds.Worlds.Subsumption
import OntoWorlds.Worlds.Field
import OntoWorlds.Worlds.PropertyRole

/-!
# OntoWorlds — renaming the ids of a model

Ids only tell elements apart, so writing them differently gives the same model in other words. A
renaming is an embedding of ids: it moves every id of the model, and every reference with it, and
keeps different ids different, whether or not the ids of the model are distinct to begin with.

* `Model.rename` — the renamed model; the elements keep their names, stereotypes and order.
* `find_rename`, `typeOf_rename`, `derivationOf_rename` — a look-up in the renamed model finds the
  renamed element.
* `isRepresented_rename`, `roleOf_rename` — what is decided about an element stays decided.
-/

namespace OntoWorlds

variable (s : ElementId ↪ ElementId)

/-! ## Renamed elements -/

/-- What is known of an element for its name, with the id renamed. -/
def Label.rename (l : Label) : Label := { l with id := s l.id }

/-- The reference to the type is renamed with the id. -/
def Property.rename (p : Property) : Property := { p with id := s p.id, type := p.type.map s }

/-- A literal has nothing but an id and a name. -/
def Literal.rename (l : Literal) : Literal := { l with id := s l.id }

/-- Attributes and literals are renamed with their class. -/
def Class.rename (c : Class) : Class :=
  { c with
    id := s c.id
    attributes := c.attributes.map (Property.rename s)
    literals := c.literals.map (Literal.rename s) }

/-- The ends are renamed with their relation. -/
def Relation.rename (r : Relation) : Relation :=
  { r with id := s r.id, ends := r.ends.map (Property.rename s) }

/-- Both ends of a generalization are references. -/
def Generalization.rename (g : Generalization) : Generalization :=
  { g with id := s g.id, general := s g.general, specific := s g.specific }

/-- The members of a set are references. -/
def GeneralizationSet.rename (t : GeneralizationSet) : GeneralizationSet :=
  { t with id := s t.id, members := t.members.map s }

/-- A class or a relation is renamed as what it is. -/
def Classifier.rename : Classifier → Classifier
  | ofClass c => ofClass (c.rename s)
  | ofRelation r => ofRelation (r.rename s)

/-- All elements are renamed, in place. -/
def Model.rename (m : Model) : Model :=
  { m with
    classes := m.classes.map (Class.rename s)
    relations := m.relations.map (Relation.rename s)
    generalizations := m.generalizations.map (Generalization.rename s)
    generalizationSets := m.generalizationSets.map (GeneralizationSet.rename s) }

variable {s}

/-! ## What does not look at ids -/

@[simp] theorem Property.label_rename (p : Property) : (p.rename s).label = p.label.rename s := rfl

@[simp] theorem Literal.label_rename (l : Literal) : (l.rename s).label = l.label.rename s := rfl

@[simp] theorem Class.label_rename (c : Class) : (c.rename s).label = c.label.rename s := rfl

@[simp] theorem Classifier.label_rename (x : Classifier) :
    (x.rename s).label = x.label.rename s := by
  cases x <;> rfl

/-- A class or relation goes by the renamed id from then on. -/
@[simp] theorem Classifier.id_rename (x : Classifier) : (x.rename s).id = s x.id := by
  cases x <;> rfl

@[simp] theorem Class.base?_rename (c : Class) : (c.rename s).base? = c.base? := rfl

@[simp] theorem Classifier.isDatatype_rename (x : Classifier) :
    (x.rename s).isDatatype = x.isDatatype := by
  cases x <;> rfl

@[simp] theorem Classifier.hasSignature_rename (x : Classifier) :
    (x.rename s).hasSignature = x.hasSignature := by
  cases x <;> rfl

@[simp] theorem Classifier.inWorld_rename (x : Classifier) (name : String) :
    (x.rename s).inWorld name = x.inWorld name := by
  cases x <;> rfl

@[simp] theorem Classifier.acrossWorlds_rename (x : Classifier) (name : String) :
    (x.rename s).acrossWorlds name = x.acrossWorlds name := by
  cases x <;> rfl

/-- Two elements stay of one sort, both classes or both relations. -/
@[simp] theorem Classifier.isLike_rename (x y : Classifier) :
    (x.rename s).isLike (y.rename s) = x.isLike y := by
  cases x <;> cases y <;> rfl

@[simp] theorem Relation.isDerivation_rename (r : Relation) :
    (r.rename s).isDerivation = r.isDerivation := rfl

@[simp] theorem Relation.isMaterial_rename (r : Relation) :
    (r.rename s).isMaterial = r.isMaterial := rfl

@[simp] theorem Relation.isMediation_rename (r : Relation) :
    (r.rename s).isMediation = r.isMediation := rfl

/-- Order is a matter of the ends, which are renamed one by one. -/
@[simp] theorem Relation.hasOrderedEnd_rename (r : Relation) :
    (r.rename s).hasOrderedEnd = r.hasOrderedEnd := by
  simp only [Relation.hasOrderedEnd, Relation.rename, List.any_map]
  rfl

/-! ## The ends of a relation -/

/-- The first end of the renamed relation is the renamed first end. -/
@[simp] theorem Relation.sourceEnd_rename (r : Relation) :
    (r.rename s).sourceEnd = r.sourceEnd.map (Property.rename s) := by
  simp [Relation.sourceEnd, Relation.rename]

/-- The second end is found by its position, which renaming keeps. -/
@[simp] theorem Relation.targetEnd_rename (r : Relation) :
    (r.rename s).targetEnd = r.targetEnd.map (Property.rename s) := by
  simp [Relation.targetEnd, Relation.rename]

/-- Whether an id is the one looked for is not changed by renaming both. -/
@[simp] theorem ElementId.beq_rename (a b : ElementId) : (s a == s b) = (a == b) := by
  rw [Bool.eq_iff_iff, beq_iff_eq, beq_iff_eq, s.apply_eq_iff_eq]

/-- The first end is told from the other ones by its id alone. -/
@[simp] theorem Relation.isSourceEnd_rename (r : Relation) (p : Property) :
    (r.rename s).isSourceEnd (p.rename s) = r.isSourceEnd p := by
  rw [Relation.isSourceEnd, Relation.isSourceEnd, Relation.sourceEnd_rename]
  cases r.sourceEnd with
  | none => rfl
  -- the ids of the two ends are compared, and the embedding keeps them apart
  | some e => exact ElementId.beq_rename e.id p.id

/-! ## Look-ups -/

namespace Model

variable (m : Model)

/-- The first renamed element with a renamed id is the renaming of the first element with the id. -/
theorem find?_rename {α : Type} (id : α → ElementId) {f : α → α} (hf : ∀ a, id (f a) = s (id a))
    (i : ElementId) (as : List α) :
    (as.map f).find? (fun a => id a == s i) = (as.find? (fun a => id a == i)).map f := by
  -- the map is taken out of the search, and the test of the ids stays the same
  rw [List.find?_map]
  congr 2
  funext a
  rw [Function.comp_apply, hf, ElementId.beq_rename]

/-- The first class with the renamed id is the renamed first class with the id, also where several
classes share it. -/
@[simp] theorem findClass_rename (i : ElementId) :
    (m.rename s).findClass (s i) = (m.findClass i).map (Class.rename s) :=
  find?_rename Class.id (fun _ => rfl) i m.classes

/-- Relations are looked up as classes are. -/
@[simp] theorem findRelation_rename (i : ElementId) :
    (m.rename s).findRelation (s i) = (m.findRelation i).map (Relation.rename s) :=
  find?_rename Relation.id (fun _ => rfl) i m.relations

/-- Generalizations are looked up as classes are. -/
@[simp] theorem findGeneralization_rename (i : ElementId) :
    (m.rename s).findGeneralization (s i) =
      (m.findGeneralization i).map (Generalization.rename s) :=
  find?_rename Generalization.id (fun _ => rfl) i m.generalizations

/-- Classes are looked through before relations, before and after the renaming. -/
@[simp] theorem find_rename (i : ElementId) :
    (m.rename s).find (s i) = (m.find i).map (Classifier.rename s) := by
  rw [find, find, findClass_rename, findRelation_rename]
  -- relations are looked through only if there is no such class
  cases m.findClass i with
  | some c => rfl
  | none => cases m.findRelation i <;> rfl

/-- The type of a renamed property is the renamed type. -/
@[simp] theorem typeOf_rename (p : Property) :
    (m.rename s).typeOf (p.rename s) = (m.typeOf p).map (Classifier.rename s) := by
  rw [typeOf, typeOf]
  -- the reference has been renamed with the property
  show (p.type.map s).bind _ = _
  cases p.type with
  | none => rfl
  | some i => exact find_rename m i

/-- The type of the first end, if there is one. -/
@[simp] theorem sourceOf_rename (r : Relation) :
    (m.rename s).sourceOf (r.rename s) = (m.sourceOf r).map (Classifier.rename s) := by
  rw [sourceOf, sourceOf, Relation.sourceEnd_rename]
  cases r.sourceEnd with
  | none => rfl
  | some e => exact typeOf_rename m e

/-- The type of the second end, if there is one. -/
@[simp] theorem targetOf_rename (r : Relation) :
    (m.rename s).targetOf (r.rename s) = (m.targetOf r).map (Classifier.rename s) := by
  rw [targetOf, targetOf, Relation.targetEnd_rename]
  cases r.targetEnd with
  | none => rfl
  | some e => exact typeOf_rename m e

/-- Attributes keep their order and go with their renamed classes. -/
theorem attributes_rename :
    (m.rename s).attributes = m.attributes.map (Prod.map (Class.rename s) (Property.rename s)) := by
  simp [attributes, rename, Class.rename, List.flatMap_map, List.map_flatMap, Function.comp_def]

/-- Ends keep their order and go with their renamed relations. -/
theorem relationEnds_rename :
    (m.rename s).relationEnds =
      m.relationEnds.map (Prod.map (Relation.rename s) (Property.rename s)) := by
  simp [relationEnds, rename, Relation.rename, List.flatMap_map, List.map_flatMap,
    Function.comp_def]

/-- So do all properties, attributes before ends. -/
theorem properties_rename :
    (m.rename s).properties =
      m.properties.map (Prod.map (Classifier.rename s) (Property.rename s)) := by
  rw [properties, properties, attributes_rename, relationEnds_rename]
  -- both parts of the list are maps of pairs, component by component
  simp [Function.comp_def, Classifier.rename]

/-! ## What is decided about relations and properties -/

/-- The derivation of a renamed relation is the renamed derivation, as derivations are found by the
id of the relation that they start from. -/
@[simp] theorem derivationOf_rename (r : Relation) :
    (m.rename s).derivationOf (r.rename s) = (m.derivationOf r).map (Relation.rename s) := by
  -- a derivation leads from the relation exactly if the renamed one leads from the renamed one
  have hsource : ∀ d : Relation,
      (((d.rename s).sourceEnd.bind (·.type)) == some (s r.id)) =
        (d.sourceEnd.bind (·.type) == some r.id) := by
    intro d
    rw [Relation.sourceEnd_rename]
    cases d.sourceEnd with
    | none => rfl
    | some e =>
      show (e.type.map s == some (s r.id)) = (e.type == some r.id)
      cases e.type with
      | none => rfl
      | some i => exact ElementId.beq_rename i r.id
  -- derivations are searched in the order of the relations, by this test
  show (m.relations.map (Relation.rename s)).find? _ = (m.relations.find? _).map _
  rw [List.find?_map]
  congr 2
  funext d
  show ((d.rename s).isDerivation && _) = _
  rw [Relation.isDerivation_rename]
  exact congrArg (d.isDerivation && ·) (hsource d)

/-- A material relation is derived if it has a derivation, whatever ids the two have. -/
@[simp] theorem isDerivedMaterial_rename (r : Relation) :
    (m.rename s).isDerivedMaterial (r.rename s) = m.isDerivedMaterial r := by
  simp [isDerivedMaterial]

/-- Types of ends are datatypes or not by their stereotypes, which stay. -/
@[simp] theorem holdsBetweenDatatypes_rename (r : Relation) :
    (m.rename s).holdsBetweenDatatypes (r.rename s) = m.holdsBetweenDatatypes r := by
  rw [holdsBetweenDatatypes, holdsBetweenDatatypes, sourceOf_rename, targetOf_rename]
  cases m.sourceOf r <;> cases m.targetOf r <;> simp

/-- A relation is represented by the types of its ends, and these stay what they are. -/
@[simp] theorem isRepresented_rename (r : Relation) :
    (m.rename s).isRepresented (r.rename s) = m.isRepresented r := by
  rw [isRepresented, isRepresented, sourceOf_rename, targetOf_rename]
  -- what is tested of the types does not look at ids
  cases m.sourceOf r with
  | none => rfl
  | some x =>
    cases m.targetOf r with
    | none => cases x <;> rfl
    | some y => cases x <;> cases y <;> rfl

/-- A class has a field by its stereotype, a relation by its ends. -/
@[simp] theorem hasField_rename (x : Classifier) :
    (m.rename s).hasField (x.rename s) = m.hasField x := by
  cases x with
  | ofClass c => rfl
  | ofRelation r => exact isRepresented_rename m r

/-- The values of an attribute are represented by the type of the attribute. -/
@[simp] theorem mayHaveValues_rename (p : Property) :
    (m.rename s).mayHaveValues (p.rename s) = m.mayHaveValues p := by
  rw [mayHaveValues, mayHaveValues, typeOf_rename]
  cases m.typeOf p <;> simp

end Model

/-! ## Roles -/

variable (s) in
/-- The same role, of the renamed class or relation. -/
def PropertyRole.rename : PropertyRole → PropertyRole
  | datatypeAttribute c => datatypeAttribute (c.rename s)
  | orderedAttribute c => orderedAttribute (c.rename s)
  | plainAttribute c => plainAttribute (c.rename s)
  | relationEnd r side => relationEnd (r.rename s) side
  | skipped reason => skipped reason

/-- The role of an attribute is decided by its stereotypes and flags, and by its type. -/
theorem Model.attributeRole_rename (m : Model) (c : Class) (p : Property) :
    (m.rename s).attributeRole (c.rename s) (p.rename s) = (m.attributeRole c p).rename s := by
  rw [attributeRole, attributeRole, mayHaveValues_rename]
  -- the guards are the same as before, so only the outcomes are renamed
  simp only [apply_ite (PropertyRole.rename s)]
  rfl

/-- The role of an end is decided by its relation and by its place there. -/
theorem Model.endRole_rename (m : Model) (r : Relation) (p : Property) :
    (m.rename s).endRole (r.rename s) (p.rename s) = (m.endRole r p).rename s := by
  rw [endRole, endRole, holdsBetweenDatatypes_rename, isRepresented_rename,
    Relation.isSourceEnd_rename]
  simp only [apply_ite (PropertyRole.rename s)]
  rfl

/-- What a property is for the module does not depend on ids. -/
theorem Model.roleOf_rename (m : Model) (x : Classifier) (p : Property) :
    (m.rename s).roleOf (x.rename s) (p.rename s) = (m.roleOf x p).rename s := by
  cases x with
  | ofClass c => exact attributeRole_rename m c p
  | ofRelation r => exact endRole_rename m r p

end OntoWorlds
