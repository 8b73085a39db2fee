import OntoWorlds.Ontology.Element

/-!
# OntoWorlds — models and their queries

A model lists its elements; references between them are ids, and a look-up takes the first element
with the id, classes before relations.

* `Model.find` resolves a reference to a class or a relation (`Classifier`).
* `Model.properties` lists every property with its owner, attributes before relation ends.
* `Model.ids` are the ids of all elements; `Model.containsId` asks for one of them.
-/

namespace OntoWorlds

/-- What can type a property, own one, or be generalized: a class or a relation. -/
inductive Classifier
  | ofClass (c : Class)
  | ofRelation (r : Relation)
deriving DecidableEq, Repr

namespace Classifier

/-- What naming sees of the class or relation. -/
def label : Classifier → Label
  | ofClass c => c.label
  | ofRelation r => r.label

/-- The id of the class or relation. -/
def id (x : Classifier) : ElementId := x.label.id

/-- Whether the values are those of a datatype; relations have none. -/
def isDatatype : Classifier → Bool
  | ofClass c => c.isDatatype
  | ofRelation _ => false

end Classifier

/-- A model and its elements, in the order they are listed. -/
structure Model where
  name : Option String := none
  classes : List Class := []
  relations : List Relation := []
  generalizations : List Generalization := []
  generalizationSets : List GeneralizationSet := []
deriving DecidableEq, Repr, Inhabited

namespace Model

/-! ## Look-ups -/

/-- The first class with the id. -/
def findClass (m : Model) (id : ElementId) : Option Class := m.classes.find? (·.id == id)

/-- The first relation with the id. -/
def findRelation (m : Model) (id : ElementId) : Option Relation := m.relations.find? (·.id == id)

/-- The first generalization with the id. -/
def findGeneralization (m : Model) (id : ElementId) : Option Generalization :=
  m.generalizations.find? (·.id == id)

/-- The first generalization set with the id. -/
def findGeneralizationSet (m : Model) (id : ElementId) : Option GeneralizationSet :=
  m.generalizationSets.find? (·.id == id)

/-- The class or relation with the id; a class comes before a relation. -/
def find (m : Model) (id : ElementId) : Option Classifier :=
  match m.findClass id with
  | some c => some (.ofClass c)
  | none => (m.findRelation id).map .ofRelation

/-- The class or relation that types a property. -/
def typeOf (m : Model) (p : Property) : Option Classifier := p.type.bind m.find

/-- The type at the source end. -/
def sourceOf (m : Model) (r : Relation) : Option Classifier := r.sourceEnd.bind m.typeOf

/-- The type at the target end. -/
def targetOf (m : Model) (r : Relation) : Option Classifier := r.targetEnd.bind m.typeOf

/-! ## Properties with their owners -/

/-- The attributes of all classes, each with its class. -/
def attributes (m : Model) : List (Class × Property) :=
  m.classes.flatMap fun c => c.attributes.map fun p => (c, p)

/-- The ends of all relations, each with its relation. -/
def relationEnds (m : Model) : List (Relation × Property) :=
  m.relations.flatMap fun r => r.ends.map fun p => (r, p)

/-- Every property with its owner, attributes before relation ends. -/
def properties (m : Model) : List (Classifier × Property) :=
  m.attributes.map (fun (c, p) => (.ofClass c, p))
    ++ m.relationEnds.map (fun (r, p) => (.ofRelation r, p))

/-! ## Relations -/

/-- The first derivation whose source end refers to the relation. -/
def derivationOf (m : Model) (r : Relation) : Option Relation :=
  m.relations.find? fun d => d.isDerivation && d.sourceEnd.bind (·.type) == some r.id

/-- A material relation that some derivation starts from. -/
def isDerivedMaterial (m : Model) (r : Relation) : Bool :=
  r.isMaterial && (m.derivationOf r).isSome

/-- Both ends are typed by datatypes. -/
def holdsBetweenDatatypes (m : Model) (r : Relation) : Bool :=
  match m.sourceOf r, m.targetOf r with
  | some source, some target => source.isDatatype && target.isDatatype
  | _, _ => false

/-! ## Ids -/

/-- The ids of all elements of the model. -/
def ids (m : Model) : List ElementId :=
  m.classes.flatMap (fun c => c.id :: c.attributes.map (·.id) ++ c.literals.map (·.id))
    ++ m.relations.flatMap (fun r => r.id :: r.ends.map (·.id))
    ++ m.generalizations.map (·.id)
    ++ m.generalizationSets.map (·.id)

/-- The id of a class is an id of its model. -/
theorem mem_ids_of_mem_classes {m : Model} {c : Class} (h : c ∈ m.classes) : c.id ∈ m.ids := by
  simp only [ids, List.mem_append, List.mem_flatMap]
  exact .inl (.inl (.inl ⟨c, h, by simp⟩))

/-- The id of a relation is an id of its model. -/
theorem mem_ids_of_mem_relations {m : Model} {r : Relation} (h : r ∈ m.relations) :
    r.id ∈ m.ids := by
  simp only [ids, List.mem_append, List.mem_flatMap]
  exact .inl (.inl (.inr ⟨r, h, by simp⟩))

/-- Whether some element of the model has the id. -/
def containsId (m : Model) (id : ElementId) : Bool := m.ids.contains id

/-- The label of the first element with the id: a class, relation, property, literal,
generalization or generalization set, tried in this order. -/
def findLabel (m : Model) (id : ElementId) : Option Label :=
  (m.classes.map Class.label ++ m.relations.map Relation.label
    ++ m.properties.map (·.2.label)
    ++ m.classes.flatMap (fun c => c.literals.map Literal.label)
    ++ m.generalizations.map Generalization.label
    ++ m.generalizationSets.map GeneralizationSet.label).find? (·.id == id)

end Model

end OntoWorlds
