import OntoWorlds.Ontology.Model
import OntoWorlds.Search

/-!
# OntoWorlds — building models

Building a model element by element. Each addition takes a fresh id of the form `tag-n`, appends the
element and returns the id with the new model; literals, relation ends and attributes get ids that
extend the one of their owner.

* `Model.freshId` — the smallest number from the count of elements on that gives an unused id.
* `Model.updateClass`, `Model.updateRelation`, `Model.updateProperty` change the first element with
  an id, and are `none` if there is none.
-/

namespace OntoWorlds

namespace Model

/-- The model without elements. -/
def empty (name : String) : Model := { name := some name }

/-! ## Fresh ids -/

/-- The id of a kind and a number. -/
def numberedId (kind : ElementKind) (n : Nat) : ElementId := ⟨kind.tag ++ "-" ++ toString n⟩

/-- One more than the number of elements that stand for themselves. -/
def firstNumber (m : Model) : Nat :=
  m.classes.length + m.relations.length + m.generalizations.length + m.generalizationSets.length + 1

/-- The first numbered id of the kind that no element of the model has. -/
def freshId (m : Model) (kind : ElementKind) : ElementId :=
  numberedId kind
    (firstFree (fun n => m.containsId (numberedId kind n)) m.ids.length m.firstNumber)

/-- The id of a part of an element. -/
def partId (owner : ElementId) (part : String) : ElementId := ⟨owner.text ++ "-" ++ part⟩

/-! ## Additions -/

/-- Adds a class with a fresh id. -/
def addClass (m : Model) (name : String) (stereotype : Option ClassStereotype) :
    ElementId × Model :=
  let id := m.freshId .klass
  (id, { m with classes := m.classes ++ [{ id, name := some name, stereotype }] })

/-- Adds a class of the stereotype `kind`. -/
def addKind (m : Model) (name : String) : ElementId × Model := m.addClass name (some .kind)

/-- Adds a class of the stereotype `datatype`. -/
def addDatatype (m : Model) (name : String) : ElementId × Model := m.addClass name (some .datatype)

/-- The literals of an enumeration, numbered from `n` on. -/
def numberedLiterals (owner : ElementId) : (n : Nat) → List String → List Literal
  | _, [] => []
  | n, name :: names =>
    ⟨partId owner ("literal-" ++ toString n), some name⟩ :: numberedLiterals owner (n + 1) names

/-- Adds an enumeration; its literals have ids that follow from the one of the class. -/
def addEnumeration (m : Model) (name : String) (literals : List String) : ElementId × Model :=
  let id := m.freshId .klass
  let c : Class :=
    { id, name := some name, stereotype := some .enumeration,
      literals := numberedLiterals id 1 literals }
  (id, { m with classes := m.classes ++ [c] })

/-- A relation between two types, with or without a name. -/
def addRelation (m : Model) (name : Option String) (source target : ElementId)
    (stereotype : Option RelationStereotype) : ElementId × Model :=
  let id := m.freshId .relation
  let r : Relation :=
    { id, name, stereotype,
      ends := [{ id := partId id "source", type := some source },
        { id := partId id "target", type := some target }] }
  (id, { m with relations := m.relations ++ [r] })

/-- Adds a material relation. -/
def addMaterial (m : Model) (name : String) (source target : ElementId) : ElementId × Model :=
  m.addRelation (some name) source target (some .material)

/-- Adds a generalization with a fresh id. -/
def addGeneralization (m : Model) (general specific : ElementId) : ElementId × Model :=
  let id := m.freshId .generalization
  (id, { m with generalizations := m.generalizations ++ [{ id, general, specific }] })

/-- Adds a generalization set with a fresh id. -/
def addGeneralizationSet (m : Model) (members : List ElementId) (isDisjoint isComplete : Bool) :
    ElementId × Model :=
  let id := m.freshId .generalizationSet
  (id, { m with
    generalizationSets := m.generalizationSets ++ [{ id, isDisjoint, isComplete, members }] })

/-! ## Changes -/

/-- Changes the first element that passes a test. -/
def updateFirst {α : Type} (test : α → Bool) (change : α → α) : List α → Option (List α)
  | [] => none
  | a :: as => if test a then some (change a :: as) else (updateFirst test change as).map (a :: ·)

/-- Changes the first element that can be changed. -/
def updateFirst? {α : Type} (change : α → Option α) : List α → Option (List α)
  | [] => none
  | a :: as =>
    match change a with
    | some b => some (b :: as)
    | none => (updateFirst? change as).map (a :: ·)

/-- Changes the first class with the id. -/
def updateClass (m : Model) (id : ElementId) (change : Class → Class) : Option Model :=
  (updateFirst (·.id == id) change m.classes).map fun cs => { m with classes := cs }

/-- Changes the first relation with the id. -/
def updateRelation (m : Model) (id : ElementId) (change : Relation → Relation) : Option Model :=
  (updateFirst (·.id == id) change m.relations).map fun rs => { m with relations := rs }

/-- Changes the first attribute with the id, in the first class that has one. -/
def updateAttribute (m : Model) (id : ElementId) (change : Property → Property) : Option Model :=
  (updateFirst? (fun c => (updateFirst (·.id == id) change c.attributes).map
    fun ps => { c with attributes := ps }) m.classes).map fun cs => { m with classes := cs }

/-- Changes the first end with the id, in the first relation that has one. -/
def updateEnd (m : Model) (id : ElementId) (change : Property → Property) : Option Model :=
  (updateFirst? (fun r => (updateFirst (·.id == id) change r.ends).map
    fun ps => { r with ends := ps }) m.relations).map fun rs => { m with relations := rs }

/-- Attributes are looked through before relation ends. -/
def updateProperty (m : Model) (id : ElementId) (change : Property → Property) : Option Model :=
  match m.updateAttribute id change with
  | some m => some m
  | none => m.updateEnd id change

/-- The id of the next attribute of a class. -/
def attributeId (c : Class) : ElementId :=
  partId c.id ("attribute-" ++ toString (c.attributes.length + 1))

/-- Adds an attribute to the first class with the id, if there is one. -/
def addAttribute (m : Model) (owner : ElementId) (name : String) (type : ElementId) :
    Option (ElementId × Model) := do
  let c ← m.findClass owner
  let id := attributeId c
  let m ← m.updateClass owner fun c =>
    { c with attributes := c.attributes ++ [{ id, name := some name, type := some type }] }
  return (id, m)

end Model

end OntoWorlds
