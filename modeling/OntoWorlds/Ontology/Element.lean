import OntoWorlds.Ontology.Stereotype

/-!
# OntoWorlds — model elements

The elements an OntoUML model is made of. Properties belong to the class (attributes) or relation
(ends) that lists them; all other references are by id.

* `Label` is what naming sees of an element: its id, its kind and its raw name.
* `Relation.sourceEnd`, `Relation.targetEnd` are the first and second property of a relation.
-/

namespace OntoWorlds

/-- The identity of a model element. -/
structure ElementId where
  text : String
deriving DecidableEq, Repr, Inhabited

/-- The kinds of model elements. -/
inductive ElementKind
  | klass | relation | property | literal | generalization | generalizationSet
deriving DecidableEq, Repr, Inhabited

namespace ElementKind

/-- Every kind, in the order in which a tag is looked up. -/
def all : List ElementKind :=
  [.klass, .relation, .property, .literal, .generalization, .generalizationSet]

/-- The kind as a title. -/
def title : ElementKind → String
  | .klass => "Class"
  | .relation => "Relation"
  | .property => "Property"
  | .literal => "Literal"
  | .generalization => "Generalization"
  | .generalizationSet => "GeneralizationSet"

/-- The kind as it appears inside identifiers. -/
def tag : ElementKind → String
  | .klass => "class"
  | .relation => "relation"
  | .property => "property"
  | .literal => "literal"
  | .generalization => "generalization"
  | .generalizationSet => "generalizationset"

/-- The kind with the tag. -/
def ofTag? (t : String) : Option ElementKind := all.find? (·.tag == t)

end ElementKind

/-- What naming sees of an element. -/
structure Label where
  id : ElementId
  kind : ElementKind
  name : Option String
deriving DecidableEq, Repr, Inhabited

/-- An empty name is no name. -/
def Label.isNamed (l : Label) : Bool :=
  match l.name with
  | some n => n != ""
  | none => false

/-- The multiplicity of a property that states none. -/
def defaultCardinality : String := "0..*"

/-- An attribute of a class or an end of a relation. -/
structure Property where
  id : ElementId
  name : Option String := none
  /-- The class (or, at the source of a derivation, the relation) that types the values. -/
  type : Option ElementId := none
  cardinality : String := defaultCardinality
  /-- The values form a sequence. -/
  isOrdered : Bool := false
  /-- The value never changes once set. -/
  isReadOnly : Bool := false
deriving DecidableEq, Repr, Inhabited

/-- A literal of an enumeration. -/
structure Literal where
  id : ElementId
  name : Option String := none
deriving DecidableEq, Repr, Inhabited

/-- A class with what it lists. -/
structure Class where
  id : ElementId
  name : Option String := none
  stereotype : Option ClassStereotype := none
  /-- The natures of the instances; empty leaves them to the stereotype. -/
  restrictedTo : List Nature := []
  isAbstract : Bool := false
  attributes : List Property := []
  literals : List Literal := []
deriving DecidableEq, Repr, Inhabited

/-- A relation with its ends. -/
structure Relation where
  id : ElementId
  name : Option String := none
  stereotype : Option RelationStereotype := none
  /-- The ends: first the source, then the target. -/
  ends : List Property := []
deriving DecidableEq, Repr, Inhabited

/-- One class or relation is a special case of another. -/
structure Generalization where
  id : ElementId
  name : Option String := none
  general : ElementId
  specific : ElementId
deriving DecidableEq, Repr, Inhabited

/-- Generalizations that share their general element. -/
structure GeneralizationSet where
  id : ElementId
  name : Option String := none
  /-- The specific elements exclude each other. -/
  isDisjoint : Bool := false
  /-- The specific elements cover the general one. -/
  isComplete : Bool := false
  members : List ElementId := []
deriving DecidableEq, Repr, Inhabited

/-- What naming sees of each kind of element. -/
def Property.label (p : Property) : Label := ⟨p.id, .property, p.name⟩
def Literal.label (l : Literal) : Label := ⟨l.id, .literal, l.name⟩
def Class.label (c : Class) : Label := ⟨c.id, .klass, c.name⟩
def Relation.label (r : Relation) : Label := ⟨r.id, .relation, r.name⟩
def Generalization.label (g : Generalization) : Label := ⟨g.id, .generalization, g.name⟩
def GeneralizationSet.label (s : GeneralizationSet) : Label := ⟨s.id, .generalizationSet, s.name⟩

namespace Class

/-- The class has the stereotype of datatypes. -/
def isDatatype (c : Class) : Bool := c.stereotype == some .datatype

/-- The class has the stereotype of enumerations. -/
def isEnumeration (c : Class) : Bool := c.stereotype == some .enumeration

/-- The restriction of the class, or else the natures its stereotype implies. -/
def natures (c : Class) : List Nature :=
  if !c.restrictedTo.isEmpty then c.restrictedTo
  else match c.stereotype with
    | some s => s.natures
    | none => []

end Class

namespace Relation

/-- The relation has the stereotype of derivations. -/
def isDerivation (r : Relation) : Bool := r.stereotype == some .derivation

def isMaterial (r : Relation) : Bool := r.stereotype == some .material

def isMediation (r : Relation) : Bool := r.stereotype == some .mediation

def isCharacterization (r : Relation) : Bool := r.stereotype == some .characterization

/-- The first end. -/
def sourceEnd (r : Relation) : Option Property := r.ends.head?

/-- The second end, if there is one. -/
def targetEnd (r : Relation) : Option Property := r.ends[1]?

/-- Whether the id is the one of the source end. -/
def isSourceEnd (r : Relation) (p : Property) : Bool :=
  match r.sourceEnd with
  | some source => source.id == p.id
  | none => false

/-- The end on the other side, of a relation that has both. -/
def oppositeEnd (r : Relation) (p : Property) : Option Property :=
  match r.sourceEnd, r.targetEnd with
  | some source, some target =>
    if source.id == p.id then some target
    else if target.id == p.id then some source
    else none
  | _, _ => none

/-- Some end is a sequence. -/
def hasOrderedEnd (r : Relation) : Bool := r.ends.any (·.isOrdered)

end Relation

end OntoWorlds
