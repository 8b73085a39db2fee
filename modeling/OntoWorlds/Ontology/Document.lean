import OntoWorlds.Json.Codec
import OntoWorlds.Ontology.Model

/-!
# OntoWorlds — model documents

The JSON form of models. Each element is a record with its fields in a fixed order; only ids and
the two references of a generalization are required.

* `Model.ofJson` reads a document, `Model.toJson` writes one with every field in it.
-/

namespace OntoWorlds

open Json

namespace Document

/-- An id is a string of the document. -/
def elementId : Codec ElementId := Codec.text.convert ElementId.mk ElementId.text

/-- A name is a string or `null`. -/
def name : Codec (Option String) := Codec.text.nullable

/-- A stereotype of classes, by its spelling. -/
def classStereotype : Codec ClassStereotype :=
  .variant ClassStereotype.word ClassStereotype.ofWord? (ClassStereotype.all.map (·.word))

/-- A nature, by its spelling. -/
def nature : Codec Nature := .variant Nature.word Nature.ofWord? (Nature.all.map (·.word))

/-- A stereotype of relations, by its spelling. -/
def relationStereotype : Codec RelationStereotype :=
  .variant RelationStereotype.word RelationStereotype.ofWord?
    (RelationStereotype.all.map (·.word))

/-! ## The records -/

/-- The record of an attribute or relation end. -/
def propertyRecord : Record Property where
  title := "struct Property"
  fields :=
    [elementId.field "id" true Property.id fun v p => { p with id := v },
      name.field "name" false Property.name fun v p => { p with name := v },
      elementId.nullable.field "propertyType" false Property.type fun v p => { p with type := v },
      Codec.text.field "cardinality" false Property.cardinality
        fun v p => { p with cardinality := v },
      Codec.bool.field "isOrdered" false Property.isOrdered fun v p => { p with isOrdered := v },
      Codec.bool.field "isReadOnly" false Property.isReadOnly
        fun v p => { p with isReadOnly := v }]
  blank := { id := ⟨""⟩ }

/-- The record of a literal. -/
def literalRecord : Record Literal where
  title := "struct Literal"
  fields :=
    [elementId.field "id" true Literal.id fun v l => { l with id := v },
      name.field "name" false Literal.name fun v l => { l with name := v }]
  blank := { id := ⟨""⟩ }

/-- The record of a class, with its attributes and literals. -/
def classRecord : Record Class where
  title := "struct Class"
  fields :=
    [elementId.field "id" true Class.id fun v c => { c with id := v },
      name.field "name" false Class.name fun v c => { c with name := v },
      classStereotype.nullable.field "stereotype" false Class.stereotype
        fun v c => { c with stereotype := v },
      nature.list.field "restrictedTo" false Class.restrictedTo
        fun v c => { c with restrictedTo := v },
      Codec.bool.field "isAbstract" false Class.isAbstract fun v c => { c with isAbstract := v },
      propertyRecord.codec.list.field "attributes" false Class.attributes
        fun v c => { c with attributes := v },
      literalRecord.codec.list.field "literals" false Class.literals
        fun v c => { c with literals := v }]
  blank := { id := ⟨""⟩ }

/-- The record of a relation, with its ends. -/
def relationRecord : Record Relation where
  title := "struct Relation"
  fields :=
    [elementId.field "id" true Relation.id fun v r => { r with id := v },
      name.field "name" false Relation.name fun v r => { r with name := v },
      relationStereotype.nullable.field "stereotype" false Relation.stereotype
        fun v r => { r with stereotype := v },
      propertyRecord.codec.list.field "properties" false Relation.ends
        fun v r => { r with ends := v }]
  blank := { id := ⟨""⟩ }

/-- The record of a generalization; both of its ends are required. -/
def generalizationRecord : Record Generalization where
  title := "struct Generalization"
  fields :=
    [elementId.field "id" true Generalization.id fun v g => { g with id := v },
      name.field "name" false Generalization.name fun v g => { g with name := v },
      elementId.field "general" true Generalization.general fun v g => { g with general := v },
      elementId.field "specific" true Generalization.specific fun v g => { g with specific := v }]
  blank := { id := ⟨""⟩, general := ⟨""⟩, specific := ⟨""⟩ }

/-- The record of a generalization set. -/
def generalizationSetRecord : Record GeneralizationSet where
  title := "struct GeneralizationSet"
  fields :=
    [elementId.field "id" true GeneralizationSet.id fun v s => { s with id := v },
      name.field "name" false GeneralizationSet.name fun v s => { s with name := v },
      Codec.bool.field "isDisjoint" false GeneralizationSet.isDisjoint
        fun v s => { s with isDisjoint := v },
      Codec.bool.field "isComplete" false GeneralizationSet.isComplete
        fun v s => { s with isComplete := v },
      elementId.list.field "generalizations" false GeneralizationSet.members
        fun v s => { s with members := v }]
  blank := { id := ⟨""⟩ }

/-- The record of a whole model; nothing in it is required. -/
def modelRecord : Record Model where
  title := "struct Model"
  fields :=
    [name.field "name" false Model.name fun v m => { m with name := v },
      classRecord.codec.list.field "classes" false Model.classes
        fun v m => { m with classes := v },
      relationRecord.codec.list.field "relations" false Model.relations
        fun v m => { m with relations := v },
      generalizationRecord.codec.list.field "generalizations" false Model.generalizations
        fun v m => { m with generalizations := v },
      generalizationSetRecord.codec.list.field "generalizationSets" false
        Model.generalizationSets fun v m => { m with generalizationSets := v }]
  blank := {}

end Document

/-- Reads the text of a document, or tells what is wrong with it. -/
def Model.ofJson (text : String) : Except Problem Model :=
  readDocument Document.modelRecord.read text

/-- The text of the document that holds the model. -/
def Model.toJson (m : Model) : String := (Document.modelRecord.write m).document

end OntoWorlds
