import OntoWorlds.Ontology.Document
import OntoWorlds.Proofs.Json.Reading

/-!
# OntoWorlds — documents of models

The codecs of the elements are faithful, from plain values up to whole models: each reads again what
it writes. With what holds of writing and reading texts in general, a model is read back from its
text, whatever characters its strings are made of.

* `isFaithful_modelRecord` — from the codecs of the six kinds of elements.
* `Model.ofJson_eq_ok_iff` — the texts that are read as a model.
* `Model.ofJson_toJson` — the text of a model is read as the model.
-/

namespace OntoWorlds

open Json

namespace Document

/-! ## Plain values -/

/-- Ids are written as texts. -/
theorem isFaithful_elementId : elementId.IsFaithful :=
  Codec.isFaithful_text.convert fun _ => rfl

theorem isFaithful_name : name.IsFaithful := Codec.isFaithful_text.nullable nofun

theorem isFaithful_type : elementId.nullable.IsFaithful := isFaithful_elementId.nullable nofun

/-- The stereotype of a class is one of its words, or null. -/
theorem isFaithful_classStereotype : classStereotype.nullable.IsFaithful :=
  (Codec.isFaithful_variant ClassStereotype.ofWord?_word _).nullable nofun

theorem isFaithful_nature : nature.IsFaithful :=
  Codec.isFaithful_variant Nature.ofWord?_word _

theorem isFaithful_relationStereotype : relationStereotype.nullable.IsFaithful :=
  (Codec.isFaithful_variant RelationStereotype.ofWord?_word _).nullable nofun

/-! ## Records -/

/-- A property is read back, field by field. -/
theorem isFaithful_propertyRecord : propertyRecord.codec.IsFaithful :=
  -- the names of the fields are distinct, and setting all fields makes up the record
  Record.isFaithful_codec (by decide)
    (.cons isFaithful_elementId.field <| .cons isFaithful_name.field <|
      .cons isFaithful_type.field <| .cons Codec.isFaithful_text.field <|
      .cons Codec.isFaithful_bool.field <| .cons Codec.isFaithful_bool.field .nil)
    fun _ => rfl

theorem isFaithful_literalRecord : literalRecord.codec.IsFaithful :=
  Record.isFaithful_codec (by decide)
    (.cons isFaithful_elementId.field <| .cons isFaithful_name.field .nil)
    fun _ => rfl

/-- A class is read back, with its attributes and literals. -/
theorem isFaithful_classRecord : classRecord.codec.IsFaithful :=
  Record.isFaithful_codec (by decide)
    (.cons isFaithful_elementId.field <| .cons isFaithful_name.field <|
      .cons isFaithful_classStereotype.field <| .cons isFaithful_nature.list.field <|
      .cons Codec.isFaithful_bool.field <| .cons isFaithful_propertyRecord.list.field <|
      .cons isFaithful_literalRecord.list.field .nil)
    fun _ => rfl

theorem isFaithful_relationRecord : relationRecord.codec.IsFaithful :=
  Record.isFaithful_codec (by decide)
    (.cons isFaithful_elementId.field <| .cons isFaithful_name.field <|
      .cons isFaithful_relationStereotype.field <| .cons isFaithful_propertyRecord.list.field <|
      .nil)
    fun _ => rfl

theorem isFaithful_generalizationRecord : generalizationRecord.codec.IsFaithful :=
  Record.isFaithful_codec (by decide)
    (.cons isFaithful_elementId.field <| .cons isFaithful_name.field <|
      .cons isFaithful_elementId.field <| .cons isFaithful_elementId.field .nil)
    fun _ => rfl

theorem isFaithful_generalizationSetRecord : generalizationSetRecord.codec.IsFaithful :=
  Record.isFaithful_codec (by decide)
    (.cons isFaithful_elementId.field <| .cons isFaithful_name.field <|
      .cons Codec.isFaithful_bool.field <| .cons Codec.isFaithful_bool.field <|
      .cons isFaithful_elementId.list.field .nil)
    fun _ => rfl

/-- A model is read back, with all its elements. -/
theorem isFaithful_modelRecord : modelRecord.codec.IsFaithful :=
  Record.isFaithful_codec (by decide)
    (.cons isFaithful_name.field <| .cons isFaithful_classRecord.list.field <|
      .cons isFaithful_relationRecord.list.field <|
      .cons isFaithful_generalizationRecord.list.field <|
      .cons isFaithful_generalizationSetRecord.list.field .nil)
    fun _ => rfl

end Document

namespace Model

/-- The texts read as a model are those of the documents that its record is read from. -/
theorem ofJson_eq_ok_iff (text : String) (m : Model) : ofJson text = .ok m ↔
    ∃ d : Doc, d.IsWrittenAs text ∧ Document.modelRecord.read d = .ok m :=
  readDocument_eq_ok_iff Document.isFaithful_modelRecord.readsWhole text m

/-- **A model is read back from its text.** Whatever its strings hold, and whether or not its ids
are distinct, the text written for a model is accepted and read as that model. -/
theorem ofJson_toJson (m : Model) : ofJson m.toJson = .ok m :=
  -- the text is one of the document that is written, and this document is read back
  (ofJson_eq_ok_iff m.toJson m).mpr ⟨(Document.modelRecord.write m).doc,
    isWrittenAs_document _, Document.isFaithful_modelRecord.read_doc m⟩

end Model

end OntoWorlds
