import Mathlib.Logic.Relation
import OntoWorlds.Proofs.Json.Relaying
import OntoWorlds.Proofs.Ontology.RoundTrip

/-!
# OntoWorlds — model documents in other layouts

The shapes of the records that model documents are made of, and what follows for reading them: a
model is read from every layout of its document, and from every text of each of them.
-/

namespace OntoWorlds

open Json

namespace Document

/-! ## Shapes -/

/-- The members of a property. -/
def propertyShape : Shape := .record
  [.required "id" .plain, .optional "name" .null .plain, .optional "propertyType" .null .plain,
    .optional "cardinality" (.text "0..*") .plain, .optional "isOrdered" (.bool false) .plain,
    .optional "isReadOnly" (.bool false) .plain]

/-- The members of a literal. -/
def literalShape : Shape := .record [.required "id" .plain, .optional "name" .null .plain]

/-- The members of a class, with lists of properties and literals. -/
def classShape : Shape := .record
  [.required "id" .plain, .optional "name" .null .plain, .optional "stereotype" .null .plain,
    .optional "restrictedTo" (.array .nil) .plain, .optional "isAbstract" (.bool false) .plain,
    .optional "attributes" (.array .nil) (.list propertyShape),
    .optional "literals" (.array .nil) (.list literalShape)]

/-- The members of a relation, with the list of its ends. -/
def relationShape : Shape := .record
  [.required "id" .plain, .optional "name" .null .plain, .optional "stereotype" .null .plain,
    .optional "properties" (.array .nil) (.list propertyShape)]

/-- The members of a generalization, all but the name required. -/
def generalizationShape : Shape := .record
  [.required "id" .plain, .optional "name" .null .plain, .required "general" .plain,
    .required "specific" .plain]

/-- The members of a generalization set. -/
def generalizationSetShape : Shape := .record
  [.required "id" .plain, .optional "name" .null .plain,
    .optional "isDisjoint" (.bool false) .plain, .optional "isComplete" (.bool false) .plain,
    .optional "generalizations" (.array .nil) .plain]

/-- The members of a model, all of them optional. -/
def modelShape : Shape := .record
  [.optional "name" .null .plain, .optional "classes" (.array .nil) (.list classShape),
    .optional "relations" (.array .nil) (.list relationShape),
    .optional "generalizations" (.array .nil) (.list generalizationShape),
    .optional "generalizationSets" (.array .nil) (.list generalizationSetShape)]

/-! ## Records -/

/-- The fields of a property may come in any order, among other keys. -/
theorem isOpen_propertyRecord : propertyRecord.IsOpen where
  ignores := rfl
  names := by decide
  commute := by simp [propertyRecord, Codec.field_commute]

/-- So a property is read from all layouts of its shape. -/
theorem keeps_propertyRecord : Keeps propertyRecord.codec.read propertyShape :=
  Record.keeps_record isOpen_propertyRecord
    (.cons (.required (keeps_plain _)) <|
      .cons (.optional (keeps_plain _) rfl rfl) <|
      .cons (.optional (keeps_plain _) rfl rfl) <|
      .cons (.optional (keeps_plain _) rfl rfl) <|
      .cons (.optional (keeps_plain _) rfl rfl) <|
      .cons (.optional (keeps_plain _) rfl rfl) .nil)

theorem isOpen_literalRecord : literalRecord.IsOpen where
  ignores := rfl
  names := by decide
  commute := by simp [literalRecord, Codec.field_commute]

theorem keeps_literalRecord : Keeps literalRecord.codec.read literalShape :=
  Record.keeps_record isOpen_literalRecord
    (.cons (.required (keeps_plain _)) <|
      .cons (.optional (keeps_plain _) rfl rfl) .nil)

theorem isOpen_classRecord : classRecord.IsOpen where
  ignores := rfl
  names := by decide
  commute := by simp [classRecord, Codec.field_commute]

/-- A class is read from all layouts, its attributes and literals included. -/
theorem keeps_classRecord : Keeps classRecord.codec.read classShape :=
  Record.keeps_record isOpen_classRecord
    (.cons (.required (keeps_plain _)) <|
      .cons (.optional (keeps_plain _) rfl rfl) <|
      .cons (.optional (keeps_plain _) rfl rfl) <|
      .cons (.optional (keeps_plain _) rfl rfl) <|
      .cons (.optional (keeps_plain _) rfl rfl) <|
      .cons (.optional (Codec.keeps_list keeps_propertyRecord) rfl rfl) <|
      .cons (.optional (Codec.keeps_list keeps_literalRecord) rfl rfl) .nil)

theorem isOpen_relationRecord : relationRecord.IsOpen where
  ignores := rfl
  names := by decide
  commute := by simp [relationRecord, Codec.field_commute]

/-- A relation is read from all layouts, its ends included. -/
theorem keeps_relationRecord : Keeps relationRecord.codec.read relationShape :=
  Record.keeps_record isOpen_relationRecord
    (.cons (.required (keeps_plain _)) <|
      .cons (.optional (keeps_plain _) rfl rfl) <|
      .cons (.optional (keeps_plain _) rfl rfl) <|
      .cons (.optional (Codec.keeps_list keeps_propertyRecord) rfl rfl) .nil)

theorem isOpen_generalizationRecord : generalizationRecord.IsOpen where
  ignores := rfl
  names := by decide
  commute := by simp [generalizationRecord, Codec.field_commute]

theorem keeps_generalizationRecord : Keeps generalizationRecord.codec.read generalizationShape :=
  Record.keeps_record isOpen_generalizationRecord
    (.cons (.required (keeps_plain _)) <|
      .cons (.optional (keeps_plain _) rfl rfl) <|
      .cons (.required (keeps_plain _)) <|
      .cons (.required (keeps_plain _)) .nil)

theorem isOpen_generalizationSetRecord : generalizationSetRecord.IsOpen where
  ignores := rfl
  names := by decide
  commute := by simp [generalizationSetRecord, Codec.field_commute]

theorem keeps_generalizationSetRecord :
    Keeps generalizationSetRecord.codec.read generalizationSetShape :=
  Record.keeps_record isOpen_generalizationSetRecord
    (.cons (.required (keeps_plain _)) <|
      .cons (.optional (keeps_plain _) rfl rfl) <|
      .cons (.optional (keeps_plain _) rfl rfl) <|
      .cons (.optional (keeps_plain _) rfl rfl) <|
      .cons (.optional (keeps_plain _) rfl rfl) .nil)

theorem isOpen_modelRecord : modelRecord.IsOpen where
  ignores := rfl
  names := by decide
  commute := by simp [modelRecord, Codec.field_commute]

/-- A model is read from all layouts, of everything in it. -/
theorem keeps_modelRecord : Keeps modelRecord.codec.read modelShape :=
  Record.keeps_record isOpen_modelRecord
    (.cons (.optional (keeps_plain _) rfl rfl) <|
      .cons (.optional (Codec.keeps_list keeps_classRecord) rfl rfl) <|
      .cons (.optional (Codec.keeps_list keeps_relationRecord) rfl rfl) <|
      .cons (.optional (Codec.keeps_list keeps_generalizationRecord) rfl rfl) <|
      .cons (.optional (Codec.keeps_list keeps_generalizationSetRecord) rfl rfl) .nil)

/-! ## One document in two layouts -/

/-- A generalization with all its fields, in a model whose name is null. -/
def plainText : String :=
  "\x7b\"name\":null,\"generalizations\":[\x7b\"id\":\"g\",\"name\":\"G\",\"general\":\"a\"," ++
    "\"specific\":\"b\"\x7d]\x7d"

/-- Without the name, with a note that nobody reads, and the generalization as an array. -/
def denseText : String :=
  "\x7b\n\t\"note\": [1e999, \x7b\"\\ud800\": \"\\\"]\"\x7d ],\n\t\"generalizations\": [ " ++
    "[\"g\", \"\\u0047\", \"a\", \"b\"] ]\r\n\x7d "

/-- A string without escapes. -/
def word (s : String) : Doc := .atom (some (.text (some s)))

/-- The four values of the generalization. -/
def values : List Doc := [word "g", word "G", word "a", word "b"]

/-- The document of the plain text. -/
def plainDoc : Doc :=
  .object (.ofList [(some "name", .atom (some .null)),
    (some "generalizations", .array (.ofList [.object (.ofList
      ([some "id", some "name", some "general", some "specific"].zip values))]))])

/-- The note in the dense text. -/
def note : Doc :=
  .array (.ofList [.atom (some (.number ⟨false, ['1'], [], some 999⟩)),
    .object (.ofList [(none, word "\"]")])])

/-- The document of the dense text. -/
def denseDoc : Doc :=
  .object (.ofList [(some "note", note),
    (some "generalizations", .array (.ofList [.array (.ofList values)]))])

/-- The generalization as the model it is read as. -/
def oneGeneralization : Model :=
  { generalizations := [{ id := ⟨"g"⟩, name := some "G", general := ⟨"a"⟩, specific := ⟨"b"⟩ }] }

/-- The dense document is the plain one without the name, with the generalization as an array and
with the note. -/
theorem plainDoc_relaid : Relation.ReflTransGen (Relaid modelShape) plainDoc denseDoc := by
  let ms : List (Option String × Doc) :=
    [(some "generalizations", .array (.ofList [.object (.ofList
      ([some "id", some "name", some "general", some "specific"].zip values))]))]
  let ms' : List (Option String × Doc) :=
    [(some "generalizations", .array (.ofList [.array (.ofList values)]))]
  -- the name is left out, as it has the default value
  have hname : Relaid modelShape plainDoc (.object (.ofList ms)) :=
    @Relaid.leaveOut _ [] ms _ .null (List.mem_cons_self ..) rfl
  -- the generalization becomes an array, with its members in the order of the fields
  have hgeneralization : Relaid generalizationShape (.object (.ofList
      ([some "id", some "name", some "general", some "specific"].zip values)))
      (.array (.ofList values)) :=
    @Relaid.asArray _ _ _ [] rfl nofun (.refl _)
  have hlist : Relaid modelShape (.object (.ofList ms)) (.object (.ofList ms')) :=
    @Relaid.member _ [] [] (.optional "generalizations" (.array .nil)
      (.list generalizationShape)) _ _ (by simp)
      (@Relaid.item _ [] [] _ _ hgeneralization)
  -- the note is added, under a key that is no field
  have hnote : Relaid modelShape (.object (.ofList ms')) denseDoc :=
    @Relaid.add _ [] ms' "note" note (by decide) ((Doc.skip_eq_none_iff _).mp rfl)
  exact ((Relation.ReflTransGen.single hname).tail hlist).tail hnote

/-! ## Models -/

/-- **The document is read, not its layout.** A text that is read as a model is a text of some
document. If that document is laid out differently in any number of places, every text of the
result is read as the same model; with no place at all, this goes for blanks and for the spelling of
tokens. -/
theorem ofJson_of_relaid {text : String} {m : Model} (h : Model.ofJson text = .ok m) :
    (∃ d : Doc, d.IsWrittenAs text) ∧
      ∀ (d d' : Doc) (text' : String), d.IsWrittenAs text →
        Relation.ReflTransGen (Relaid modelShape) d d' → d'.IsWrittenAs text' →
          Model.ofJson text' = .ok m := by
  -- there is one document to the text, so it is the one that was read
  obtain ⟨e, he, hread⟩ := (Model.ofJson_eq_ok_iff text m).mp h
  refine ⟨⟨e, he⟩, fun d d' text' hd hrelaid hd' => ?_⟩
  rw [Model.ofJson_eq_ok_iff]
  refine ⟨d', hd', ?_⟩
  obtain rfl := he.eq hd
  clear hd'
  -- induction on the changes, each of which keeps what is read
  induction hrelaid with
  | refl => exact hread
  | tail _ hstep ih => exact keeps_modelRecord hstep ih

/-- Both texts are read as the same model. -/
theorem ofJson_denseText : Model.ofJson plainText = .ok oneGeneralization ∧
    plainDoc.IsWrittenAs plainText ∧
    Relation.ReflTransGen (Relaid modelShape) plainDoc denseDoc ∧
    denseDoc.IsWrittenAs denseText ∧ Model.ofJson denseText = .ok oneGeneralization := by
  have hread : Model.ofJson plainText = .ok oneGeneralization := by decide +kernel
  have hplain : plainDoc.IsWrittenAs plainText :=
    (isWrittenAs_iff_tokens _ _).mpr ⟨(Doc.skip_eq_none_iff _).mp rfl, by decide +kernel⟩
  have hdense : denseDoc.IsWrittenAs denseText :=
    (isWrittenAs_iff_tokens _ _).mpr ⟨(Doc.skip_eq_none_iff _).mp rfl, by decide +kernel⟩
  exact ⟨hread, hplain, plainDoc_relaid, hdense,
    (ofJson_of_relaid hread).2 plainDoc denseDoc denseText hplain plainDoc_relaid hdense⟩

end Document

end OntoWorlds
