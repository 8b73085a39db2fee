/-!
# OntoWorlds — stereotypes and natures

The modelling vocabulary of OntoUML: class stereotypes, the natures their instances may have, and
relation stereotypes, with the groups that the encoding tells apart.

Each vocabulary comes with its words in document order (`all`), and `ofWord?` reads a word back
(`ofWord?_word`).
-/

namespace OntoWorlds

/-- The stereotypes a class may carry. -/
inductive ClassStereotype
  | type | historicalRole | historicalRoleMixin | event | situation | category | mixin
  | roleMixin | phaseMixin | kind | collective | quantity | relator | quality | mode | subkind
  | role | phase | enumeration | datatype | abstract
deriving DecidableEq, Repr, Inhabited

namespace ClassStereotype

/-- Every stereotype of classes. -/
def all : List ClassStereotype :=
  [type, historicalRole, historicalRoleMixin, event, situation, category, mixin, roleMixin,
    phaseMixin, kind, collective, quantity, relator, quality, mode, subkind, role, phase,
    enumeration, datatype, abstract]

/-- The stereotype as a document spells it. -/
def word : ClassStereotype → String
  | type => "type"
  | historicalRole => "historicalRole"
  | historicalRoleMixin => "historicalRoleMixin"
  | event => "event"
  | situation => "situation"
  | category => "category"
  | mixin => "mixin"
  | roleMixin => "roleMixin"
  | phaseMixin => "phaseMixin"
  | kind => "kind"
  | collective => "collective"
  | quantity => "quantity"
  | relator => "relator"
  | quality => "quality"
  | mode => "mode"
  | subkind => "subkind"
  | role => "role"
  | phase => "phase"
  | enumeration => "enumeration"
  | datatype => "datatype"
  | abstract => "abstract"

/-- The stereotype with the spelling. -/
def ofWord? (w : String) : Option ClassStereotype := all.find? (·.word == w)

/-- The spelling of a stereotype reads back as the stereotype. -/
theorem ofWord?_word (x : ClassStereotype) : ofWord? x.word = some x := by
  cases x <;> decide +kernel

/-- Every instance is necessarily an instance. -/
def isRigid : ClassStereotype → Bool
  | kind | subkind | collective | quantity | relator | mode | quality | category => true
  | _ => false

/-- Every instance can cease to be one. -/
def isAntiRigid : ClassStereotype → Bool
  | role | phase | roleMixin | phaseMixin | historicalRole | historicalRoleMixin => true
  | _ => false

/-- The stereotypes that give substantials their identity. -/
def isUltimateSortal : ClassStereotype → Bool
  | kind | collective | quantity => true
  | _ => false

/-- The stereotypes of existentially dependent individuals. -/
def isMoment : ClassStereotype → Bool
  | relator | mode | quality => true
  | _ => false

end ClassStereotype

/-- The natures that the instances of a class may have. -/
inductive Nature
  | functionalComplex | collective | quantity | relator | intrinsicMode | extrinsicMode | quality
  | event | situation | type | abstract
deriving DecidableEq, Repr, Inhabited

namespace Nature

/-- Every nature. -/
def all : List Nature :=
  [functionalComplex, collective, quantity, relator, intrinsicMode, extrinsicMode, quality, event,
    situation, type, abstract]

/-- The nature as a document spells it. -/
def word : Nature → String
  | functionalComplex => "functional-complex"
  | collective => "collective"
  | quantity => "quantity"
  | relator => "relator"
  | intrinsicMode => "intrinsic-mode"
  | extrinsicMode => "extrinsic-mode"
  | quality => "quality"
  | event => "event"
  | situation => "situation"
  | type => "type"
  | abstract => "abstract"

/-- The nature with the spelling. -/
def ofWord? (w : String) : Option Nature := all.find? (·.word == w)

/-- The spelling of a nature reads back as the nature. -/
theorem ofWord?_word (x : Nature) : ofWord? x.word = some x := by
  cases x <;> decide +kernel

/-- The natures of objects. -/
def isSubstantial : Nature → Bool
  | functionalComplex | collective | quantity => true
  | _ => false

/-- The natures of aspects. -/
def isMoment : Nature → Bool
  | relator | intrinsicMode | extrinsicMode | quality => true
  | _ => false

/-- Endurants are the substantials and the moments. -/
def isEndurant (n : Nature) : Bool := n.isSubstantial || n.isMoment

end Nature

/-- The natures that a stereotype implies for a class without a restriction of its own. -/
def ClassStereotype.natures : ClassStereotype → List Nature
  | .kind | .subkind | .role | .phase | .historicalRole => [.functionalComplex]
  | .collective => [.collective]
  | .quantity => [.quantity]
  | .relator => [.relator]
  | .mode => [.intrinsicMode, .extrinsicMode]
  | .quality => [.quality]
  | .event => [.event]
  | .situation => [.situation]
  | .type => [.type]
  | .abstract | .datatype | .enumeration => [.abstract]
  | .category | .mixin | .roleMixin | .phaseMixin | .historicalRoleMixin => []

/-- The stereotypes a relation may carry. -/
inductive RelationStereotype
  | material | derivation | comparative | mediation | characterization | externalDependence
  | componentOf | memberOf | subCollectionOf | subQuantityOf | instantiation | termination
  | participational | participation | historicalDependence | creation | manifestation
  | bringsAbout | triggers
deriving DecidableEq, Repr, Inhabited

namespace RelationStereotype

/-- Every stereotype of relations. -/
def all : List RelationStereotype :=
  [material, derivation, comparative, mediation, characterization, externalDependence,
    componentOf, memberOf, subCollectionOf, subQuantityOf, instantiation, termination,
    participational, participation, historicalDependence, creation, manifestation, bringsAbout,
    triggers]

/-- The stereotype as a document spells it. -/
def word : RelationStereotype → String
  | material => "material"
  | derivation => "derivation"
  | comparative => "comparative"
  | mediation => "mediation"
  | characterization => "characterization"
  | externalDependence => "externalDependence"
  | componentOf => "componentOf"
  | memberOf => "memberOf"
  | subCollectionOf => "subCollectionOf"
  | subQuantityOf => "subQuantityOf"
  | instantiation => "instantiation"
  | termination => "termination"
  | participational => "participational"
  | participation => "participation"
  | historicalDependence => "historicalDependence"
  | creation => "creation"
  | manifestation => "manifestation"
  | bringsAbout => "bringsAbout"
  | triggers => "triggers"

/-- The stereotype with the spelling. -/
def ofWord? (w : String) : Option RelationStereotype := all.find? (·.word == w)

/-- The spelling of a stereotype reads back as the stereotype. -/
theorem ofWord?_word (x : RelationStereotype) : ofWord? x.word = some x := by
  cases x <;> decide +kernel

end RelationStereotype

end OntoWorlds
