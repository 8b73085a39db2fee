import OntoWorlds.Alloy.Declaration
import OntoWorlds.Ontology.Model

/-!
# OntoWorlds — what carries an element

How the elements of a model are carried into the encoding by possible worlds: a class of endurants
becomes a field of `World`, datatypes and enumerations become signatures, and other classes have no
counterpart.

* `Class.base?` — the base signature of a class of endurants.
* `Classifier.hasSignature`, `Classifier.hasWorldField` — whether values of the type have a
  signature, and whether the type is a world field.
* `Model.isRepresented` — whether a relation has a counterpart.
-/

namespace OntoWorlds

open Alloy (BaseSignature Extent)

/-- The stereotypes of classes whose instances are no endurants. -/
def ClassStereotype.isOutsideWorlds : ClassStereotype → Bool
  | .datatype | .enumeration | .event | .situation | .type | .abstract => true
  | _ => false

/-- The base signature of endurants with the given natures. -/
def baseOfNatures (ns : List Nature) : Option BaseSignature :=
  if ns.isEmpty then some .endurant
  else if !ns.any Nature.isEndurant then none
  else if ns.all Nature.isSubstantial then some .object
  else if ns.all Nature.isMoment then some .aspect
  else some .endurant

namespace Class

/-- The base signature that the instances of a class are drawn from; none if the class is no class
of endurants. -/
def base? (c : Class) : Option BaseSignature :=
  match c.stereotype with
  | some s => if s.isOutsideWorlds then none else baseOfNatures c.natures
  | none => baseOfNatures c.natures

/-- Datatypes and enumerations are signatures themselves. -/
def isValueType (c : Class) : Bool := c.isDatatype || c.isEnumeration

/-- The instances of the class are listed by a field of `World`. -/
def hasWorldField (c : Class) : Bool := c.base?.isSome

/-- The type of a value can be written down: the class is a signature or has a base signature. -/
def hasSignature (c : Class) : Bool := c.isValueType || c.hasWorldField

end Class

namespace Classifier

/-- Whether there is a signature for the values; relations have none. -/
def hasSignature : Classifier → Bool
  | ofClass c => c.hasSignature
  | ofRelation _ => false

/-- Whether the type is a field of `World` that lists its instances. -/
def hasWorldField : Classifier → Bool
  | ofClass c => c.hasWorldField
  | ofRelation _ => false

/-- The instances in the world at hand, of a type that is called `name`. -/
def inWorld (x : Classifier) (name : String) : Extent :=
  if x.hasWorldField then .inWorld name else .signature name

/-- The instances in any world, of a type that is called `name`. -/
def acrossWorlds (x : Classifier) (name : String) : Extent :=
  if x.hasWorldField then .acrossWorlds name else .signature name

end Classifier

/-- A relation is represented if both of its ends have a signature and one of them is a world
field, or if it derives a relation from a world field. -/
def Model.isRepresented (m : Model) (r : Relation) : Bool :=
  match m.sourceOf r, m.targetOf r with
  | some (.ofRelation _), some target => r.isDerivation && target.hasWorldField
  | some (.ofClass c), some target =>
    c.hasSignature && target.hasSignature && (c.hasWorldField || target.hasWorldField)
  | _, _ => false

end OntoWorlds
