import OntoWorlds.Worlds.Step

/-!
# OntoWorlds — encoding generalizations

Classes and relations are both world fields, so a generalization is an inclusion of one field in
another, and a generalization set states that the specific fields exclude each other or make up the
general one. Where an element has no field nothing is stated.
-/

namespace OntoWorlds

open Alloy

namespace Relation

/-- A relation with a name has it normalized; one without gets an alias. -/
def fieldRequest (r : Relation) : Request :=
  if r.label.isNamed then r.label.request else .alias r.id "relation"

/-- The name of the world field of the relation. -/
def fieldName (r : Relation) (n : Names) : String :=
  if r.label.isNamed then n.own r.id else n.alias r.id

end Relation

namespace Classifier

/-- The request for the name of the world field of a class or relation that has one. -/
def fieldRequest : Classifier → Request
  | ofClass c => c.label.request
  | ofRelation r => r.fieldRequest

/-- The name of the world field of a class or relation that has one. -/
def fieldName (n : Names) : Classifier → String
  | ofClass c => n.own c.id
  | ofRelation r => r.fieldName n

/-- Both are classes, or both are relations. -/
def isLike : Classifier → Classifier → Bool
  | ofClass _, ofClass _ => true
  | ofRelation _, ofRelation _ => true
  | _, _ => false

end Classifier

namespace Model

/-- Whether the field of a class or relation can be named in a generalization. -/
def hasField (m : Model) : Classifier → Bool
  | .ofClass c => c.hasWorldField
  | .ofRelation r => m.isRepresented r

/-- The element that `owner` refers to by `id`, which has to be in the model. -/
def resolve (m : Model) (owner id : ElementId) : Except Defect Classifier :=
  match m.find id with
  | some x => .ok x
  | none => .error (.danglingReference owner id)

end Model

/-- What a generalization comes to: the requests it makes, and the general and the specific element
if both have fields. -/
structure Subsumption where
  requests : List Request
  fields : Option (Classifier × Classifier)

namespace Model

/-- The fields are requested for each end that has one, even if the other has none. -/
def subsumption (m : Model) (general specific : Classifier) : Subsumption :=
  -- an element of the other sort is passed over, and nothing is requested for it
  if general.isLike specific then
    { requests := ([general, specific].filter m.hasField).map Classifier.fieldRequest
      fields := if m.hasField general && m.hasField specific then some (general, specific)
        else none }
  else { requests := [], fields := none }

/-- What a generalization comes to, once both of its ends are found; the general one is looked up
first. -/
def subsumptionOf (m : Model) (g : Generalization) : Except Defect Subsumption := do
  let general ← m.resolve g.id g.general
  let specific ← m.resolve g.id g.specific
  return m.subsumption general specific

/-- The specific field is included in the general one, if both exist. -/
def generalizationStep (m : Model) (g : Generalization) : Step :=
  .given (m.subsumptionOf g) fun s =>
    { requests := s.requests
      fragments := fun n => match s.fields with
        | some (general, specific) =>
          [.fact (.generalization (specific.fieldName n) (general.fieldName n))]
        | none => [] }

end Model

/-! ## Generalization sets -/

/-- The pairs of an element and a later one. -/
def pairs {α : Type} : List α → List (α × α)
  | [] => []
  | a :: as => as.map (fun b => (a, b)) ++ pairs as

namespace GeneralizationSet

/-- The lines of a set, given the general and the specific element of each member. The general
element is the one of the first member. -/
def lines (s : GeneralizationSet) (members : List (Classifier × Classifier)) (n : Names) :
    List SetLine :=
  let specifics := members.map fun (_, specific) => specific.fieldName n
  -- each pair of specifics once, in the order of the members
  (if s.isDisjoint then (pairs specifics).map fun (a, b) => .disjoint a b else [])
    ++ match s.isComplete, members with
      | true, (general, _) :: _ => [.covered (general.fieldName n) specifics]
      | _, _ => []

/-- A fact with the lines, if there are any. -/
def fragments (s : GeneralizationSet) (members : List (Classifier × Classifier)) (n : Names) :
    List Fragment :=
  let lines := s.lines members n
  if lines.isEmpty then [] else [.fact (.generalizationSet lines)]

end GeneralizationSet

namespace Model

/-- Goes through the members in order; `seen` are those that came before. A missing generalization
or end is a defect, a member without fields ends the step with no fact. -/
def membersStep (m : Model) (s : GeneralizationSet) :
    (members : List ElementId) → (seen : List (Classifier × Classifier)) → Step
  | [], seen => { fragments := s.fragments seen }
  | id :: rest, seen =>
    match m.findGeneralization id with
    | none => .fail (.danglingReference s.id id)
    | some g =>
      .given (m.subsumptionOf g) fun subsumption =>
        -- the requests of a member stay made, also if it ends the step
        (match subsumption.fields with
          | some fields => membersStep m s rest (seen ++ [fields])
          | none => .skip).requesting subsumption.requests

/-- A set that is neither disjoint nor complete states nothing, and its members are not looked at.
-/
def generalizationSetStep (m : Model) (s : GeneralizationSet) : Step :=
  if s.isDisjoint || s.isComplete then m.membersStep s s.members [] else .skip

end Model

end OntoWorlds
