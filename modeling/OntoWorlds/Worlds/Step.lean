import OntoWorlds.Identifier.Registry
import OntoWorlds.Worlds.Carrier

/-!
# OntoWorlds — steps of the encoding

One step encodes one element of a model. It is a plan in two parts that do not look at the state of
the run: the identifiers it requests, in order, and the fragments it emits once the requests have
been served. Requests are served in order and an identifier never changes once it is given, so the
fragments of a step depend on the names alone.

* `Request` — a demand for an identifier; `Registry.serve` answers it.
* `Step` — requests, fragments, and the defect that ends the step early, if any.
-/

namespace OntoWorlds

open Alloy (Fragment)

/-! ## Defects -/

/-- A defect of the model that ends a run. -/
inductive Defect
  /-- A property without a type that the encoding can use. -/
  | unresolvedType (property : ElementId)
  /-- A relation with fewer than two ends. -/
  | missingRelationEnd (relation : ElementId)
  /-- A property whose multiplicity is no range; the text is kept as it was found. -/
  | invalidCardinality (expression : String)
  /-- A generalization or set that refers to an element the model does not have. -/
  | danglingReference (owner element : ElementId)
deriving DecidableEq, Repr

/-- What is reported of a defect. -/
def Defect.message : Defect → String
  | unresolvedType p => "property " ++ p.text ++ " has no resolvable type"
  | missingRelationEnd r =>
    "relation " ++ r.text ++ " does not have both a source and a target end"
  | invalidCardinality e => "malformed cardinality `" ++ e ++ "`"
  | danglingReference o e => o.text ++ " refers to unknown element " ++ e.text

/-! ## Names -/

/-- The identifiers given so far, by id. -/
structure Names where
  own : ElementId → String
  «alias» : ElementId → String

/-- The identifiers a registry has given, and the empty text where it has given none. -/
def Registry.view (r : Registry) : Names where
  own id := (r.nameOf? id).getD ""
  «alias» id := (r.aliasOf? id).getD ""

/-- A demand for the name or the alias of an id, with the base to reserve it from. -/
inductive Request
  | name (id : ElementId) (base : String)
  | «alias» (id : ElementId) (base : String)
  /-- An alias whose base is the name that another id has been given. -/
  | aliasLike (id other : ElementId)
deriving DecidableEq, Repr

namespace Registry

/-- Answers one request: the registry afterwards, since the answer is read through `view`. -/
def serve (r : Registry) : Request → Registry
  | .name id base => (r.name id base).2
  | .alias id base => (r.alias id base).2
  | .aliasLike id other => (r.alias id (r.view.own other)).2

/-- Answers requests in order. -/
def serveAll (r : Registry) (requests : List Request) : Registry := requests.foldl serve r

/-- Requests can be answered in two portions. -/
theorem serveAll_append (r : Registry) (as bs : List Request) :
    r.serveAll (as ++ bs) = (r.serveAll as).serveAll bs :=
  List.foldl_append

end Registry

/-- The request for the name of an element. -/
def Label.request (l : Label) : Request := .name l.id l.base

/-- The request for the name of an element that the module declares itself. -/
def Label.declaredRequest (l : Label) : Request := .name l.id l.declaredBase

/-! ## Steps -/

/-- The plan of a step: requests first, then fragments over the names that answer them, and the
defect that ends the step, if any. -/
structure Step where
  requests : List Request := []
  fragments : Names → List Fragment := fun _ => []
  failure : Option Defect := none

namespace Step

/-- The step that emits nothing. -/
def skip : Step := {}

/-- A step that ends at once. -/
def fail (d : Defect) : Step := { failure := some d }

/-- The step for a value, or the defect found in its place. -/
def given {α : Type} (e : Except Defect α) (next : α → Step) : Step :=
  match e with
  | .error d => fail d
  | .ok a => next a

/-- Requests some identifiers before the step. -/
def requesting (requests : List Request) (s : Step) : Step :=
  { s with requests := requests ++ s.requests }

/-- Emits some fragments before the step. -/
def emitting (fragments : Names → List Fragment) (s : Step) : Step :=
  { s with fragments := fun n => fragments n ++ s.fragments n }

/-- A value that is there hands over to the next step. -/
@[simp] theorem given_ok {α : Type} (a : α) (next : α → Step) : given (.ok a) next = next a := rfl

/-- Requests made first do not change whether the step ends in a defect. -/
@[simp] theorem requesting_failure (requests : List Request) (s : Step) :
    (s.requesting requests).failure = s.failure := rfl

/-- Requests made first do not change what the step emits. -/
@[simp] theorem requesting_fragments (requests : List Request) (s : Step) :
    (s.requesting requests).fragments = s.fragments := rfl

end Step

/-! ## Multiplicities of properties -/

/-- The multiplicity of a property, or the defect of its expression. -/
def Property.multiplicity (p : Property) : Except Defect Multiplicity :=
  match Multiplicity.parse p.cardinality with
  | some m => .ok m
  | none => .error (.invalidCardinality p.cardinality)

end OntoWorlds
