import OntoWorlds.Alloy.Module
import OntoWorlds.Worlds.Accessor
import OntoWorlds.Worlds.Extension

/-!
# OntoWorlds — sessions and runs

A session encodes a model task by task; it holds the registry of identifiers, everything emitted so
far, and the ids of the properties that have had their turn. A property has one turn only.

* `Model.tasks` — the tasks of a run, in order: classes, coverings, generalizations,
  generalization sets, relations, properties.
* `Session.performAll` — performs tasks up to the first defect.
* `Model.encode` — a whole run: the module text and the report, or the defect.
-/

namespace OntoWorlds

open Alloy

/-- What a session can be asked to encode. -/
inductive Task
  | klass (c : Class)
  | coverings
  | generalization (g : Generalization)
  | generalizationSet (s : GeneralizationSet)
  | relation (r : Relation)
  | property (owner : Classifier) (p : Property)
deriving DecidableEq, Repr

namespace Model

/-- The step that carries out a task. -/
def stepOf (m : Model) : Task → Step
  | .klass c => c.step
  | .coverings => m.coveringStep
  | .generalization g => m.generalizationStep g
  | .generalizationSet s => m.generalizationSetStep s
  | .relation r => m.relationStep r
  | .property owner p => m.propertyStep owner p

/-- The tasks of a run, in order. -/
def tasks (m : Model) : List Task :=
  m.classes.map .klass
    -- a base is covered once all classes have been gone through
    ++ [.coverings]
    ++ m.generalizations.map .generalization
    ++ m.generalizationSets.map .generalizationSet
    ++ m.relations.map .relation
    ++ m.properties.map fun (owner, p) => .property owner p

end Model

/-- The state of a session between two tasks. -/
structure Session where
  registry : Registry := {}
  /-- Everything emitted, in order. -/
  emitted : List Fragment := []
  /-- The properties that have had their turn. -/
  visited : List ElementId := []

namespace Session

/-- Takes a step: serves its requests and then emits its fragments. -/
def take (s : Session) (step : Step) : Session × Option Defect :=
  -- the registry after the requests is the one that the fragments are named by
  let registry := s.registry.serveAll step.requests
  ({ s with registry, emitted := s.emitted ++ step.fragments registry.view }, step.failure)

/-- Marks a property as having had its turn. -/
def visit (s : Session) (id : ElementId) : Session := { s with visited := id :: s.visited }

/-- Performs one task. A property is marked before its step is taken, so a property whose step fails
has had its turn as well. -/
def perform (m : Model) (s : Session) (t : Task) : Session × Option Defect :=
  match t with
  | .property _ p =>
    if s.visited.contains p.id then (s, none) else (s.visit p.id).take (m.stepOf t)
  | t => s.take (m.stepOf t)

/-- Performs tasks until one meets a defect. -/
def performAll (m : Model) : Session → List Task → Session × Option Defect
  | s, [] => (s, none)
  | s, t :: ts =>
    match s.perform m t with
    | (s, none) => performAll m s ts
    | (s, some d) => (s, some d)

/-- Tasks without a defect can be performed before the rest. -/
theorem performAll_append {m : Model} {s s' : Session} {ts : List Task}
    (h : s.performAll m ts = (s', none)) (us : List Task) :
    s.performAll m (ts ++ us) = s'.performAll m us := by
  fun_induction performAll m s ts with
  | case1 s => cases h; rfl
  | case2 s t ts s₁ hs ih => simp only [List.cons_append, performAll, hs, ih h]
  | case3 s t ts s₁ d hs => cases h

/-- The sections of the module as they stand. -/
def sections (s : Session) : Sections := .ofFragments s.emitted

end Session

namespace Model

/-- The session after a run, and the defect that ended it. -/
def run (m : Model) : Session × Option Defect := ({} : Session).performAll m m.tasks

/-- The sections of the module of a run without defects. -/
def encoding (m : Model) : Except Defect Sections :=
  match m.run with
  | (s, none) => .ok s.sections
  | (_, some d) => .error d

/-- The text of the module, and how much it declares. -/
def encode (m : Model) (o : RunScope) : Except Defect (String × Report) :=
  m.encoding.map fun s => (s.text o, s.report)

end Model

end OntoWorlds
