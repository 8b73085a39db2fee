import OntoWorlds.Proofs.Encoding.Outcomes
import OntoWorlds.Proofs.Encoding.Wanting
import OntoWorlds.Proofs.Module.Gathering

/-!
# OntoWorlds — names in the scope of variables

Accessors and facts bind short variables and name elements in their scope. The variables are no
reserved words, so an element may be called like one of them, and the text then speaks of the
variable in its place. Which names stand in which scopes does not depend on the identifiers, and an
identifier of one letter goes to the first element that wants it; so a variable captures a name
exactly if it is the raw name of that element and the element is used in its scope.

* `Scope` — variables and the names in their scope; `Sections.Captures` — a name is a variable.
* `Planned` — scopes that are the same under all identifiers, up to the identifiers themselves.
* `Takes.planned` — the steps of a run have such scopes.
* `captures_iff` — when a variable captures a name.
-/

namespace OntoWorlds

namespace Alloy

/-! ## Scopes -/

/-- The variables that facts and accessors bind. -/
def boundVariables : List String := ["w", "x", "y", "r", "i"]

/-- A part of a text: the variables bound there and the names of elements that it holds. -/
structure Scope where
  bound : List String
  names : List String
deriving DecidableEq, Repr

/-- The name of the element that an extent speaks of. -/
def Extent.name : Extent → String
  | signature name => name
  | inWorld field => field
  | acrossWorlds field => field

/-- The name of the field that a projection takes columns from. -/
def Projection.field : Projection → String
  | whole field => field
  | outer field => field

/-- The name of the field that a body reads. -/
def AccessorBody.field : AccessorBody → String
  | image p => p.field
  | preimage p => p.field
  | elements field => field

/-- The domain stands before the parameter that it types, so outside of its scope. -/
def Accessor.scopes (a : Accessor) : List Scope := [⟨["x", "w"], [a.range.name, a.body.field]⟩]

/-- Each variable is bound from the one after it on. -/
def Fact.scopes : Fact → List Scope
  | derivation source target relator material sourceMediation targetMediation =>
    [⟨["w"], [source.name]⟩, ⟨["w", "x"], [target.name]⟩, ⟨["w", "x", "y"], [relator]⟩,
      ⟨["w", "x", "y", "r"], [material, sourceMediation, targetMediation]⟩]
  | ordering domain field => [⟨["w"], [domain.name]⟩, ⟨["w", "x"], [field]⟩]
  | functionalOrdering domain field =>
    [⟨["w"], [domain.name]⟩, ⟨["w", "x"], [field]⟩, ⟨["w", "x", "i"], [field]⟩]
  | multiplicity (.inline _ field) _ => [⟨["x"], [field]⟩]
  | multiplicity (.accessed domain accessor) _ =>
    [⟨["w"], [domain.name]⟩, ⟨["w", "x"], [accessor]⟩]
  | rigid .. | antirigid .. | generalization .. | generalizationSet .. => []

/-- Only facts and accessors bind variables. -/
def Fragment.scopes : Fragment → List Scope
  | .fact f => f.scopes
  | .accessor a => a.scopes
  | _ => []

namespace Sections

/-- The scopes of a module are those of its facts and its accessors. -/
def scopes (s : Sections) : List Scope :=
  s.facts.flatMap Fact.scopes ++ s.accessors.flatMap Accessor.scopes

/-- A name that stands in the scope of the variable is called like it. -/
def Captures (s : Sections) (v : String) : Prop :=
  ∃ c ∈ s.scopes, v ∈ c.bound ∧ v ∈ c.names

/-- Captures are found by a search through the scopes. -/
instance (s : Sections) (v : String) : Decidable (s.Captures v) :=
  decidable_of_iff ((s.scopes.any fun c => c.bound.contains v && c.names.contains v) = true)
    (by simp [Captures])

/-- The scopes of gathered fragments are those of the fragments. -/
theorem mem_scopes_ofFragments {fs : List Fragment} {c : Scope} :
    c ∈ (ofFragments fs).scopes ↔ c ∈ fs.flatMap Fragment.scopes := by
  simp only [scopes, List.mem_append, List.mem_flatMap, mem_facts_iff, mem_accessors_iff]
  -- a scope belongs to a fact or to an accessor
  constructor
  · rintro (⟨f, hf, hc⟩ | ⟨a, ha, hc⟩)
    · exact ⟨.fact f, hf, hc⟩
    · exact ⟨.accessor a, ha, hc⟩
  · rintro ⟨f, hf, hc⟩
    -- the other fragments bind nothing
    cases f with
    | fact f => exact Or.inl ⟨f, hf, hc⟩
    | accessor a => exact Or.inr ⟨a, hf, hc⟩
    | _ => cases hc

end Sections

/-- Fragments bind no other variables than these. -/
theorem bound_subset {f : Fragment} {c : Scope} (h : c ∈ f.scopes) :
    c.bound ⊆ boundVariables := by
  have hscopes : ∀ c ∈ f.scopes, c.bound ⊆ boundVariables := by
    -- facts bind the world, elements and positions; an accessor binds its parameter and the world
    unfold Fragment.scopes
    split
    · unfold Fact.scopes
      split <;> simp [boundVariables]
    · simp [Accessor.scopes, boundVariables]
    · simp
  exact hscopes c h

/-- No base signature is called like a variable. -/
theorem word_not_mem_boundVariables (b : BaseSignature) : b.word ∉ boundVariables := by
  cases b <;> decide +kernel

end Alloy

open Alloy

/-- Variables are plain words: they end in no digit, they are not what unnamed relations are called,
and no kind avoids them. -/
theorem Identifier.isPlain_of_mem_boundVariables {v : String} (h : v ∈ boundVariables) :
    IsPlain v := by
  -- five words to look at
  have hv : endsInDigit v = false ∧ v ≠ "relation" ∧ v ≠ "String" ∧
      ∀ kind ∈ ElementKind.all, "String" ++ "_" ++ kind.tag ≠ v := by
    revert v
    decide +kernel
  obtain ⟨hdigit, hrelation, hbuiltin, hdeclared⟩ := hv
  refine ⟨hdigit, hrelation, fun l => ?_⟩
  simp only [Label.declaredBase, declaredBase, Label.base]
  split
  · next hl =>
    -- the base is the built-in word, which is tagged in declarations
    have hbase : base l.name l.kind = "String" := by
      simpa [isBuiltin, builtinSignatures] using hl
    rw [hbase]
    exact ⟨fun heq => absurd heq (hdeclared _ (ElementKind.mem_all _)),
      fun heq => absurd heq.symm hbuiltin⟩
  · -- a base that is not built in is declared as it is
    exact Iff.rfl

/-! ## Scopes under all identifiers -/

/-- A text that is the name of a requested key, or a base signature, under all identifiers. -/
def Spelled (qs : List Request) (F : Names → String) : Prop :=
  (∃ q ∈ qs, ∀ n, F n = n.of q.key) ∨ ∃ b : BaseSignature, ∀ n, F n = b.word

/-- A scope that waits for the identifiers. -/
structure ScopePlan where
  bound : List String
  names : List (Names → String)

/-- The scope under given identifiers. -/
def ScopePlan.under (p : ScopePlan) (n : Names) : Scope := ⟨p.bound, p.names.map (· n)⟩

/-- The scopes of the fragments are planned: they hold requested names and base signatures, the
same under all identifiers. -/
def Planned (qs : List Request) (fs : Names → List Fragment) : Prop :=
  ∃ plans : List ScopePlan, (∀ p ∈ plans, ∀ F ∈ p.names, Spelled qs F) ∧
    ∀ n, (fs n).flatMap Fragment.scopes = plans.map (·.under n)

section

variable {qs : List Request} {fs gs : Names → List Fragment}

/-- The name of an element is spelled by its own request. -/
theorem spelled_request {l : Label} (h : l.request ∈ qs) : Spelled qs fun n => n.own l.id :=
  Or.inl ⟨l.request, h, fun _ => rfl⟩

/-- The name of the field of a relation is spelled by the request for the field. -/
theorem spelled_fieldRequest {r : Relation} (h : r.fieldRequest ∈ qs) :
    Spelled qs fun n => r.fieldName n :=
  Or.inl ⟨r.fieldRequest, h, r.fieldName_eq⟩

/-- An alias is spelled by the request for it. -/
theorem spelled_aliasLike {id other : ElementId} (h : .aliasLike id other ∈ qs) :
    Spelled qs fun n => n.alias id :=
  Or.inl ⟨.aliasLike id other, h, fun _ => rfl⟩

/-- The name of a value signature is spelled by its request, or it is a base signature. -/
theorem spelled_valueSignature {v : ValueSignature} (h : v.requests ⊆ qs) :
    Spelled qs fun n => v.name n := by
  cases v with
  | ofClass c => exact spelled_request (l := c.label) (h List.mem_cons_self)
  | base b => exact Or.inr ⟨b, fun _ => rfl⟩

/-- The extent of an element in a world is spelled by its request, with a world field or without. -/
theorem spelled_inWorld {x : Classifier} (h : x.label.request ∈ qs) :
    Spelled qs fun n => (x.inWorld (n.own x.id)).name := by
  -- with a world field or without, the name in the extent is that of the element
  unfold Classifier.inWorld
  split <;> exact spelled_request h

/-- The extent of an element across worlds is spelled by its request. -/
theorem spelled_acrossWorlds {x : Classifier} (h : x.label.request ∈ qs) :
    Spelled qs fun n => (x.acrossWorlds (n.own x.id)).name := by
  unfold Classifier.acrossWorlds
  split <;> exact spelled_request h

/-- Fragments that bind nothing are planned with no scopes at all. -/
theorem planned_of_silent (h : ∀ n, ∀ f ∈ fs n, f.scopes = []) : Planned qs fs :=
  ⟨[], fun _ hp => absurd hp List.not_mem_nil, fun n => List.flatMap_eq_nil_iff.mpr (h n)⟩

/-- A single fragment that binds nothing is planned. -/
theorem planned_silent {F : Names → Fragment} (h : ∀ n, (F n).scopes = []) :
    Planned qs fun n => [F n] := by
  refine planned_of_silent fun n f hf => ?_
  rw [List.mem_singleton.mp hf]
  exact h n

/-- A single fragment is planned by the plans of its scopes. -/
theorem planned_singleton {F : Names → Fragment} (plans : List ScopePlan)
    (hplans : ∀ p ∈ plans, ∀ G ∈ p.names, Spelled qs G)
    (h : ∀ n, (F n).scopes = plans.map (·.under n)) : Planned qs fun n => [F n] := by
  refine ⟨plans, hplans, fun n => ?_⟩
  rw [List.flatMap_singleton]
  exact h n

/-- The plans of two lists of fragments are put together. -/
theorem planned_append (hf : Planned qs fs) (hg : Planned qs gs) :
    Planned qs fun n => fs n ++ gs n := by
  obtain ⟨ps, hps, hfs⟩ := hf
  obtain ⟨ps', hps', hgs⟩ := hg
  refine ⟨ps ++ ps', fun p hp => ?_, fun n => ?_⟩
  · rcases List.mem_append.mp hp with hp | hp
    · exact hps p hp
    · exact hps' p hp
  · rw [List.flatMap_append, hfs, hgs, List.map_append]

/-- An accessor has one scope, with its range and the field it reads. -/
theorem planned_accessor {name : Names → String} {domain range : Names → Extent}
    {body : Names → AccessorBody} (hrange : Spelled qs fun n => (range n).name)
    (hbody : Spelled qs fun n => (body n).field) :
    Planned qs fun n => [.accessor ⟨name n, domain n, range n, body n⟩] := by
  refine planned_singleton
    [⟨["x", "w"], [fun n => (range n).name, fun n => (body n).field]⟩] ?_ fun _ => rfl
  simp [hrange, hbody]

/-- An ordering has two scopes, for the world and for the element in it. -/
theorem planned_ordering {domain : Names → Extent} {field : Names → String}
    (hdomain : Spelled qs fun n => (domain n).name) (hfield : Spelled qs field) :
    Planned qs fun n => [.fact (.ordering (domain n) (field n))] := by
  refine planned_singleton
    [⟨["w"], [fun n => (domain n).name]⟩, ⟨["w", "x"], [field]⟩] ?_ fun _ => rfl
  simp [hdomain, hfield]

/-- A functional ordering has a third scope, for the position. -/
theorem planned_functionalOrdering {domain : Names → Extent} {field : Names → String}
    (hdomain : Spelled qs fun n => (domain n).name) (hfield : Spelled qs field) :
    Planned qs fun n => [.fact (.functionalOrdering (domain n) (field n))] := by
  refine planned_singleton
    [⟨["w"], [fun n => (domain n).name]⟩, ⟨["w", "x"], [field]⟩, ⟨["w", "x", "i"], [field]⟩]
    ?_ fun _ => rfl
  simp [hdomain, hfield]

/-- The constraint of a derivation has four scopes, one inside the other. -/
theorem planned_derivation {source target : Names → Extent}
    {relator material atSource atTarget : Names → String}
    (hsource : Spelled qs fun n => (source n).name) (htarget : Spelled qs fun n => (target n).name)
    (hrelator : Spelled qs relator) (hmaterial : Spelled qs material)
    (hatSource : Spelled qs atSource) (hatTarget : Spelled qs atTarget) :
    Planned qs fun n => [.fact (.derivation (source n) (target n) (relator n) (material n)
      (atSource n) (atTarget n))] := by
  refine planned_singleton
    [⟨["w"], [fun n => (source n).name]⟩, ⟨["w", "x"], [fun n => (target n).name]⟩,
      ⟨["w", "x", "y"], [relator]⟩, ⟨["w", "x", "y", "r"], [material, atSource, atTarget]⟩]
    ?_ fun _ => rfl
  simp [hsource, htarget, hrelator, hmaterial, hatSource, hatTarget]

/-- The bounds of a count, which are stated or not whatever the identifiers are. -/
theorem planned_boundsFact {counted : Names → Counted} (k : Multiplicity)
    (h : ∀ b, Planned qs fun n => [.fact (.multiplicity (counted n) b)]) :
    Planned qs fun n => k.boundsFact (counted n) := by
  unfold Multiplicity.boundsFact
  split
  · next b hb => exact h b
  · -- no bounds are stated
    exact planned_of_silent fun _ _ hf => absurd hf List.not_mem_nil

/-- The bounds of a custom multiplicity, which are stated or not as well. -/
theorem planned_customFact {counted : Names → Counted} (k : Multiplicity)
    (h : ∀ b, Planned qs fun n => [.fact (.multiplicity (counted n) b)]) :
    Planned qs fun n => k.customFact (counted n) := by
  unfold Multiplicity.customFact
  split
  · exact planned_boundsFact k h
  · exact planned_of_silent fun _ _ hf => absurd hf List.not_mem_nil

/-- The count of an inline field has one scope. -/
theorem planned_inlineCount {datatype field : Names → String} (hfield : Spelled qs field)
    (b : Bounds) :
    Planned qs fun n => [.fact (.multiplicity (.inline (datatype n) (field n)) b)] := by
  refine planned_singleton [⟨["x"], [field]⟩] ?_ fun _ => rfl
  simp [hfield]

/-- The count of an accessed field has two scopes, the domain in the outer one. -/
theorem planned_accessedCount {domain : Names → Extent} {accessor : Names → String}
    (hdomain : Spelled qs fun n => (domain n).name) (haccessor : Spelled qs accessor)
    (b : Bounds) :
    Planned qs fun n => [.fact (.multiplicity (.accessed (domain n) (accessor n)) b)] := by
  refine planned_singleton
    [⟨["w"], [fun n => (domain n).name]⟩, ⟨["w", "x"], [accessor]⟩] ?_ fun _ => rfl
  simp [hdomain, haccessor]

/-! ## The scopes of steps -/

/-- The immutability of an attribute binds nothing. -/
theorem planned_attributeImmutability (p : Property) (owner name : Names → String) :
    Planned qs fun n => p.attributeImmutability (owner n) (name n) := by
  refine planned_of_silent fun n f hf => ?_
  rw [Property.mem_attributeImmutability hf]
  rfl

/-- The fragments of an ordered attribute: its field, the order of it and its accessor. -/
theorem planned_orderedFragments {p : Property} {c : Class} {v : ValueSignature}
    (hp : p.label.request ∈ qs) (hc : c.label.request ∈ qs) (hv : v.requests ⊆ qs) :
    Planned qs (p.orderedFragments c v) := by
  -- each fragment of the list has its own plan
  have hfield := spelled_request hp
  have howner := spelled_request hc
  have hdeclared : Planned qs fun n =>
      [.worldField ⟨n.own p.id, .indexed (n.own c.id) (v.name n)⟩] :=
    planned_silent fun _ => rfl
  have hordering : Planned qs fun n =>
      [.fact (.functionalOrdering (.inWorld (n.own c.id)) (n.own p.id))] :=
    planned_functionalOrdering howner hfield
  have haccessor : Planned qs fun n =>
      [.accessor ⟨n.alias p.id, .acrossWorlds (n.own c.id), .signature (v.name n),
        .elements (n.own p.id)⟩] :=
    planned_accessor (spelled_valueSignature hv) hfield
  exact planned_append (planned_append hdeclared (planned_append hordering haccessor))
    (planned_attributeImmutability p _ _)

/-- The fragments of a plain attribute: its field, its accessor, its count and its selector. -/
theorem planned_plainFragments {p : Property} {c : Class} {v : ValueSignature} {k : Multiplicity}
    (hp : p.label.request ∈ qs) (hc : c.label.request ∈ qs) (hv : v.requests ⊆ qs)
    (hbyname : .aliasLike p.id p.id ∈ qs) : Planned qs (p.plainFragments c v k) := by
  have hfield := spelled_request hp
  have howner := spelled_request hc
  have hdeclared : Planned qs fun n =>
      [.worldField ⟨n.own p.id, .binary (n.own c.id) .set k.quantifier (v.name n)⟩] :=
    planned_silent fun _ => rfl
  have haccessor : Planned qs fun n =>
      [.accessor ⟨n.alias p.id, .acrossWorlds (n.own c.id), .signature (v.name n),
        .image (.whole (n.own p.id))⟩] :=
    planned_accessor (spelled_valueSignature hv) hfield
  have hcount : Planned qs fun n =>
      k.customFact (.accessed (.inWorld (n.own c.id)) (n.alias p.id)) :=
    planned_customFact k (planned_accessedCount howner (spelled_aliasLike hbyname))
  have hselector : Planned qs fun n => [.selector ⟨n.own p.id⟩] :=
    planned_silent fun _ => rfl
  exact planned_append (planned_append (planned_append (planned_append hdeclared haccessor)
    (planned_attributeImmutability p _ _)) hcount) hselector

/-- The fragments of an end: its accessor, its immutability and its count. -/
theorem planned_endFragments {m : Model} {v : EndView} {k : Multiplicity}
    (hqs : v.requests ⊆ qs) : Planned qs fun n =>
      .accessor (v.accessor m n) :: v.immutability n ++ v.multiplicityFact m k n := by
  -- all names that an end reads are among its requests
  have hfield : Spelled qs fun n => v.relation.fieldName n :=
    spelled_fieldRequest (hqs (by simp [EndView.requests]))
  have hown : v.own.label.request ∈ qs := hqs (by simp [EndView.requests])
  have hopposite : v.opposite.label.request ∈ qs := hqs (by simp [EndView.requests])
  have hbyname : .aliasLike v.property.id v.named ∈ qs := hqs (by simp [EndView.requests])
  have hbody : Spelled qs fun n => (v.accessor m n).body.field := by
    unfold EndView.accessor EndView.projection
    -- the field is the one of the relation, whichever side and projection it is
    cases v.side <;> cases v.hasMiddleColumn m <;> exact hfield
  have haccessor : Planned qs fun n => [.accessor (v.accessor m n)] :=
    planned_accessor (spelled_acrossWorlds hown) hbody
  have himmutability : Planned qs v.immutability := by
    -- neither of the two immutabilities binds a variable
    refine planned_of_silent fun n f hf => ?_
    rcases EndView.mem_immutability hf with rfl | rfl <;> rfl
  have hcount : Planned qs (v.multiplicityFact m k) := by
    unfold EndView.multiplicityFact
    split
    · exact planned_boundsFact k
        (planned_accessedCount (spelled_inWorld hopposite) (spelled_aliasLike hbyname))
    · exact planned_of_silent fun _ _ hf => absurd hf List.not_mem_nil
  exact planned_append (planned_append haccessor himmutability) hcount

end

/-- The scopes of a step hold what it has requested. -/
theorem Model.Takes.planned {m : Model} {t : Task} {s : Step} (h : m.Takes t s) :
    Planned s.requests s.fragments := by
  -- one case for each way to take a step; most steps bind no variable at all
  cases h with
  | nothing requests => exact planned_of_silent fun _ _ hf => absurd hf List.not_mem_nil
  | @datatype c hc hvalue => exact planned_silent fun _ => rfl
  | @enumeration c hc hvalue => exact planned_silent fun _ => rfl
  | @extension c base hc hbase =>
    refine planned_of_silent fun n f hf => ?_
    rcases List.mem_cons.mp hf with rfl | hf
    · rfl
    · rcases Class.mem_rigidity hf with rfl | rfl <;> rfl
  | coverings =>
    refine planned_of_silent fun n f hf => ?_
    rcases List.mem_append.mp hf with hf | hf <;> rw [Model.mem_coveringFragment hf] <;> rfl
  | generalization requests general specific => exact planned_silent fun _ => rfl
  | generalizationSet requests members =>
    refine planned_of_silent fun n f hf => ?_
    rw [GeneralizationSet.mem_fragments hf]
    rfl
  | @inline r e hr he hdatatypes => exact planned_silent fun _ => rfl
  | @founded r e hr relator => exact planned_silent fun _ => rfl
  | @indexed r e hr =>
    -- the field binds nothing, its ordering two variables
    have hdeclared : Planned ((r.indexedStep e).requesting (r.endRequests e)).requests fun n =>
        [.worldField ⟨r.fieldName n, .indexed (n.own e.source.id) (n.own e.target.id)⟩] :=
      planned_silent fun _ => rfl
    exact planned_append hdeclared (planned_ordering
      (spelled_inWorld (by simp [Step.requesting, Relation.endRequests]))
      (spelled_fieldRequest (by simp [Step.requesting, Relation.endRequests])))
  | @binary r e hr atSource atTarget => exact planned_silent fun _ => rfl
  | @derivation r material atSource atTarget relator e hmaterial he hrelator =>
    exact planned_derivation (spelled_inWorld (by simp)) (spelled_inWorld (by simp))
      (spelled_request (l := relator.label) (by simp)) (spelled_fieldRequest (by simp))
      (spelled_fieldRequest (by simp)) (spelled_fieldRequest (by simp))
  | @inlineAttribute c p v k hc hdatatype hv =>
    have hdeclared : Planned ([p.label.request, c.label.request] ++ (v.requests ++ [])) fun n =>
        [.inlineField (n.own c.id) ⟨n.own p.id, some k.quantifier, v.name n⟩] :=
      planned_silent fun _ => rfl
    exact planned_append hdeclared (planned_customFact k
      (planned_inlineCount (spelled_request (l := p.label) (by simp))))
  | @orderedAttribute c p v hp =>
    exact planned_orderedFragments (by simp) (by simp) fun q hq => by simp [hq]
  | @plainAttribute c p v k hp =>
    exact planned_plainFragments (by simp) (by simp) (fun q hq => by simp [hq]) (by simp)
  | @relationEnd r p e k side hr hp =>
    exact planned_endFragments (List.subset_append_left _ _)

namespace Model

variable {m : Model} {s : Sections} {v : String}

/-! ## Captured names -/

/-- Whatever the elements are called, the name of this one stands in the scope of the variable. -/
def Exposes (m : Model) (v : String) (id : ElementId) : Prop :=
  ∀ n : Names, ∃ c ∈ (m.fragmentsOf n m.tasks).flatMap Fragment.scopes,
    v ∈ c.bound ∧ n.own id ∈ c.names

/-- The scopes of a step of a task are scopes of all the tasks. -/
theorem mem_scopes_fragmentsOf {n : Names} {ts : List Task} {t : Task} (ht : t ∈ ts) {c : Scope}
    (hc : c ∈ ((m.stepOf t).fragments n).flatMap Fragment.scopes) :
    c ∈ (m.fragmentsOf n ts).flatMap Fragment.scopes := by
  obtain ⟨f, hf, hc⟩ := List.mem_flatMap.mp hc
  exact List.mem_flatMap.mpr ⟨f, List.mem_flatMap.mpr ⟨t, ht, hf⟩, hc⟩

/-- What a scope of the module binds is a variable. -/
theorem mem_boundVariables_of_mem {fs : List Fragment} {c : Scope}
    (hc : c ∈ fs.flatMap Fragment.scopes) (hv : v ∈ c.bound) : v ∈ boundVariables := by
  obtain ⟨f, -, hc⟩ := List.mem_flatMap.mp hc
  exact bound_subset hc hv

/-- A captured name is the one of the first element that wants it, in the scope under all
identifiers. -/
theorem exists_wanting_of_captures (hid : m.ids.Nodup) (h : m.encoding = .ok s)
    (hv : s.Captures v) :
    ∃ l ∈ m.labels, l.base = v ∧ m.firstWanting v = some l.id ∧ m.Exposes v l.id := by
  obtain ⟨rfl, hok⟩ := encoding_ok hid h
  obtain ⟨c, hc, hbound, hname⟩ := hv
  rw [Sections.mem_scopes_ofFragments] at hc
  have hvariable := mem_boundVariables_of_mem hc hbound
  -- so the name was given as it was wanted, to the first who wanted it
  have hplain := Identifier.isPlain_of_mem_boundVariables hvariable
  obtain ⟨f, hf, hcf⟩ := List.mem_flatMap.mp hc
  obtain ⟨t, ht, hft⟩ := mem_fragments_iff.mp hf
  obtain ⟨plans, hspelled, hplans⟩ := (takes_of_mem_tasks hok ht).planned
  -- the scope comes from a plan, and the name from one of its texts
  have hmem : c ∈ plans.map (·.under m.names) := by
    rw [← hplans]
    exact List.mem_flatMap.mpr ⟨f, hft, hcf⟩
  obtain ⟨p, hp, rfl⟩ := List.mem_map.mp hmem
  obtain ⟨F, hF, hFv⟩ := List.mem_map.mp hname
  rcases hspelled p hp F hF with ⟨q, hq, hkey⟩ | ⟨b, hb⟩
  · -- the text is the name of a requested key, so the key is the one of the first to want it
    have hrequest : q ∈ m.requests := mem_requests_iff.mpr ⟨t, ht, hq⟩
    have hof : m.names.of q.key = v := by rw [← hkey, hFv]
    obtain ⟨id, hown, hfirst⟩ := (of_eq_iff hid hplain hrequest).mp hof
    obtain ⟨l, hl, rfl, hbase⟩ := exists_label_of_firstWanting hid hplain hfirst
    refine ⟨l, hl, hbase, hfirst, fun n => ⟨p.under n, mem_scopes_fragmentsOf ht ?_, hbound, ?_⟩⟩
    · rw [hplans]
      exact List.mem_map_of_mem hp
    · refine List.mem_map.mpr ⟨F, hF, ?_⟩
      rw [hkey, hown]
      rfl
  · -- no base signature is called like a variable
    have hword : v = b.word := by rw [← hFv, hb]
    rw [hword] at hvariable
    exact absurd hvariable (word_not_mem_boundVariables b)

/-- An element that is the first to want the variable, and is used in its scope, is captured. -/
theorem captures_of_wanting (hid : m.ids.Nodup) (h : m.encoding = .ok s) {id : ElementId}
    (hfirst : m.firstWanting v = some id) (hexposed : m.Exposes v id) : s.Captures v := by
  obtain ⟨rfl, -⟩ := encoding_ok hid h
  -- under the identifiers of the run, the name in the scope is the one of the first who wanted it
  obtain ⟨c, hc, hbound, hname⟩ := hexposed m.names
  have hplain := Identifier.isPlain_of_mem_boundVariables (mem_boundVariables_of_mem hc hbound)
  rw [own_of_firstWanting hid hplain hfirst] at hname
  exact ⟨c, Sections.mem_scopes_ofFragments.mpr hc, hbound, hname⟩

/-- **Capture.** A variable captures a name exactly if some element is called like it by its raw
name, is the first to want this, and is used in the scope of the variable. -/
theorem captures_iff (hid : m.ids.Nodup) (h : m.encoding = .ok s) (v : String) :
    s.Captures v ↔
      ∃ l ∈ m.labels, l.base = v ∧ m.firstWanting v = some l.id ∧ m.Exposes v l.id := by
  constructor
  · exact exists_wanting_of_captures hid h
  · rintro ⟨l, -, -, hfirst, hexposed⟩
    exact captures_of_wanting hid h hfirst hexposed

/-- A person with an attribute of one letter. -/
def marked : Model where
  classes := [
    { id := ⟨"person"⟩, name := some "Person", stereotype := some .kind
      attributes := [{ id := ⟨"mark"⟩, name := some "x", type := some ⟨"date"⟩ }] },
    { id := ⟨"date"⟩, name := some "Date", stereotype := some .datatype }]

/-- The evaluation of the model: the variable `x` is captured. -/
theorem marked_captures : marked.encoding.toOption.map (fun s => decide (s.Captures "x")) =
    some true := by
  decide +kernel

/-- The attribute is the first to want its letter, and its accessor speaks of the parameter. -/
theorem marked_captures_iff :
    marked.ids.Nodup ∧ ∃ s, marked.encoding = .ok s ∧ s.Captures "x" ∧
      ∃ l ∈ marked.labels, l.base = "x" ∧ marked.firstWanting "x" = some l.id ∧
        marked.Exposes "x" l.id := by
  have hid : marked.ids.Nodup := by decide +kernel
  have hcaptures := marked_captures
  obtain ⟨s, hs⟩ := exists_encoding_of_isOk (m := marked) (by decide +kernel)
  rw [hs] at hcaptures
  have hx : s.Captures "x" := of_decide_eq_true (Option.some.inj hcaptures)
  exact ⟨hid, s, hs, hx, (captures_iff hid hs "x").mp hx⟩

/-- So variables do capture names, in models with distinct ids. -/
theorem not_forall_not_captures :
    ¬ ∀ (m : Model) (s : Sections), m.ids.Nodup → m.encoding = .ok s → ∀ v, ¬ s.Captures v := by
  intro h
  have hcaptures := marked_captures
  obtain ⟨s, hs⟩ := exists_encoding_of_isOk (m := marked) (by decide +kernel)
  rw [hs] at hcaptures
  exact h marked s (by decide +kernel) hs "x" (of_decide_eq_true (Option.some.inj hcaptures))

end Model

end OntoWorlds
