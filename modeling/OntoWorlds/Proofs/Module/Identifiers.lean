import Mathlib.Data.List.Flatten
import OntoWorlds.Proofs.Encoding.Emission
import OntoWorlds.Proofs.Module.Gathering

/-!
# OntoWorlds — declared identifiers are distinct

Classes, literals and relations declare one identifier each, a property declares up to two: its
field and its accessor. Each of them is the name or the alias of the element's own id, requested by
the task that declares it. In a model with distinct ids these keys are distinct, so the registry
keeps the identifiers apart, from each other and from the words that every module declares.

* `Task.declaredKeys` — the keys of what a task may declare.
* `Takes.declares` — a step declares identifiers of these keys only, each at most once.
* `nodup_declared` — the fragments of a run declare distinct identifiers.
* `nodup_identifiers` — so does the module.
-/

namespace OntoWorlds

open Alloy
open Identifier (declaredWords isBuiltin)

/-! ## Keys of declarations -/

/-- The keys of what a task may declare. -/
def Task.declaredKeys : Task → List Key
  | .klass c => .own c.id :: c.literals.map fun l => .own l.id
  | .relation r => [r.fieldRequest.key]
  | .property _ p => [.own p.id, .byname p.id]
  | .coverings | .generalization _ | .generalizationSet _ => []

/-- Both keys of an id. -/
def Key.both (id : ElementId) : List Key := [.own id, .byname id]

/-- A relation declares one of the two keys of its id. -/
theorem Relation.sublist_both (r : Relation) : [r.fieldRequest.key].Sublist (Key.both r.id) := by
  unfold Relation.fieldRequest
  split
  · exact List.singleton_sublist.mpr List.mem_cons_self
  · exact List.singleton_sublist.mpr (List.mem_cons_of_mem _ List.mem_cons_self)

/-- Distinct ids have distinct keys. -/
theorem Key.nodup_both {ids : List ElementId} (h : ids.Nodup) : (ids.flatMap Key.both).Nodup := by
  rw [List.nodup_flatMap]
  refine ⟨fun id _ => ?_, h.imp ?_⟩
  · -- the two keys of one id
    simp [Key.both]
  · -- keys of different ids
    intro id id' hne k hk hk'
    simp only [Key.both, List.mem_cons, List.not_mem_nil, or_false] at hk hk'
    rcases hk with rfl | rfl <;> rcases hk' with hk' | hk' <;> cases hk' <;> exact hne rfl

namespace Model

variable {m : Model}

/-- The keys of all declarations belong to the ids of classes with literals, relations and
properties, in this order. -/
theorem declaredKeys_sublist (m : Model) :
    (m.tasks.flatMap Task.declaredKeys).Sublist
      ((m.classAndLiteralIds ++ m.relationIds ++ m.propertyIds).flatMap Key.both) := by
  -- each part is shown to be a sublist of the keys of its ids
  have hown : ∀ ids : List ElementId, (ids.map Key.own).Sublist (ids.flatMap Key.both) := by
    intro ids
    rw [← List.flatMap_singleton' (ids.map Key.own), List.flatMap_map]
    exact List.Sublist.flatMap_right ids fun id _ => List.singleton_sublist.mpr List.mem_cons_self
  have hclasses : (m.classes.flatMap fun c => (Task.klass c).declaredKeys).Sublist
      (m.classAndLiteralIds.flatMap Key.both) := by
    rw [classAndLiteralIds, List.flatMap_assoc]
    refine List.Sublist.flatMap_right _ fun c _ => ?_
    have h := hown (c.id :: c.literals.map (·.id))
    rwa [List.map_cons, List.map_map] at h
  have hrelations : (m.relations.flatMap fun r => (Task.relation r).declaredKeys).Sublist
      (m.relationIds.flatMap Key.both) := by
    rw [relationIds, List.flatMap_map]
    exact List.Sublist.flatMap_right _ fun r _ => r.sublist_both
  have hproperties : (m.properties.flatMap fun q => (Task.property q.1 q.2).declaredKeys)
      = m.propertyIds.flatMap Key.both := by
    rw [propertyIds, List.flatMap_map]
    rfl
  -- coverings and generalizations declare nothing
  have hnone : ∀ {α : Type} (l : List α), (l.flatMap fun _ => ([] : List Key)) = [] :=
    fun l => List.flatMap_eq_nil_iff.mpr fun _ _ => rfl
  simp only [tasks, List.flatMap_append, List.flatMap_map, List.flatMap_cons, List.flatMap_nil]
  rw [hproperties, show Task.coverings.declaredKeys = [] from rfl]
  simp only [Task.declaredKeys, hnone, List.append_nil]
  exact (hclasses.append hrelations).append_right _

/-- In a model with distinct ids, no two declarations have the same key. -/
theorem nodup_declaredKeys (hid : m.ids.Nodup) : (m.tasks.flatMap Task.declaredKeys).Nodup :=
  (Key.nodup_both (nodup_idsByKind hid)).sublist m.declaredKeys_sublist

end Model

/-! ## Declarations of steps -/

/-- What a step declares is called by some of the keys, each at most once, and requested by it. -/
def Step.Declares (ks : List Key) (s : Step) : Prop :=
  ∃ ks', ks'.Sublist ks ∧ ks' ⊆ s.requests.map Request.key ∧
    ∀ n, ((s.fragments n).flatMap Fragment.identifiers).Sublist (ks'.map n.of)

namespace Step

variable {ks : List Key} {s : Step}

/-- A step that declares nothing declares it under any keys. -/
theorem declares_of_silent (h : ∀ n, ∀ f ∈ s.fragments n, f.identifiers = []) : s.Declares ks := by
  refine ⟨[], List.nil_sublist ks, List.nil_subset _, fun n => ?_⟩
  rw [List.flatMap_eq_nil_iff.mpr (h n)]
  exact List.Sublist.slnil

/-- Fragments of which the first declares something, and the rest nothing. -/
theorem declares_of_head (ks' : List Key) (hks : ks'.Sublist ks)
    (hrequests : ks' ⊆ s.requests.map Request.key)
    (h : ∀ n, ∃ f fs, s.fragments n = f :: fs ∧ f.identifiers.Sublist (ks'.map n.of) ∧
      ∀ g ∈ fs, g.identifiers = []) : s.Declares ks := by
  -- the other fragments do not count, so only the first one is left
  refine ⟨ks', hks, hrequests, fun n => ?_⟩
  obtain ⟨f, fs, heq, hf, hfs⟩ := h n
  rw [heq, List.flatMap_cons, List.flatMap_eq_nil_iff.mpr hfs, List.append_nil]
  exact hf

end Step

section

variable {p : Property} {c : Class} {s : ValueSignature} {n : Names}

/-- An ordered attribute declares its field and its accessor. -/
theorem Property.identifiers_orderedFragments :
    (p.orderedFragments c s n).flatMap Fragment.identifiers = [n.own p.id, n.alias p.id] := by
  have hrest : (p.attributeImmutability (n.own c.id) (n.own p.id)).flatMap Fragment.identifiers
      = [] := by
    refine List.flatMap_eq_nil_iff.mpr fun f hf => ?_
    rw [mem_attributeImmutability hf]
    rfl
  rw [orderedFragments, List.flatMap_append, hrest, List.append_nil]
  rfl

/-- So does a plain attribute, whose immutability and bounds declare nothing. -/
theorem Property.identifiers_plainFragments {k : Multiplicity} :
    (p.plainFragments c s k n).flatMap Fragment.identifiers = [n.own p.id, n.alias p.id] := by
  have himmutable : (p.attributeImmutability (n.own c.id) (n.own p.id)).flatMap
      Fragment.identifiers = [] := by
    refine List.flatMap_eq_nil_iff.mpr fun f hf => ?_
    rw [mem_attributeImmutability hf]
    rfl
  have hbounds : (k.customFact (.accessed (.inWorld (n.own c.id)) (n.alias p.id))).flatMap
      Fragment.identifiers = [] := by
    refine List.flatMap_eq_nil_iff.mpr fun f hf => ?_
    obtain ⟨b, rfl⟩ := Multiplicity.mem_customFact hf
    rfl
  rw [plainFragments, List.flatMap_append, List.flatMap_append, List.flatMap_append, himmutable,
    hbounds, List.append_nil]
  rfl

end

/-- A step declares identifiers of the keys of its task. -/
theorem Model.Takes.declares {m : Model} {t : Task} {s : Step} (h : m.Takes t s) :
    s.Declares t.declaredKeys := by
  -- one case for each way to take a step: most declare with their first fragment or not at all
  cases h with
  | nothing requests => exact Step.declares_of_silent fun n f hf => absurd hf List.not_mem_nil
  | @datatype c hc hvalue =>
    refine ⟨[.own c.id], List.singleton_sublist.mpr List.mem_cons_self,
      List.Subset.refl _, fun n => ?_⟩
    simp only [Class.datatypeStep, List.flatMap_cons, List.flatMap_nil, List.append_nil,
      Fragment.identifiers]
    -- a built-in signature is not declared
    split
    · exact List.Sublist.refl _
    · exact List.nil_sublist _
  | @enumeration c hc hvalue =>
    refine Step.declares_of_head _ (List.Sublist.refl _) ?_ fun n =>
      ⟨_, [], rfl, ?_, fun g hg => absurd hg List.not_mem_nil⟩
    · simp only [Task.declaredKeys, Class.enumerationStep, List.map_cons, List.map_map]
      exact List.Subset.refl _
    · simp only [Task.declaredKeys, List.map_cons, List.map_map]
      exact List.Sublist.refl _
  | @extension c base hc hbase =>
    refine Step.declares_of_head [.own c.id] (List.singleton_sublist.mpr List.mem_cons_self)
      (List.Subset.refl _) fun n => ⟨_, _, rfl, List.Sublist.refl _, fun g hg => ?_⟩
    rcases Class.mem_rigidity hg with rfl | rfl <;> rfl
  | coverings =>
    refine Step.declares_of_silent fun n f hf => ?_
    rcases List.mem_append.mp hf with hf | hf <;> rw [Model.mem_coveringFragment hf] <;> rfl
  | generalization requests general specific =>
    refine Step.declares_of_silent fun n f hf => ?_
    rw [List.mem_singleton.mp hf]
    rfl
  | generalizationSet requests members =>
    refine Step.declares_of_silent fun n f hf => ?_
    rw [GeneralizationSet.mem_fragments hf]
    rfl
  | @inline r e hr he hdatatypes =>
    refine Step.declares_of_head _ (List.Sublist.refl _)
      (by simp [Task.declaredKeys, Relation.inlineStep])
      fun n => ⟨_, [], rfl, ?_, fun g hg => absurd hg List.not_mem_nil⟩
    simp [Fragment.identifiers, Task.declaredKeys, Relation.fieldName_eq]
  | @founded r e hr relator =>
    refine Step.declares_of_head _ (List.Sublist.refl _)
      (by simp [Task.declaredKeys, Relation.endRequests, Step.requesting])
      fun n => ⟨_, [], rfl, ?_, fun g hg => absurd hg List.not_mem_nil⟩
    simp [Fragment.identifiers, Task.declaredKeys, Relation.fieldName_eq]
  | @indexed r e hr =>
    refine Step.declares_of_head _ (List.Sublist.refl _)
      (by simp [Task.declaredKeys, Relation.endRequests, Step.requesting])
      fun n => ⟨_, _, rfl, ?_, fun g hg => ?_⟩
    · simp [Fragment.identifiers, Task.declaredKeys, Relation.fieldName_eq]
    · rw [List.mem_singleton.mp hg]
      rfl
  | @binary r e hr atSource atTarget =>
    refine Step.declares_of_head _ (List.Sublist.refl _)
      (by simp [Task.declaredKeys, Relation.endRequests])
      fun n => ⟨_, [], rfl, ?_, fun g hg => absurd hg List.not_mem_nil⟩
    simp [Fragment.identifiers, Task.declaredKeys, Relation.fieldName_eq]
  | derivation hmaterial he hrelator =>
    refine Step.declares_of_silent fun n f hf => ?_
    rw [List.mem_singleton.mp hf]
    rfl
  | @inlineAttribute c p s k hc hdatatype hs =>
    refine Step.declares_of_head [.own p.id] (List.singleton_sublist.mpr List.mem_cons_self)
      (by simp [Request.key, Label.request, Property.label])
      fun n => ⟨_, _, rfl, List.Sublist.refl _, fun g hg => ?_⟩
    obtain ⟨b, rfl⟩ := Multiplicity.mem_customFact hg
    rfl
  | @orderedAttribute c p s hp =>
    refine ⟨[.own p.id, .byname p.id], List.Sublist.refl _, ?_, fun n => ?_⟩
    · simp [Request.key, Label.request, Property.label]
    · rw [Property.identifiers_orderedFragments]
      exact List.Sublist.refl _
  | @plainAttribute c p s k hp =>
    refine ⟨[.own p.id, .byname p.id], List.Sublist.refl _, ?_, fun n => ?_⟩
    · simp [Request.key, Label.request, Property.label]
    · rw [Property.identifiers_plainFragments]
      exact List.Sublist.refl _
  | @relationEnd r p e k side hr hp =>
    -- only the accessor is declared here, the field belongs to the relation
    refine Step.declares_of_head [.byname p.id]
      (List.singleton_sublist.mpr (List.mem_cons_of_mem _ List.mem_cons_self)) ?_
      fun n => ⟨_, _, rfl, ?_, fun g hg => ?_⟩
    · simp [EndView.requests, Model.property_ofEnds, Request.key]
    · rw [Fragment.identifiers, EndView.accessor, Model.property_ofEnds]
      exact List.Sublist.refl _
    · rcases List.mem_append.mp hg with hg | hg
      · rcases EndView.mem_immutability hg with rfl | rfl <;> rfl
      · obtain ⟨b, rfl⟩ := EndView.mem_multiplicityFact hg
        rfl

namespace Model

variable {m : Model}

/-- What tasks declare is called by some of their keys, each at most once, and requested. -/
theorem declares_fragmentsOf {ts : List Task}
    (h : ∀ t ∈ ts, (m.stepOf t).Declares t.declaredKeys) :
    ∃ ks, ks.Sublist (ts.flatMap Task.declaredKeys) ∧ ks ⊆ (m.requestsOf ts).map Request.key ∧
      ∀ n, ((m.fragmentsOf n ts).flatMap Fragment.identifiers).Sublist (ks.map n.of) := by
  induction ts with
  | nil => exact ⟨[], List.Sublist.slnil, List.nil_subset _, fun n => List.Sublist.slnil⟩
  | cons t ts ih =>
    -- the keys of the first task, then those of the rest
    obtain ⟨ks₁, hsub₁, hreq₁, hids₁⟩ := h t List.mem_cons_self
    obtain ⟨ks₂, hsub₂, hreq₂, hids₂⟩ := ih fun u hu => h u (List.mem_cons_of_mem _ hu)
    refine ⟨ks₁ ++ ks₂, hsub₁.append hsub₂, ?_, fun n => ?_⟩
    · rw [requestsOf, List.flatMap_cons, List.map_append]
      exact List.append_subset.mpr
        ⟨List.subset_append_of_subset_left _ hreq₁, List.subset_append_of_subset_right _ hreq₂⟩
    · rw [fragmentsOf, List.flatMap_cons, List.flatMap_append, List.map_append]
      exact (hids₁ n).append (hids₂ n)

/-! ## Fields and their datatypes -/

/-- The source of a relation between datatypes is a datatype. -/
theorem sourceOf_of_holdsBetweenDatatypes {r : Relation} (h : m.holdsBetweenDatatypes r = true) :
    ∃ c ∈ m.classes, m.sourceOf r = some (.ofClass c) ∧ c.isDatatype = true := by
  unfold holdsBetweenDatatypes at h
  split at h
  · next source target hsource htarget =>
    have hdatatype : source.isDatatype = true := (Bool.and_eq_true _ _ ▸ h).1
    cases source with
    | ofClass c => exact ⟨c, has_of_sourceOf hsource, hsource, hdatatype⟩
    | ofRelation q => cases hdatatype
  · cases h

/-- The source of a relation between datatypes, where its ends have been found. -/
theorem source_of_holdsBetweenDatatypes {r : Relation} {e : Ends} (he : m.endsOf r = .ok e)
    (h : m.holdsBetweenDatatypes r = true) :
    ∃ c ∈ m.classes, e.source = .ofClass c ∧ c.isDatatype = true := by
  obtain ⟨c, hc, hsource, hdatatype⟩ := sourceOf_of_holdsBetweenDatatypes h
  rw [sourceOf_of_endsOf he] at hsource
  exact ⟨c, hc, Option.some.inj hsource, hdatatype⟩

/-- A datatype is declared unless it is built in; inline fields are emitted after the classes, for
datatypes of the model. -/
def IsPlaced (m : Model) (t : Task) (n : Names) : Fragment → Prop
  | .datatype name isDeclared => isDeclared = !isBuiltin name
  | .inlineField name _ =>
    (∀ c, t ≠ .klass c) ∧ ∃ c ∈ m.classes, c.isDatatype = true ∧ name = n.own c.id
  | _ => True

/-- What a task emits is placed as it should be. -/
theorem Emits.isPlaced {t : Task} {n : Names} {requests : List Request} {f : Fragment}
    (h : m.Emits n t requests f) : m.IsPlaced t n f := by
  cases h with
  | datatype hc hvalue => rfl
  | @inlineRelation r e hr he hdatatypes =>
    obtain ⟨c, hc, hs, hdatatype⟩ := source_of_holdsBetweenDatatypes he hdatatypes
    exact ⟨nofun, c, hc, hdatatype, by rw [hs]; rfl⟩
  | @inlineAttribute c p v k hc hdatatype => exact ⟨nofun, c, hc, hdatatype, rfl⟩
  | _ => trivial

/-- The same holds of what the step of a task emits in a run. -/
theorem isPlaced_stepOf (hok : ∀ t ∈ m.tasks, (m.stepOf t).failure = none) {t : Task}
    (ht : t ∈ m.tasks) {n : Names} {f : Fragment} (hf : f ∈ (m.stepOf t).fragments n) :
    m.IsPlaced t n f :=
  ((takes_of_mem_tasks hok ht).emits (isOf_of_mem_tasks ht) hf).isPlaced

/-- A datatype of a run is declared unless its name is built in. -/
theorem isDeclared_eq (hok : ∀ t ∈ m.tasks, (m.stepOf t).failure = none) {name : String}
    {isDeclared : Bool} (h : .datatype name isDeclared ∈ m.fragments) :
    isDeclared = !isBuiltin name := by
  obtain ⟨t, ht, hf⟩ := mem_fragments_iff.mp h
  exact isPlaced_stepOf hok ht hf

/-- The fields of datatypes follow the datatypes, since classes come first. -/
theorem fieldsFollow_fragments (hok : ∀ t ∈ m.tasks, (m.stepOf t).failure = none) :
    FieldsFollow [] m.fragments := by
  -- classes emit no inline field, and later tasks emit them for classes only
  obtain ⟨later, hlater⟩ := exists_tasks_eq m
  rw [fragments, hlater, fragmentsOf, List.flatMap_append, fieldsFollow_append]
  constructor
  · -- the classes: no inline field at all
    refine fieldsFollow_of_forall fun name g hg => ?_
    obtain ⟨t, ht, hf⟩ := List.mem_flatMap.mp hg
    have hmem : t ∈ m.tasks := by
      rw [hlater]
      exact List.mem_append_left _ ht
    obtain ⟨c, -, rfl⟩ := List.mem_map.mp ht
    obtain ⟨hnot, -⟩ := isPlaced_stepOf hok hmem hf
    exact absurd rfl (hnot c)
  · -- the later tasks: each inline field is for a datatype, which has been mentioned by then
    refine fieldsFollow_of_forall fun name g hg => ?_
    obtain ⟨t, ht, hf⟩ := List.mem_flatMap.mp hg
    have hmem : t ∈ m.tasks := by
      rw [hlater]
      exact List.mem_append_right _ ht
    obtain ⟨-, c, hc, hdatatype, rfl⟩ := isPlaced_stepOf hok hmem hf
    refine exists_mem_headers_foldl (b := !isBuiltin (m.names.own c.id)) ?_ []
    refine List.mem_flatMap.mpr ⟨.klass c, List.mem_map_of_mem hc, ?_⟩
    show _ ∈ c.step.fragments m.names
    rw [Class.step_of_isDatatype hdatatype]
    exact List.mem_singleton.mpr rfl

/-! ## Distinct identifiers -/

/-- The names of requested keys are apart from the words that every module declares. -/
theorem not_mem_declaredWords_of_mem_requests {q : Request} (h : q ∈ m.requests) :
    m.names.of q.key ∉ declaredWords := by
  obtain ⟨w, hw, heq⟩ := given?_of_mem_requests h
  rw [heq]
  exact Identifier.not_mem_declaredWords_of_isIssuable (issuable_of_given? hw)

/-- The fragments of a run declare distinct identifiers, and no word that every module declares. -/
theorem nodup_declared (hid : m.ids.Nodup) (hok : ∀ t ∈ m.tasks, (m.stepOf t).failure = none) :
    (declaredWords ++ m.fragments.flatMap Fragment.identifiers).Nodup := by
  obtain ⟨ks, hsub, hreq, hids⟩ := declares_fragmentsOf fun t ht =>
    (takes_of_mem_tasks hok ht).declares
  have hrequest : ∀ k ∈ ks, ∃ q ∈ m.requests, q.key = k := fun k hk =>
    List.mem_map.mp (hreq hk)
  -- distinct keys, all requested, are called differently
  have hnames : (ks.map m.names.of).Nodup := by
    refine List.Nodup.map_on ?_ ((nodup_declaredKeys hid).sublist hsub)
    intro k hk k' hk' heq
    obtain ⟨q, hq, rfl⟩ := hrequest k hk
    obtain ⟨q', hq', rfl⟩ := hrequest k' hk'
    exact of_injective hq hq' heq
  -- the fixed words are distinct, and none of them is the name of a requested key
  refine List.nodup_append'.mpr ⟨by decide +kernel, hnames.sublist (hids m.names), ?_⟩
  intro w hw hmem
  obtain ⟨k, hk, rfl⟩ := List.mem_map.mp ((hids m.names).subset hmem)
  obtain ⟨q, hq, rfl⟩ := hrequest k hk
  exact not_mem_declaredWords_of_mem_requests hq hw

/-- In the module of a run, an identifier is declared once at most. -/
theorem count_identifiers_le_one {s : Sections} (hid : m.ids.Nodup) (h : m.encoding = .ok s)
    (w : String) : s.identifiers.count w ≤ 1 := by
  obtain ⟨rfl, hok⟩ := encoding_ok hid h
  calc (Sections.ofFragments m.fragments).identifiers.count w
      ≤ (declaredWords ++ m.fragments.flatMap Fragment.identifiers).count w :=
        count_identifiers_le (fieldsFollow_fragments hok) w
    _ ≤ 1 := List.nodup_iff_count_le_one.mp (nodup_declared hid hok) w

/-- **No identifier is declared twice** in the module of a model with distinct ids. -/
theorem nodup_identifiers {s : Sections} (hid : m.ids.Nodup) (h : m.encoding = .ok s) :
    s.identifiers.Nodup :=
  List.nodup_iff_count_le_one.mpr (count_identifiers_le_one hid h)

/-- Persons borrow books by loans: a model with every kind of declaration. -/
def lending : Model where
  name := some "Lending"
  classes := [
    { id := ⟨"person"⟩, name := some "Person", stereotype := some .kind
      attributes := [
        { id := ⟨"name"⟩, name := some "name", type := some ⟨"string"⟩, cardinality := "1"
          isReadOnly := true },
        { id := ⟨"phones"⟩, name := some "phone", type := some ⟨"string"⟩, isOrdered := true },
        { id := ⟨"home"⟩, name := some "address", type := some ⟨"address"⟩
          cardinality := "1..2" }] },
    { id := ⟨"book"⟩, name := some "Book", stereotype := some .kind
      attributes := [
        { id := ⟨"state"⟩, name := some "state", type := some ⟨"status"⟩, cardinality := "1" }] },
    { id := ⟨"loan"⟩, name := some "Loan", stereotype := some .relator },
    { id := ⟨"string"⟩, name := some "String", stereotype := some .datatype },
    { id := ⟨"address"⟩, name := some "Address", stereotype := some .datatype
      attributes := [{ id := ⟨"street"⟩, name := some "name", type := some ⟨"string"⟩ }] },
    { id := ⟨"status"⟩, name := some "Status", stereotype := some .enumeration
      literals := [⟨⟨"lent"⟩, some "lent"⟩, ⟨⟨"free"⟩, some "free"⟩] }]
  relations := [
    { id := ⟨"involves"⟩, stereotype := some .mediation
      ends := [
        { id := ⟨"involves source"⟩, type := some ⟨"loan"⟩ },
        { id := ⟨"involves target"⟩, name := some "borrower", type := some ⟨"person"⟩
          cardinality := "1" }] },
    { id := ⟨"covers"⟩, name := some "covers", stereotype := some .mediation
      ends := [
        { id := ⟨"covers source"⟩, type := some ⟨"loan"⟩ },
        { id := ⟨"covers target"⟩, type := some ⟨"book"⟩, cardinality := "1..5" }] },
    { id := ⟨"borrows"⟩, name := some "borrows", stereotype := some .material
      ends := [
        { id := ⟨"borrows source"⟩, type := some ⟨"person"⟩ },
        { id := ⟨"borrows target"⟩, type := some ⟨"book"⟩ }] },
    { id := ⟨"founds"⟩, stereotype := some .derivation
      ends := [
        { id := ⟨"founds source"⟩, type := some ⟨"borrows"⟩ },
        { id := ⟨"founds target"⟩, type := some ⟨"loan"⟩ }] },
    { id := ⟨"waits"⟩, name := some "waits", stereotype := some .material
      ends := [
        { id := ⟨"waits source"⟩, type := some ⟨"book"⟩ },
        { id := ⟨"waits target"⟩, type := some ⟨"person"⟩, isOrdered := true }] }]

/-- The model about lending declares no identifier twice. -/
theorem lending_nodup_identifiers :
    lending.ids.Nodup ∧ ∃ s, lending.encoding = .ok s ∧ s.identifiers.Nodup := by
  have hid : lending.ids.Nodup := by decide +kernel
  obtain ⟨s, hs⟩ := exists_encoding_of_isOk (m := lending) (by decide +kernel)
  exact ⟨hid, s, hs, nodup_identifiers hid hs⟩

end Model

end OntoWorlds
