import OntoWorlds.Proofs.Encoding.Outcomes
import OntoWorlds.Proofs.Encoding.Run

/-!
# OntoWorlds — the defects that end a run

A run ends early when a task meets a defect. What the report says of the model is so, for every
step and every look-up in it, with one exception: an attribute of a datatype whose type has no
signature is reported as one without a type. In the other direction, not every defect is met. A
cardinality is read by each step that states it, but an ordered attribute states none, so whatever
its cardinality says goes unread.

* `Defect.IsReal` — what a report says of a model.
* `Step.FailsOnly` — steps whose failures satisfy a condition, composed along `Step.given`.
* `isReal_or_disguises` — the failures of a run are real or disguised.
* `malformed_aborts_unless_ordered` — the malformed cardinalities that end a run.
-/

namespace OntoWorlds

open Alloy

/-! ## What reports say -/

/-- No class or relation of the model is the type of the property. -/
def Model.LacksType (m : Model) (p : Property) : Prop := ∀ x, m.Has x → p.type ≠ some x.id

/-- What a report says of the model is so. -/
inductive Defect.IsReal (m : Model) : Defect → Prop
  | unresolvedType {x : Classifier} {p : Property} (hp : (x, p) ∈ m.properties)
      (htype : m.LacksType p) : IsReal m (.unresolvedType p.id)
  | missingRelationEnd {r : Relation} (hr : r ∈ m.relations) (hends : r.ends.length < 2) :
      IsReal m (.missingRelationEnd r.id)
  | invalidCardinality {x : Classifier} {p : Property} (hp : (x, p) ∈ m.properties)
      (hk : Multiplicity.parse p.cardinality = none) : IsReal m (.invalidCardinality p.cardinality)
  | danglingEnd {g : Generalization} {id : ElementId} (hg : g ∈ m.generalizations)
      (hend : id = g.general ∨ id = g.specific) (hmissing : ∀ x, m.Has x → x.id ≠ id) :
      IsReal m (.danglingReference g.id id)
  | danglingMember {s : GeneralizationSet} {id : ElementId} (hs : s ∈ m.generalizationSets)
      (hmember : id ∈ s.members) (hmissing : ∀ g ∈ m.generalizations, g.id ≠ id) :
      IsReal m (.danglingReference s.id id)

/-- An attribute of a datatype has a type in the model, which has no signature; it is reported as if
there was no such type. -/
inductive Model.Disguises (m : Model) : Defect → Prop
  | unresolvedType {c : Class} {p : Property} {x : Classifier} (hp : (.ofClass c, p) ∈ m.properties)
      (hdatatype : c.isDatatype = true) (htype : m.typeOf p = some x)
      (hsignature : x.hasSignature = false) : Disguises m (.unresolvedType p.id)

/-! ## Failures of steps -/

/-- If the step fails, the defect satisfies the condition. -/
def Step.FailsOnly (P : Defect → Prop) (s : Step) : Prop := ∀ d, s.failure = some d → P d

namespace Step

variable {P : Defect → Prop}

/-- A step without a defect fails for nothing. -/
theorem failsOnly_of_failure_none {s : Step} (h : s.failure = none) : s.FailsOnly P := by
  intro d hd
  rw [h] at hd
  cases hd

/-- A step that fails at once fails for its defect. -/
theorem failsOnly_fail {d : Defect} (h : P d) : (fail d).FailsOnly P := by
  intro d' hd
  obtain rfl := Option.some.inj hd
  exact h

/-- Requests made first do not change what a step fails for. -/
theorem FailsOnly.requesting {s : Step} (h : s.FailsOnly P) (requests : List Request) :
    (s.requesting requests).FailsOnly P := by
  intro d hd
  rw [requesting_failure] at hd
  exact h d hd

/-- A step that waits for a value fails for want of it, or as the step for the value does. -/
theorem failsOnly_given {α : Type} {e : Except Defect α} {next : α → Step}
    (herror : ∀ d, e = .error d → P d) (hok : ∀ a, e = .ok a → (next a).FailsOnly P) :
    (given e next).FailsOnly P := by
  cases e with
  | error d => exact failsOnly_fail (herror d rfl)
  | ok a => exact hok a rfl

end Step

namespace Model

variable {m : Model}

/-! ## Failures of look-ups -/

/-- A look-up finds nothing if no class and no relation has the id. -/
theorem find_eq_none_iff {id : ElementId} : m.find id = none ↔ ∀ x, m.Has x → x.id ≠ id := by
  have hclass : m.findClass id = none ↔ ∀ c ∈ m.classes, c.id ≠ id := by
    simp only [findClass, List.find?_eq_none, beq_iff_eq, ne_eq]
  have hrelation : m.findRelation id = none ↔ ∀ r ∈ m.relations, r.id ≠ id := by
    simp only [findRelation, List.find?_eq_none, beq_iff_eq, ne_eq]
  have hfind : m.find id = none ↔ m.findClass id = none ∧ m.findRelation id = none := by
    unfold find
    cases m.findClass id with
    | none => simp only [Option.map_eq_none_iff, true_and]
    | some c => simp only [reduceCtorEq, false_and]
  rw [hfind, hclass, hrelation]
  -- an element of the model is one of the two
  constructor
  · rintro ⟨hc, hr⟩ x hx
    cases x with
    | ofClass c => exact hc c hx
    | ofRelation r => exact hr r hx
  · intro h
    exact ⟨fun c hc => h (.ofClass c) hc, fun r hr => h (.ofRelation r) hr⟩

/-- A property lacks a type if it refers to nothing, or to no class and no relation of the model. -/
theorem lacksType_iff {p : Property} : m.LacksType p ↔ m.typeOf p = none := by
  rw [typeOf]
  cases hp : p.type with
  | none => simp only [LacksType, hp, Option.bind_none, ne_eq, reduceCtorEq, not_false_eq_true,
      implies_true]
  | some id =>
    rw [Option.bind_some, find_eq_none_iff]
    simp only [LacksType, hp, ne_eq, Option.some.injEq, eq_comm]

section

variable {x : Classifier} {p : Property} {d : Defect}

/-- A multiplicity that cannot be read is a malformed cardinality of the property. -/
theorem isReal_of_multiplicity (hp : (x, p) ∈ m.properties) (h : p.multiplicity = .error d) :
    d.IsReal m := by
  unfold Property.multiplicity at h
  split at h
  · cases h
  · next hk =>
    obtain rfl := Except.error.inj h
    exact .invalidCardinality hp hk

/-- A type that cannot be found is one the property lacks. -/
theorem isReal_of_resolveType (hp : (x, p) ∈ m.properties) (h : m.resolveType p = .error d) :
    d.IsReal m := by
  unfold resolveType at h
  split at h
  · cases h
  · next htype =>
    obtain rfl := Except.error.inj h
    exact .unresolvedType hp (lacksType_iff.mpr htype)

/-- There is no signature for the values of an attribute only if its type has none, if it has a
type at all. -/
theorem of_valueSignature_error (h : m.valueSignature p = .error d) :
    d = .unresolvedType p.id ∧ ∀ x, m.typeOf p = some x → x.hasSignature = false := by
  -- a class without a signature for its values is neither a value type nor drawn from a base
  have hclass : ∀ c : Class, c.valueSignature? = none → c.hasSignature = false := by
    intro c hc
    unfold Class.valueSignature? at hc
    split at hc
    · cases hc
    · next hvalue =>
      rw [Option.map_eq_none_iff] at hc
      rw [Class.hasSignature, Bool.eq_false_iff.mpr hvalue, Class.hasWorldField, hc]
      rfl
  unfold valueSignature at h
  split at h
  · next c htype =>
    split at h
    · cases h
    · next hvalue =>
      refine ⟨(Except.error.inj h).symm, ?_⟩
      intro x hx
      rw [htype] at hx
      obtain rfl := Option.some.inj hx
      exact hclass c hvalue
  -- the type is missing, or a relation
  · next hnot =>
    refine ⟨(Except.error.inj h).symm, ?_⟩
    intro x hx
    cases x with
    | ofClass c => exact absurd hx (hnot c)
    | ofRelation r => rfl

/-- Where a type is asked for its signature before, an attribute fails for want of a type only. -/
theorem isReal_of_valueSignature (hp : (x, p) ∈ m.properties) (hvalues : m.mayHaveValues p = true)
    (h : m.valueSignature p = .error d) : d.IsReal m := by
  obtain ⟨rfl, hnone⟩ := of_valueSignature_error h
  refine .unresolvedType hp (lacksType_iff.mpr ?_)
  unfold mayHaveValues at hvalues
  split at hvalues
  · next y hy =>
    rw [hnone y hy] at hvalues
    cases hvalues
  · next hy => exact hy

end

section

variable {d : Defect}

/-- The ends of a relation are among its properties. -/
theorem mem_properties_of_sourceEnd {r : Relation} (hr : r ∈ m.relations) {p : Property}
    (hp : r.sourceEnd = some p) : (.ofRelation r, p) ∈ m.properties :=
  mem_properties_of_mem_ends hr (List.mem_of_head? hp)

/-- The second end is among the properties of the relation as well. -/
theorem mem_properties_of_targetEnd {r : Relation} (hr : r ∈ m.relations) {p : Property}
    (hp : r.targetEnd = some p) : (.ofRelation r, p) ∈ m.properties :=
  mem_properties_of_mem_ends hr (List.mem_of_getElem? hp)

/-- Looking for the ends of a relation fails if it has too few of them, or if one lacks its type. -/
theorem isReal_of_endsOf {r : Relation} (hr : r ∈ m.relations) (h : m.endsOf r = .error d) :
    d.IsReal m := by
  unfold endsOf at h
  split at h
  · next source target hsource htarget =>
    cases hs : m.resolveType source with
    | error d' =>
      rw [hs] at h
      obtain rfl := Except.error.inj h
      exact isReal_of_resolveType (mem_properties_of_sourceEnd hr hsource) hs
    | ok a =>
      cases ht : m.resolveType target with
      | error d' =>
        rw [hs, ht] at h
        obtain rfl := Except.error.inj h
        exact isReal_of_resolveType (mem_properties_of_targetEnd hr htarget) ht
      | ok b =>
        rw [hs, ht] at h
        cases h
  · next hends =>
    obtain rfl := Except.error.inj h
    refine .missingRelationEnd hr ?_
    -- with two properties it would have both ends
    match hlist : r.ends with
    | [] => exact Nat.zero_lt_two
    | [p] => exact Nat.one_lt_two
    | p :: q :: _ =>
      have hsource : r.sourceEnd = some p := by rw [Relation.sourceEnd, hlist, List.head?_cons]
      have htarget : r.targetEnd = some q := by rw [Relation.targetEnd, hlist]; rfl
      exact absurd htarget (hends p q hsource)

/-- A generalization comes to nothing only if one of its ends is not in the model. -/
theorem isReal_of_subsumptionOf {g : Generalization} (hg : g ∈ m.generalizations)
    (h : m.subsumptionOf g = .error d) : d.IsReal m := by
  unfold subsumptionOf resolve at h
  cases hgeneral : m.find g.general with
  | none =>
    rw [hgeneral] at h
    obtain rfl := Except.error.inj h
    exact .danglingEnd hg (Or.inl rfl) (find_eq_none_iff.mp hgeneral)
  | some general =>
    cases hspecific : m.find g.specific with
    | none =>
      rw [hgeneral, hspecific] at h
      obtain rfl := Except.error.inj h
      exact .danglingEnd hg (Or.inr rfl) (find_eq_none_iff.mp hspecific)
    | some specific =>
      rw [hgeneral, hspecific] at h
      cases h

end

/-! ## Failures of tasks -/

/-- The step of a class never fails. -/
theorem failsOnly_klass (c : Class) : c.step.FailsOnly (Defect.IsReal m) := by
  refine Step.failsOnly_of_failure_none ?_
  unfold Class.step
  split_ifs
  · rfl
  · rfl
  · split <;> rfl

/-- The members of a set are looked up one by one, and each failure is a dangling reference. -/
theorem failsOnly_membersStep {s : GeneralizationSet} (hs : s ∈ m.generalizationSets)
    {members : List ElementId} (hmembers : members ⊆ s.members)
    (seen : List (Classifier × Classifier)) :
    (m.membersStep s members seen).FailsOnly (Defect.IsReal m) := by
  induction members generalizing seen with
  -- by induction on the members that are left, all of them members of the set
  | nil => exact Step.failsOnly_of_failure_none rfl
  | cons id members ih =>
    obtain ⟨hid, hrest⟩ := List.cons_subset.mp hmembers
    unfold membersStep
    split
    · next hnone =>
      refine Step.failsOnly_fail (.danglingMember hs hid ?_)
      simpa only [findGeneralization, List.find?_eq_none, beq_iff_eq] using hnone
    · next g hg =>
      refine Step.failsOnly_given ?_ ?_
      · intro d hd
        exact isReal_of_subsumptionOf (List.mem_of_find?_eq_some hg) hd
      · intro t _
        refine Step.FailsOnly.requesting ?_ _
        split
        · exact ih hrest _
        · exact Step.failsOnly_of_failure_none rfl

/-- The step of a field fails for the founder of a derived relation, or for a multiplicity of an
end. -/
theorem failsOnly_fieldStep {r : Relation} (hr : r ∈ m.relations) {e : Ends}
    (he : m.endsOf r = .ok e) : (m.fieldStep r e).FailsOnly (Defect.IsReal m) := by
  unfold fieldStep
  refine Step.FailsOnly.requesting ?_ _
  split
  · next founder hfounder =>
    refine Step.failsOnly_given ?_ fun x _ => Step.failsOnly_of_failure_none rfl
    rintro d rfl
    -- the ends looked up are those of the derivation
    unfold founderOf at hfounder
    split at hfounder
    · next derivation hderivation =>
      split at hfounder
      · cases hends : m.endsOf derivation with
        | error d' =>
          rw [hends] at hfounder
          obtain rfl := Except.error.inj (Option.some.inj hfounder)
          exact isReal_of_endsOf (List.mem_of_find?_eq_some hderivation) hends
        | ok e' =>
          rw [hends] at hfounder
          cases hfounder
      · cases hfounder
    · cases hfounder
  · obtain ⟨hsource, htarget, -⟩ := endsOf_eq_ok_iff.mp he
    split
    · exact Step.failsOnly_of_failure_none rfl
    · refine Step.failsOnly_given ?_ fun k _ => Step.failsOnly_given ?_ fun k' _ => ?_
      · intro d hd
        exact isReal_of_multiplicity (mem_properties_of_sourceEnd hr hsource) hd
      · intro d hd
        exact isReal_of_multiplicity (mem_properties_of_targetEnd hr htarget) hd
      · exact Step.failsOnly_of_failure_none rfl

/-- The step of a relation fails for its own ends, or for those of the relation it derives. -/
theorem failsOnly_relationStep {r : Relation} (hr : r ∈ m.relations) :
    (m.relationStep r).FailsOnly (Defect.IsReal m) := by
  refine Step.failsOnly_given (fun d hd => isReal_of_endsOf hr hd) fun e he => ?_
  split_ifs
  · exact Step.failsOnly_of_failure_none rfl
  · exact Step.failsOnly_of_failure_none rfl
  · split
    -- a derivation looks up the ends of the relation that it derives
    · next material relator hsource htarget =>
      have hmaterial : m.Has (.ofRelation material) := hsource ▸ has_source_of_endsOf he
      refine Step.failsOnly_given (fun d hd => isReal_of_endsOf hmaterial hd) fun e' _ => ?_
      split <;> exact Step.failsOnly_of_failure_none rfl
    · exact Step.failsOnly_of_failure_none rfl
  · exact failsOnly_fieldStep hr he

/-- The step of a property fails for a real defect, or for one in disguise. -/
theorem failsOnly_propertyStep {x : Classifier} {p : Property} (hp : (x, p) ∈ m.properties) :
    (m.propertyStep x p).FailsOnly fun d => d.IsReal m ∨ m.Disguises d := by
  have hmultiplicity : ∀ d, p.multiplicity = .error d → d.IsReal m ∨ m.Disguises d :=
    fun d hd => Or.inl (isReal_of_multiplicity hp hd)
  unfold propertyStep
  split
  · next c hrole =>
    -- an attribute of a datatype
    obtain ⟨rfl, hdatatype⟩ := roleOf_datatypeAttribute hrole
    refine Step.failsOnly_given ?_ fun v _ => ?_
    · intro d hd
      obtain ⟨rfl, hnone⟩ := of_valueSignature_error hd
      -- here no one has asked the type for its signature before
      cases htype : m.typeOf p with
      | none => exact Or.inl (.unresolvedType hp (lacksType_iff.mpr htype))
      | some y => exact Or.inr (.unresolvedType hp hdatatype htype (hnone y htype))
    · exact Step.failsOnly_given hmultiplicity fun k _ => Step.failsOnly_of_failure_none rfl
  · next c hrole =>
    -- an ordered attribute of a class
    obtain ⟨rfl, hfield, -⟩ := roleOf_orderedAttribute hrole
    refine Step.failsOnly_given ?_ fun v _ => Step.failsOnly_of_failure_none rfl
    exact fun d hd => Or.inl (isReal_of_valueSignature hp hfield.valued hd)
  · next c hrole =>
    -- any other attribute of a class
    obtain ⟨rfl, hfield, -⟩ := roleOf_plainAttribute hrole
    refine Step.failsOnly_given ?_ fun v _ => ?_
    · exact fun d hd => Or.inl (isReal_of_valueSignature hp hfield.valued hd)
    · exact Step.failsOnly_given hmultiplicity fun k _ => Step.failsOnly_of_failure_none rfl
  · next r side hrole =>
    -- an end of a relation
    obtain ⟨rfl, -⟩ := roleOf_relationEnd hrole
    refine Step.failsOnly_given ?_ fun e _ => ?_
    · exact fun d hd => Or.inl (isReal_of_endsOf (has_of_mem_properties hp) hd)
    · refine Step.failsOnly_given ?_ fun k _ => Step.failsOnly_of_failure_none rfl
      rwa [property_ofEnds]
  · exact Step.failsOnly_of_failure_none rfl

/-- A task of the model fails for a real defect, or for one in disguise. -/
theorem failsOnly_stepOf {t : Task} (ht : t.IsOf m) :
    (m.stepOf t).FailsOnly fun d => d.IsReal m ∨ m.Disguises d := by
  have hreal : ∀ {s : Step}, s.FailsOnly (Defect.IsReal m) →
      s.FailsOnly fun d => d.IsReal m ∨ m.Disguises d :=
    fun hs d hd => Or.inl (hs d hd)
  cases t with
  | klass c => exact hreal (failsOnly_klass c)
  | coverings => exact Step.failsOnly_of_failure_none rfl
  | generalization g =>
    refine hreal (Step.failsOnly_given ?_ fun s _ => Step.failsOnly_of_failure_none rfl)
    exact fun d hd => isReal_of_subsumptionOf ht hd
  | generalizationSet s =>
    refine hreal ?_
    show (m.generalizationSetStep s).FailsOnly (Defect.IsReal m)
    unfold generalizationSetStep
    split
    · exact failsOnly_membersStep ht (List.Subset.refl _) []
    · exact Step.failsOnly_of_failure_none rfl
  | relation r => exact hreal (failsOnly_relationStep ht)
  | property x p => exact failsOnly_propertyStep ht

end Model

/-! ## Failures of runs -/

/-- A list of tasks fails where the step of one of them does. -/
theorem Session.exists_failure_of_performAll {m : Model} {s s' : Session} {ts : List Task}
    {d : Defect} (h : s.performAll m ts = (s', some d)) :
    ∃ t ∈ ts, (m.stepOf t).failure = some d := by
  induction ts generalizing s with
  | nil => cases h
  | cons t ts ih =>
    -- a task fails as its step does, unless its turn has been
    have hfailure : (s.perform m t).2 = none ∨ (s.perform m t).2 = (m.stepOf t).failure := by
      unfold perform
      split
      · split
        · exact Or.inl rfl
        · exact Or.inr rfl
      · exact Or.inr rfl
    unfold performAll at h
    split at h
    · obtain ⟨u, hu, hd⟩ := ih h
      exact ⟨u, List.mem_cons_of_mem _ hu, hd⟩
    · next s₁ d' hperform =>
      obtain rfl := Option.some.inj (congrArg Prod.snd h)
      rw [hperform] at hfailure
      rcases hfailure with hnone | hd
      · cases hnone
      · exact ⟨t, List.mem_cons_self, hd.symm⟩

namespace Model

variable {m : Model}

/-- The report of a run is the defect of its encoding. -/
theorem encode_eq_error_iff {o : RunScope} {d : Defect} :
    m.encode o = .error d ↔ m.encoding = .error d := by
  unfold encode
  cases m.encoding with
  | error d' => simp only [Except.map, Except.error.injEq]
  | ok s => simp only [Except.map, reduceCtorEq]

/-- A run that ends in a defect has a task whose step fails for it. -/
theorem exists_failure_of_encoding {d : Defect} (h : m.encoding = .error d) :
    ∃ t ∈ m.tasks, (m.stepOf t).failure = some d := by
  unfold encoding at h
  split at h
  · cases h
  · next s d' hrun =>
    obtain rfl := Except.error.inj h
    exact Session.exists_failure_of_performAll hrun

/-- A report of a missing type that is so tells of a property without one. -/
theorem exists_of_isReal_unresolvedType {id : ElementId}
    (h : (Defect.unresolvedType id).IsReal m) :
    ∃ x p, (x, p) ∈ m.properties ∧ p.id = id ∧ m.LacksType p := by
  cases h with
  | @unresolvedType x p hp htype => exact ⟨x, p, hp, rfl, htype⟩

/-- **Reports.** A defect that ends a run is one of the model, unless it is the missing type of an
attribute of a datatype: then the type may be there and only lack a signature. With distinct ids
that report is wrong. -/
theorem isReal_or_disguises {o : RunScope} {d : Defect} (h : m.encode o = .error d) :
    (d.IsReal m ∨ m.Disguises d) ∧ (m.ids.Nodup → m.Disguises d → ¬ d.IsReal m) := by
  constructor
  · obtain ⟨t, ht, hd⟩ := exists_failure_of_encoding (encode_eq_error_iff.mp h)
    exact failsOnly_stepOf (isOf_of_mem_tasks ht) d hd
  -- two reports with one id would be about one property
  · intro hid hdisguises hreal
    cases hdisguises with
    | @unresolvedType c p x hp hdatatype htype hsignature =>
      obtain ⟨y, q, hq, heq, hlacks⟩ := exists_of_isReal_unresolvedType hreal
      -- the report is about the same property, which has a type after all
      obtain ⟨rfl, rfl⟩ := Prod.mk.inj (eq_of_mem_properties hid hq hp heq)
      rw [lacksType_iff.mp hlacks] at htype
      cases htype

/-- Birthdays are dates of a birth, which is an event. -/
def birthday : Model where
  classes := [
    { id := ⟨"birthday"⟩, name := some "Birthday", stereotype := some .datatype
      attributes := [{ id := ⟨"of"⟩, name := some "of", type := some ⟨"birth"⟩ }] },
    { id := ⟨"birth"⟩, name := some "Birth", stereotype := some .event }]

/-- The run on birthdays ends in a report of a missing type. -/
theorem birthday_encode : birthday.encode {} = .error (.unresolvedType ⟨"of"⟩) := by
  rw [encode_eq_error_iff]
  decide +kernel

/-- The only property there is has a type: the event. -/
theorem birthday_typed : ∀ a ∈ birthday.properties, birthday.typeOf a.2 =
    some (.ofClass { id := ⟨"birth"⟩, name := some "Birth", stereotype := some .event }) := by
  decide +kernel

/-- The type of the attribute is reported missing, and it is there. -/
theorem birthday_isReal_or_disguises :
    birthday.encode {} = .error (.unresolvedType ⟨"of"⟩) ∧ birthday.ids.Nodup ∧
      birthday.Disguises (.unresolvedType ⟨"of"⟩) ∧
      ¬ (Defect.unresolvedType ⟨"of"⟩).IsReal birthday := by
  have hid : birthday.ids.Nodup := by decide +kernel
  have hdisguises : birthday.Disguises (.unresolvedType ⟨"of"⟩) :=
    .unresolvedType List.mem_cons_self rfl (birthday_typed _ List.mem_cons_self) rfl
  exact ⟨birthday_encode, hid, hdisguises, (isReal_or_disguises birthday_encode).2 hid hdisguises⟩

/-- So there are reports of defects that a model does not have. -/
theorem not_forall_isReal :
    ¬ ∀ (m : Model) (o : RunScope) (d : Defect), m.encode o = .error d → d.IsReal m := by
  intro h
  obtain ⟨x, p, hp, -, hlacks⟩ :=
    exists_of_isReal_unresolvedType (h birthday {} _ birthday_encode)
  have htype := birthday_typed (x, p) hp
  rw [lacksType_iff.mp hlacks] at htype
  cases htype

/-! ## Malformed cardinalities -/

/-- A property without a defect has a well-formed cardinality if it states it. -/
theorem Turn.exists_parse {x : Classifier} {p : Property} {step : Step} (h : m.Turn x p step)
    (hskipped : ∀ reason, m.roleOf x p ≠ .skipped reason)
    (hordered : ∀ c, m.roleOf x p ≠ .orderedAttribute c) :
    ∃ k, Multiplicity.parse p.cardinality = some k := by
  cases h with
  | skipped hrole => exact absurd hrole (hskipped _)
  -- of the properties that are not skipped, only an ordered attribute is settled without its
  -- cardinality
  | datatypeAttribute hrole hv hk => exact ⟨_, multiplicity_eq_ok_iff.mp hk⟩
  | orderedAttribute hrole hv => exact absurd hrole (hordered _)
  | plainAttribute hrole hv hk => exact ⟨_, multiplicity_eq_ok_iff.mp hk⟩
  | relationEnd hrole he hk => exact ⟨_, multiplicity_eq_ok_iff.mp hk⟩

/-- An ordered attribute takes the same step, whatever its cardinality says. -/
theorem propertyStep_with_cardinality {x : Classifier} {p : Property} {c : Class}
    (hrole : m.roleOf x p = .orderedAttribute c) (text : String) :
    m.propertyStep x { p with cardinality := text } = m.propertyStep x p := by
  have hsame : m.roleOf x { p with cardinality := text } = .orderedAttribute c := by
    rw [← hrole]
    -- the role does not depend on the cardinality
    cases x <;> rfl
  unfold propertyStep
  rw [hrole, hsame]
  rfl

/-- **Malformed cardinalities.** In a model with distinct ids, a malformed cardinality of a property
that is not skipped ends the run, unless the property is an ordered attribute; the cardinality of
such an attribute has no effect on its step. -/
theorem malformed_aborts_unless_ordered {x : Classifier} {p : Property} (hid : m.ids.Nodup)
    (hp : (x, p) ∈ m.properties) (hskipped : ∀ reason, m.roleOf x p ≠ .skipped reason)
    (hmalformed : Multiplicity.parse p.cardinality = none) (o : RunScope) :
    ((∀ c, m.roleOf x p ≠ .orderedAttribute c) → ∃ d, m.encode o = .error d) ∧
      ∀ c, m.roleOf x p = .orderedAttribute c → ∀ text,
        m.propertyStep x { p with cardinality := text } = m.propertyStep x p := by
  refine ⟨fun hordered => ?_, fun c hrole text => propertyStep_with_cardinality hrole text⟩
  cases hencoding : m.encoding with
  | error d => exact ⟨d, encode_eq_error_iff.mpr hencoding⟩
  | ok s =>
    -- a run without a defect would have read the cardinality
    obtain ⟨-, hok⟩ := encoding_ok hid hencoding
    have hturn := turn_propertyStep (hok _ (mem_tasks_of_mem_properties hp))
    obtain ⟨k, hk⟩ := hturn.exists_parse hskipped hordered
    rw [hmalformed] at hk
    cases hk

/-- Persons have many tags, in an order or in none. -/
def tagged (isOrdered : Bool) : Model where
  classes := [
    { id := ⟨"person"⟩, name := some "Person", stereotype := some .kind
      attributes := [
        { id := ⟨"tags"⟩, name := some "tags", type := some ⟨"text"⟩, cardinality := "many"
          isOrdered }] },
    { id := ⟨"text"⟩, name := some "String", stereotype := some .datatype }]

/-- The cardinality of the tags is malformed; their role depends on the order alone. -/
theorem tagged_malformed (isOrdered : Bool) : (tagged isOrdered).ids.Nodup ∧
    ∃ a ∈ (tagged isOrdered).properties, ∃ c, Multiplicity.parse a.2.cardinality = none ∧
      (tagged isOrdered).roleOf a.1 a.2 =
        if isOrdered then .orderedAttribute c else .plainAttribute c := by
  cases isOrdered with
  | true => exact ⟨by decide +kernel, _, List.mem_cons_self, _, by decide +kernel, rfl⟩
  | false => exact ⟨by decide +kernel, _, List.mem_cons_self, _, by decide +kernel, rfl⟩

/-- Without an order the tags end the run. -/
theorem tagged_malformed_aborts_unless_ordered :
    (tagged false).ids.Nodup ∧ ∃ x p, (x, p) ∈ (tagged false).properties ∧
      (∀ reason, (tagged false).roleOf x p ≠ .skipped reason) ∧
      Multiplicity.parse p.cardinality = none ∧
      (∀ c, (tagged false).roleOf x p ≠ .orderedAttribute c) ∧
      ∃ d, (tagged false).encode {} = .error d := by
  obtain ⟨hid, ⟨x, p⟩, hp, c, hmalformed, hrole⟩ := tagged_malformed false
  dsimp only at hmalformed hrole
  have hskipped : ∀ reason, (tagged false).roleOf x p ≠ .skipped reason := by
    intro reason heq
    rw [hrole] at heq
    cases heq
  have hplain : ∀ c, (tagged false).roleOf x p ≠ .orderedAttribute c := by
    intro c' heq
    rw [hrole] at heq
    cases heq
  have haborts := malformed_aborts_unless_ordered hid hp hskipped hmalformed {}
  exact ⟨hid, x, p, hp, hskipped, hmalformed, hplain, haborts.1 hplain⟩

/-- In an order they do not: there is a module in spite of the malformed cardinality. -/
theorem not_forall_malformed_aborts :
    ¬ ∀ (m : Model) (x : Classifier) (p : Property) (o : RunScope), m.ids.Nodup →
      (x, p) ∈ m.properties → (∀ reason, m.roleOf x p ≠ .skipped reason) →
      Multiplicity.parse p.cardinality = none → ∃ d, m.encode o = .error d := by
  intro h
  obtain ⟨hid, ⟨x, p⟩, hp, c, hmalformed, hrole⟩ := tagged_malformed true
  obtain ⟨s, hs⟩ := exists_encoding_of_isOk (m := tagged true) (by decide +kernel)
  have hskipped : ∀ reason, (tagged true).roleOf x p ≠ .skipped reason := by
    intro reason heq
    rw [hrole] at heq
    cases heq
  obtain ⟨d, hd⟩ := h (tagged true) x p {} hid hp hskipped hmalformed
  rw [encode_eq_error_iff, hs] at hd
  cases hd

end Model

end OntoWorlds
