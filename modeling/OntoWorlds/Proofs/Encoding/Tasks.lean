import Mathlib.Tactic.SplitIfs
import OntoWorlds.Proofs.Encoding.Steps

/-!
# OntoWorlds — the tasks of a model

Each task of a model is a proper step. The modules that define the steps are gone through in their
order; what a step needs to know of its elements is that they belong to the model.

* `endsOf_eq_ok_iff`, `subsumptionOf_ok` — what the look-ups of a step amount to.
* `Task.IsOf` — the elements of the task belong to the model.
* `isProper_stepOf` — a task of the model is a proper step, after any requests.
-/

namespace OntoWorlds

open Alloy

variable {m : Model} {before : List Request}

/-! ## Classes -/

namespace Class

/-- A datatype signature requests and reads the name of the class. -/
theorem isProper_datatypeStep {c : Class} (hc : c ∈ m.classes) :
    c.datatypeStep.IsProper m before := by
  have hlabelled := Model.isLabelled_request (Model.label_mem_of_mem_classes hc)
  refine Step.isProper_of_requests_singleton rfl hlabelled trivial ?_
  intro n n' h
  have hown : n.own c.id = n'.own c.id := h
  simp only [datatypeStep, hown]

/-- An enumeration reads its own name and those of its literals. -/
theorem isProper_enumerationStep {c : Class} (hc : c ∈ m.classes) :
    c.enumerationStep.IsProper m before where
  labelled := by
    intro q hq
    rcases List.mem_cons.mp hq with rfl | hq
    · exact Model.isLabelled_declaredRequest (Model.label_mem_of_mem_classes hc)
    · obtain ⟨l, hl, rfl⟩ := List.mem_map.mp hq
      exact Model.isLabelled_request (Model.label_mem_of_mem_literals hc hl)
  -- no request here needs a name before it
  seeded := Request.seeded_of_forall fun q hq => by
    rcases List.mem_cons.mp hq with rfl | hq
    · trivial
    · obtain ⟨l, -, rfl⟩ := List.mem_map.mp hq
      trivial
  grounded := by
    intro n n' h
    have hown : n.own c.id = n'.own c.id :=
      h.of_mem (q := c.label.declaredRequest) (by simp [enumerationStep])
    -- each literal is requested under its own label
    have hliterals : c.literals.map (fun l => n.own l.id)
        = c.literals.map fun l => n'.own l.id := by
      apply List.map_congr_left
      intro l hl
      refine h.of_mem (q := l.label.request) ?_
      exact List.mem_append_right _ (List.mem_cons_of_mem _ (List.mem_map_of_mem hl))
    simp only [enumerationStep, hown, hliterals]

/-- A world field of instances reads the name of the class. -/
theorem isProper_extensionStep {c : Class} (hc : c ∈ m.classes) (base : BaseSignature) :
    (c.extensionStep base).IsProper m before := by
  have hlabelled := Model.isLabelled_declaredRequest (Model.label_mem_of_mem_classes hc)
  refine Step.isProper_of_requests_singleton rfl hlabelled trivial ?_
  intro n n' h
  have hown : n.own c.id = n'.own c.id := h
  simp only [extensionStep, hown]

/-- The step of a class of the model is proper. -/
theorem isProper_step {c : Class} (hc : c ∈ m.classes) : c.step.IsProper m before := by
  unfold step
  split
  · exact isProper_datatypeStep hc
  · split
    · exact isProper_enumerationStep hc
    · split
      · exact isProper_extensionStep hc _
      · exact Step.isProper_skip

end Class

namespace Model

theorem mem_covering_iff {c : Class} {base : BaseSignature} :
    c ∈ m.covering base ↔ c ∈ m.classes ∧ c.covers? = some base := by
  rw [covering, List.mem_filter, beq_iff_eq]

/-- The coverings read the names of the classes in them. -/
theorem isProper_coveringStep : m.coveringStep.IsProper m before where
  labelled := by
    intro q hq
    obtain ⟨c, hc, rfl⟩ := List.mem_map.mp hq
    exact isLabelled_request (label_mem_of_mem_classes (List.mem_filter.mp hc).1)
  seeded := Request.seeded_of_forall fun q hq => by
    obtain ⟨c, -, rfl⟩ := List.mem_map.mp hq
    trivial
  grounded := by
    intro n n' h
    have hfragment : ∀ base, m.coveringFragment n base = m.coveringFragment n' base := by
      intro base
      -- a class is in a covering only if it has been requested for one
      have hnames : (m.covering base).map (fun c => n.own c.id)
          = (m.covering base).map fun c => n'.own c.id := by
        apply List.map_congr_left
        intro c hc
        obtain ⟨hmem, hcovers⟩ := mem_covering_iff.mp hc
        refine h.of_mem (q := c.label.request) (List.mem_append_right _ ?_)
        refine List.mem_map_of_mem (f := fun d : Class => d.label.request) ?_
        exact List.mem_filter.mpr ⟨hmem, by rw [hcovers]; rfl⟩
      simp only [coveringFragment, hnames]
    simp only [coveringStep, hfragment]

/-! ## Generalizations -/

/-- A generalization has a subsumption only if both of its ends are found. -/
theorem subsumptionOf_ok {g : Generalization} {s : Subsumption} (h : m.subsumptionOf g = .ok s) :
    ∃ general specific, m.find g.general = some general ∧ m.find g.specific = some specific ∧
      s = m.subsumption general specific := by
  unfold subsumptionOf resolve at h
  -- if one of the look-ups fails, there is no subsumption
  cases hg : m.find g.general with
  | none => rw [hg] at h; cases h
  | some general =>
    cases hs : m.find g.specific with
    | none => rw [hg, hs] at h; cases h
    | some specific =>
      rw [hg, hs] at h
      exact ⟨general, specific, rfl, rfl, (Except.ok.inj h).symm⟩

/-- The requests of a subsumption are for fields of elements of the model. -/
theorem exists_of_mem_requests {general specific : Classifier} (hg : m.Has general)
    (hs : m.Has specific) {q : Request} (hq : q ∈ (m.subsumption general specific).requests) :
    ∃ x, m.Has x ∧ q = x.fieldRequest := by
  unfold subsumption at hq
  split at hq
  · obtain ⟨x, hx, rfl⟩ := List.mem_map.mp hq
    -- of the two elements, only those with a field are requested
    have hpair := (List.mem_filter.mp hx).1
    simp only [List.mem_cons, List.not_mem_nil, or_false] at hpair
    rcases hpair with rfl | rfl
    · exact ⟨_, hg, rfl⟩
    · exact ⟨_, hs, rfl⟩
  · cases hq

/-- Where a subsumption has fields, it is of like elements that have fields, which it requests. -/
theorem of_subsumption_fields {general specific a b : Classifier}
    (h : (m.subsumption general specific).fields = some (a, b)) :
    a = general ∧ b = specific ∧ m.hasField a = true ∧ m.hasField b = true ∧
      (m.subsumption general specific).requests = [a.fieldRequest, b.fieldRequest] := by
  unfold subsumption at h ⊢
  split at h
  -- elements of one sort, so both are compared by their fields
  · next hlike =>
    rw [if_pos hlike]
    dsimp only at h ⊢
    split at h
    · next hfields =>
      obtain ⟨rfl, rfl⟩ := Prod.mk.inj (Option.some.inj h)
      rw [Bool.and_eq_true] at hfields
      refine ⟨rfl, rfl, hfields.1, hfields.2, ?_⟩
      rw [List.filter_cons_of_pos hfields.1, List.filter_cons_of_pos hfields.2]
      rfl
    · cases h
  · cases h

/-- The fields of a subsumption can be requested. -/
theorem isProper_subsumption_requests (before : List Request) {general specific : Classifier}
    (hg : m.Has general) (hs : m.Has specific) :
    (∀ q ∈ (m.subsumption general specific).requests, q.IsLabelled m.labels) ∧
      Request.Seeded before (m.subsumption general specific).requests := by
  refine ⟨?_, Request.seeded_of_forall ?_⟩
  · intro q hq
    obtain ⟨x, hx, rfl⟩ := exists_of_mem_requests hg hs hq
    exact isLabelled_classifierRequest hx
  · intro q hq
    obtain ⟨x, -, rfl⟩ := exists_of_mem_requests hg hs hq
    exact isSeeded_classifierRequest x []

/-- The step of a generalization is proper. -/
theorem isProper_generalizationStep (g : Generalization) :
    (m.generalizationStep g).IsProper m before := by
  refine Step.isProper_given fun s hs => ?_
  obtain ⟨general, specific, hg, hsp, rfl⟩ := subsumptionOf_ok hs
  obtain ⟨hlabelled, hseeded⟩ :=
    isProper_subsumption_requests before (has_of_find hg) (has_of_find hsp)
  refine ⟨hlabelled, hseeded, ?_⟩
  intro n n' h
  dsimp only at h ⊢
  cases hfields : (m.subsumption general specific).fields with
  | none => rfl
  | some fields =>
    obtain ⟨a, b⟩ := fields
    -- the fields that are named are the ones requested
    obtain ⟨-, -, -, -, hrequests⟩ := of_subsumption_fields hfields
    rw [hrequests] at h
    have ha := h.of_mem (q := a.fieldRequest) (by simp)
    have hb := h.of_mem (q := b.fieldRequest) (by simp)
    simp only [Classifier.fieldName_eq, ha, hb]

/-- The lines of a set read the fields of its members. -/
theorem lines_congr (s : GeneralizationSet) {members : List (Classifier × Classifier)}
    {n n' : Names} (h : ∀ f ∈ members,
      f.1.fieldName n = f.1.fieldName n' ∧ f.2.fieldName n = f.2.fieldName n') :
    s.lines members n = s.lines members n' := by
  have hspecifics : members.map (fun f => f.2.fieldName n)
      = members.map fun f => f.2.fieldName n' :=
    List.map_congr_left fun f hf => (h f hf).2
  simp only [GeneralizationSet.lines, hspecifics]
  cases s.isComplete with
  | false => rfl
  | true =>
    cases members with
    | nil => rfl
    | cons f fs =>
      -- the general field of the lines is the one of the first member
      have hgeneral := (h f List.mem_cons_self).1
      simp only [hgeneral]

/-- The members seen so far have had their fields requested before the step. -/
theorem isProper_membersStep (s : GeneralizationSet) (members : List ElementId)
    {seen : List (Classifier × Classifier)}
    (hseen : ∀ f ∈ seen, f.1.fieldRequest ∈ before ∧ f.2.fieldRequest ∈ before) :
    (m.membersStep s members seen).IsProper m before := by
  -- by induction on the members that are left, with the requests of those before them
  induction members generalizing seen before with
  -- the fact at the end reads the fields of all members, which have been requested
  | nil =>
    refine Step.isProper_of_requests_nil rfl ?_
    intro n n' h
    have hlines : s.lines seen n = s.lines seen n' := by
      apply lines_congr
      intro f hf
      simp only [Classifier.fieldName_eq]
      exact ⟨h.of_mem (hseen f hf).1, h.of_mem (hseen f hf).2⟩
    show s.fragments seen n = s.fragments seen n'
    simp only [GeneralizationSet.fragments, hlines]
  | cons id members ih =>
    unfold membersStep
    split
    · exact Step.isProper_fail _
    · refine Step.isProper_given fun t ht => ?_
      obtain ⟨general, specific, hg, hsp, rfl⟩ := subsumptionOf_ok ht
      obtain ⟨hlabelled, hseeded⟩ :=
        isProper_subsumption_requests before (has_of_find hg) (has_of_find hsp)
      refine Step.isProper_requesting hlabelled hseeded ?_
      split
      · next a ha =>
        -- the member joins those seen, and its fields have just been requested
        obtain ⟨-, -, -, -, hrequests⟩ := of_subsumption_fields (a := a.1) (b := a.2) ha
        apply ih
        intro f hf
        rcases List.mem_append.mp hf with hf | hf
        · exact ⟨List.mem_append_left _ (hseen f hf).1, List.mem_append_left _ (hseen f hf).2⟩
        · obtain rfl := List.mem_singleton.mp hf
          rw [hrequests]
          exact ⟨by simp, by simp⟩
      · exact Step.isProper_skip

/-- The step of a generalization set is proper. -/
theorem isProper_generalizationSetStep (s : GeneralizationSet) :
    (m.generalizationSetStep s).IsProper m before := by
  unfold generalizationSetStep
  split
  · exact isProper_membersStep s s.members (by simp)
  · exact Step.isProper_skip

/-! ## Relations -/

/-- The ends of a relation are found exactly if it has both and both have types in the model. -/
theorem endsOf_eq_ok_iff {r : Relation} {e : Ends} :
    m.endsOf r = .ok e ↔
      r.sourceEnd = some e.sourceEnd ∧ r.targetEnd = some e.targetEnd ∧
        m.typeOf e.sourceEnd = some e.source ∧ m.typeOf e.targetEnd = some e.target := by
  unfold endsOf
  split
  -- both ends are there, so their types decide
  · next s t hs ht =>
    rw [hs, ht, Option.some.injEq, Option.some.injEq]
    unfold resolveType
    cases hsource : m.typeOf s with
    | none =>
      constructor
      · rintro ⟨⟩
      · rintro ⟨rfl, -, h, -⟩
        rw [hsource] at h
        cases h
    | some source =>
      cases htarget : m.typeOf t with
      | none =>
        constructor
        · rintro ⟨⟩
        · rintro ⟨-, rfl, -, h⟩
          rw [htarget] at h
          cases h
      | some target =>
        constructor
        · rintro ⟨⟩
          exact ⟨rfl, rfl, hsource, htarget⟩
        · rintro ⟨rfl, rfl, h₁, h₂⟩
          rw [hsource] at h₁
          rw [htarget] at h₂
          obtain rfl := Option.some.inj h₁
          obtain rfl := Option.some.inj h₂
          rfl
  · next hnone =>
    constructor
    · rintro ⟨⟩
    · rintro ⟨hs, ht, -⟩
      exact absurd ht (hnone _ _ hs)

theorem sourceOf_of_endsOf {r : Relation} {e : Ends} (h : m.endsOf r = .ok e) :
    m.sourceOf r = some e.source := by
  obtain ⟨hs, -, hsource, -⟩ := endsOf_eq_ok_iff.mp h
  rw [sourceOf, hs]
  exact hsource

theorem targetOf_of_endsOf {r : Relation} {e : Ends} (h : m.endsOf r = .ok e) :
    m.targetOf r = some e.target := by
  obtain ⟨-, ht, -, htarget⟩ := endsOf_eq_ok_iff.mp h
  rw [targetOf, ht]
  exact htarget

theorem has_source_of_endsOf {r : Relation} {e : Ends} (h : m.endsOf r = .ok e) :
    m.Has e.source :=
  has_of_sourceOf (sourceOf_of_endsOf h)

theorem has_target_of_endsOf {r : Relation} {e : Ends} (h : m.endsOf r = .ok e) :
    m.Has e.target :=
  has_of_targetOf (targetOf_of_endsOf h)

/-- Names that agree on the request for a field agree on what the field is called. -/
theorem fieldName_congr {r : Relation} {n n' : Names} {qs : List Request}
    (h : n.AgreeOn n' (qs.map Request.key)) (hr : r.fieldRequest ∈ qs) :
    r.fieldName n = r.fieldName n' := by
  rw [Relation.fieldName_eq, Relation.fieldName_eq]
  exact h.of_mem hr

/-- Names that agree on the request for a name agree on the name. -/
theorem own_congr {l : Label} {n n' : Names} {qs : List Request}
    (h : n.AgreeOn n' (qs.map Request.key)) (hl : l.request ∈ qs) : n.own l.id = n'.own l.id :=
  h.of_mem hl

/-- The field and the two ends of a relation can be requested. -/
theorem isProper_endRequests (before : List Request) {r : Relation} {e : Ends}
    (hr : r ∈ m.relations)
    (he : m.endsOf r = .ok e) :
    (∀ q ∈ [r.fieldRequest, e.source.label.request, e.target.label.request],
        q.IsLabelled m.labels) ∧
      Request.Seeded before [r.fieldRequest, e.source.label.request, e.target.label.request] := by
  refine ⟨?_, isSeeded_fieldRequest r before, trivial, trivial, trivial⟩
  simp only [List.forall_mem_cons, List.not_mem_nil, false_implies, implies_true, and_true]
  exact ⟨isLabelled_fieldRequest hr,
    isLabelled_request (label_mem_of_has (has_source_of_endsOf he)),
    isLabelled_request (label_mem_of_has (has_target_of_endsOf he))⟩

/-- A field between datatypes reads its name and those of its ends. -/
theorem isProper_inlineStep {r : Relation} {e : Ends} (hr : r ∈ m.relations)
    (he : m.endsOf r = .ok e) : (r.inlineStep e).IsProper m before where
  labelled := (isProper_endRequests before hr he).1
  seeded := (isProper_endRequests before hr he).2
  grounded := by
    intro n n' h
    have hfield := fieldName_congr h (r := r) (by simp [Relation.inlineStep])
    have hsource : n.own e.source.id = n'.own e.source.id :=
      own_congr h (l := e.source.label) (by simp [Relation.inlineStep])
    have htarget : n.own e.target.id = n'.own e.target.id :=
      own_congr h (l := e.target.label) (by simp [Relation.inlineStep])
    simp only [Relation.inlineStep, hfield, hsource, htarget]

/-- A derived material relation is founded by the target of its derivation. -/
theorem founderOf_ok {r : Relation} {x : Classifier} (h : m.founderOf r = some (.ok x)) :
    ∃ d e, m.derivationOf r = some d ∧ m.isDerivedMaterial r = true ∧ m.endsOf d = .ok e ∧
      e.target = x := by
  unfold founderOf at h
  split at h
  · next d hd =>
    split at h
    · next hderived =>
      have hends := Option.some.inj h
      cases he : m.endsOf d with
      | error f => rw [he] at hends; cases hends
      | ok e =>
        rw [he] at hends
        exact ⟨d, e, hd, hderived, he, Except.ok.inj hends⟩
    · cases h
  · cases h

/-- The step of a relation's field is proper, whatever its shape. -/
theorem isProper_fieldStep {r : Relation} {e : Ends} (hr : r ∈ m.relations)
    (he : m.endsOf r = .ok e) : (m.fieldStep r e).IsProper m before := by
  obtain ⟨hlabelled, hseeded⟩ := isProper_endRequests before hr he
  unfold fieldStep
  refine Step.isProper_requesting hlabelled hseeded ?_
  -- each shape reads the field and the two ends, requested just before
  have hread : ∀ {n n' : Names} {qs : List Request}, n.AgreeOn n' (qs.map Request.key) →
      before ++ [r.fieldRequest, e.source.label.request, e.target.label.request] ⊆ qs →
      r.fieldName n = r.fieldName n' ∧ n.own e.source.id = n'.own e.source.id ∧
        n.own e.target.id = n'.own e.target.id := by
    intro n n' qs h hsub
    exact ⟨fieldName_congr h (hsub (by simp)), own_congr h (l := e.source.label) (hsub (by simp)),
      own_congr h (l := e.target.label) (hsub (by simp))⟩
  split
  -- the field of a derived relation reads the name of the founder as well, which it requests
  · next founder hfounder =>
    refine Step.isProper_given fun relator hrelator => ?_
    have hhas : m.Has relator := by
      rw [hrelator] at hfounder
      obtain ⟨d, de, -, -, hde, rfl⟩ := founderOf_ok hfounder
      exact has_target_of_endsOf hde
    refine ⟨?_, ⟨trivial, trivial⟩, ?_⟩
    · intro q hq
      obtain rfl := List.mem_singleton.mp hq
      exact isLabelled_request (label_mem_of_has hhas)
    · intro n n' h
      obtain ⟨hfield, hsource, htarget⟩ := hread h (List.subset_append_left _ _)
      have hrel : n.own relator.id = n'.own relator.id :=
        own_congr h (l := relator.label) (by simp [Relation.foundedStep])
      simp only [Relation.foundedStep, hfield, hsource, htarget, hrel]
  -- the other two shapes request nothing more
  · split
    · refine Step.isProper_of_requests_nil rfl ?_
      intro n n' h
      obtain ⟨hfield, hsource, htarget⟩ := hread h (List.Subset.refl _)
      simp only [Relation.indexedStep, hfield, hsource, htarget]
    · refine Step.isProper_given fun atSource _ => Step.isProper_given fun atTarget _ => ?_
      refine Step.isProper_of_requests_nil rfl ?_
      intro n n' h
      obtain ⟨hfield, hsource, htarget⟩ := hread h (List.Subset.refl _)
      simp only [hfield, hsource, htarget]

theorem mem_relations_of_findMediation {relator mediated : ElementId} {r : Relation}
    (h : m.findMediation relator mediated = some r) : r ∈ m.relations :=
  List.mem_of_find?_eq_some h

/-- The step of a derivation is proper: the three fields and the three names it reads are requested.
-/
theorem isProper_derivationStep {material : Relation} {relator : Class}
    (hm : material ∈ m.relations) (hc : relator ∈ m.classes) :
    (m.derivationStep material relator).IsProper m before := by
  refine Step.isProper_given fun e he => ?_
  split
  · next atSource atTarget hs ht =>
    refine ⟨?_, ?_, ?_⟩
    · simp only [List.forall_mem_cons, List.not_mem_nil, false_implies, implies_true, and_true]
      exact ⟨isLabelled_fieldRequest hm,
        isLabelled_fieldRequest (mem_relations_of_findMediation hs),
        isLabelled_fieldRequest (mem_relations_of_findMediation ht),
        isLabelled_request (label_mem_of_mem_classes hc),
        isLabelled_request (label_mem_of_has (has_source_of_endsOf he)),
        isLabelled_request (label_mem_of_has (has_target_of_endsOf he))⟩
    -- none of the six needs a name before it
    · exact ⟨isSeeded_fieldRequest _ _, isSeeded_fieldRequest _ _, isSeeded_fieldRequest _ _,
        trivial, trivial, trivial, trivial⟩
    · intro n n' h
      have hfield := fieldName_congr h (r := material) (by simp)
      have hatSource := fieldName_congr h (r := atSource) (by simp)
      have hatTarget := fieldName_congr h (r := atTarget) (by simp)
      have hrelator : n.own relator.id = n'.own relator.id :=
        own_congr h (l := relator.label) (by simp)
      have hsource : n.own e.source.id = n'.own e.source.id :=
        own_congr h (l := e.source.label) (by simp)
      have htarget : n.own e.target.id = n'.own e.target.id :=
        own_congr h (l := e.target.label) (by simp)
      simp only [hfield, hatSource, hatTarget, hrelator, hsource, htarget]
  · exact Step.isProper_skip

/-- The step of a relation of the model is proper, by the cases of its definition. -/
theorem isProper_relationStep {r : Relation} (hr : r ∈ m.relations) :
    (m.relationStep r).IsProper m before := by
  refine Step.isProper_given fun e he => ?_
  split
  · exact isProper_inlineStep hr he
  split
  · exact Step.isProper_skip
  split
  · split
    · next material relator hs ht =>
      have hmaterial := has_source_of_endsOf he
      have hrelator := has_target_of_endsOf he
      rw [hs] at hmaterial
      rw [ht] at hrelator
      exact isProper_derivationStep hmaterial hrelator
    · exact Step.isProper_skip
  · exact isProper_fieldStep hr he

/-! ## Properties -/

/-- The values of an attribute belong to a signature by the class that types it. -/
theorem valueSignature_ok {p : Property} {s : ValueSignature} (h : m.valueSignature p = .ok s) :
    ∃ c ∈ m.classes, m.typeOf p = some (.ofClass c) ∧ c.valueSignature? = some s := by
  unfold valueSignature at h
  split at h
  · next c hc =>
    split at h
    · next t ht =>
      obtain rfl := Except.ok.inj h
      exact ⟨c, has_of_typeOf hc, hc, ht⟩
    · cases h
  · cases h

/-- A signature of its own is the class itself. -/
theorem of_valueSignature? {c d : Class} (h : c.valueSignature? = some (.ofClass d)) :
    d = c ∧ c.isValueType = true := by
  unfold Class.valueSignature? at h
  split at h
  · next hvalue =>
    exact ⟨(ValueSignature.ofClass.inj (Option.some.inj h)).symm, hvalue⟩
  · obtain ⟨b, -, hb⟩ := Option.map_eq_some_iff.mp h
    cases hb

/-- The signature of an attribute's values can be requested. -/
theorem isProper_signatureRequests (before : List Request) {p : Property} {s : ValueSignature}
    (h : m.valueSignature p = .ok s) :
    (∀ q ∈ s.requests, q.IsLabelled m.labels) ∧ Request.Seeded before s.requests := by
  obtain ⟨c, hc, -, hs⟩ := valueSignature_ok h
  cases s with
  | base b => exact ⟨by simp [ValueSignature.requests], trivial⟩
  | ofClass d =>
    obtain ⟨rfl, -⟩ := of_valueSignature? hs
    refine ⟨?_, trivial, trivial⟩
    intro q hq
    obtain rfl := List.mem_singleton.mp hq
    exact isLabelled_request (label_mem_of_mem_classes hc)

/-- Names that agree on the requests for a signature agree on its name. -/
theorem signatureName_congr {s : ValueSignature} {n n' : Names} {qs : List Request}
    (h : n.AgreeOn n' (qs.map Request.key)) (hs : s.requests ⊆ qs) : s.name n = s.name n' := by
  cases s with
  | base b => rfl
  | ofClass c => exact own_congr h (l := c.label) (hs (by simp [ValueSignature.requests]))

/-- An attribute and its owner can be requested. -/
theorem isProper_attributeRequests (before : List Request) {c : Class} {p : Property}
    (hc : c ∈ m.classes) (hp : (.ofClass c, p) ∈ m.properties) :
    (∀ q ∈ [p.label.request, c.label.request], q.IsLabelled m.labels) ∧
      Request.Seeded before [p.label.request, c.label.request] := by
  refine ⟨?_, trivial, trivial, trivial⟩
  simp only [List.forall_mem_cons, List.not_mem_nil, false_implies, implies_true, and_true]
  exact ⟨isLabelled_request (label_mem_of_mem_properties hp),
    isLabelled_request (label_mem_of_mem_classes hc)⟩

/-- An attribute of a datatype reads its name, its owner and its type. -/
theorem isProper_datatypeAttributeStep {c : Class} {p : Property} (hc : c ∈ m.classes)
    (hp : (.ofClass c, p) ∈ m.properties) :
    (m.datatypeAttributeStep c p).IsProper m before := by
  obtain ⟨hlabelled, hseeded⟩ := isProper_attributeRequests before hc hp
  refine Step.isProper_requesting hlabelled hseeded ?_
  refine Step.isProper_given fun s hs => ?_
  obtain ⟨hslabelled, hsseeded⟩ := isProper_signatureRequests _ hs
  refine Step.isProper_requesting hslabelled hsseeded ?_
  refine Step.isProper_given fun k _ => Step.isProper_of_requests_nil rfl ?_
  -- all names have been requested by now
  intro n n' h
  have hown : n.own p.id = n'.own p.id := own_congr h (l := p.label) (by simp)
  have howner : n.own c.id = n'.own c.id := own_congr h (l := c.label) (by simp)
  have hname := signatureName_congr h (s := s) (List.subset_append_right _ _)
  simp only [Property.inlineFragments, hown, howner, hname]

/-- An ordered attribute reads its accessor as well, an alias made from its name. -/
theorem isProper_orderedAttributeStep {c : Class} {p : Property} (hc : c ∈ m.classes)
    (hp : (.ofClass c, p) ∈ m.properties) :
    (m.orderedAttributeStep c p).IsProper m before := by
  obtain ⟨hlabelled, hseeded⟩ := isProper_attributeRequests before hc hp
  refine Step.isProper_requesting hlabelled hseeded ?_
  refine Step.isProper_given fun s hs => ?_
  obtain ⟨hslabelled, hsseeded⟩ :=
    isProper_signatureRequests (before ++ [p.label.request, c.label.request]) hs
  refine ⟨?_, Request.seeded_append.mpr ⟨hsseeded, ⟨p.label.base, ?_⟩, trivial⟩, ?_⟩
  -- the requests are labelled
  · intro q hq
    rcases List.mem_append.mp hq with hq | hq
    · exact hslabelled q hq
    · obtain rfl := List.mem_singleton.mp hq
      trivial
  · -- the alias is like the name of the attribute, which was requested first
    simp [Label.request, Property.label]
  · intro n n' h
    have hown : n.own p.id = n'.own p.id := own_congr h (l := p.label) (by simp)
    have howner : n.own c.id = n'.own c.id := own_congr h (l := c.label) (by simp)
    have hbyname : n.alias p.id = n'.alias p.id :=
      h.of_mem (q := .aliasLike p.id p.id) (by simp)
    have hname := signatureName_congr h (s := s) (fun q hq => by simp [hq])
    simp only [Property.orderedFragments, hown, howner, hbyname, hname]

/-- So does any other attribute of a class. -/
theorem isProper_plainAttributeStep {c : Class} {p : Property} (hc : c ∈ m.classes)
    (hp : (.ofClass c, p) ∈ m.properties) :
    (m.plainAttributeStep c p).IsProper m before := by
  obtain ⟨hlabelled, hseeded⟩ := isProper_attributeRequests before hc hp
  refine Step.isProper_requesting hlabelled hseeded ?_
  refine Step.isProper_given fun s hs => ?_
  obtain ⟨hslabelled, hsseeded⟩ := isProper_signatureRequests _ hs
  refine Step.isProper_requesting hslabelled hsseeded ?_
  refine Step.isProper_given fun k _ => ⟨?_, ⟨⟨p.label.base, ?_⟩, trivial⟩, ?_⟩
  · intro q hq
    obtain rfl := List.mem_singleton.mp hq
    trivial
  -- the alias is like the name of the attribute here, too
  · simp [Label.request, Property.label]
  · intro n n' h
    have hown : n.own p.id = n'.own p.id := own_congr h (l := p.label) (by simp)
    have howner : n.own c.id = n'.own c.id := own_congr h (l := c.label) (by simp)
    have hbyname : n.alias p.id = n'.alias p.id :=
      h.of_mem (q := .aliasLike p.id p.id) (by simp)
    have hname := signatureName_congr h (s := s) (fun q hq => by simp [hq])
    simp only [Property.plainFragments, hown, howner, hbyname, hname]

/-- The view of an end of a relation of the model. -/
structure HasView (m : Model) (v : EndView) : Prop where
  relation : v.relation ∈ m.relations
  property : v.property ∈ v.relation.ends
  own : m.Has v.own
  opposite : m.Has v.opposite

/-- The view of an end from either side is on elements of the model. -/
theorem hasView_ofEnds {r : Relation} {p : Property} {e : Ends} (hr : r ∈ m.relations)
    (hp : p ∈ r.ends) (he : m.endsOf r = .ok e) (side : EndSide) :
    m.HasView (EndView.ofEnds r p side e) := by
  cases side with
  | source => exact ⟨hr, hp, has_source_of_endsOf he, has_target_of_endsOf he⟩
  | target => exact ⟨hr, hp, has_target_of_endsOf he, has_source_of_endsOf he⟩

/-- The name that the alias of an end is made from has been requested before it. -/
theorem named_requested (v : EndView) :
    ∃ base, Request.name v.named base ∈ [v.relation.fieldRequest, v.own.label.request,
      v.opposite.label.request]
        ++ if v.property.label.isNamed then [v.property.label.request] else [] := by
  unfold EndView.named
  by_cases hnamed : v.property.label.isNamed = true
  · rw [if_pos hnamed, if_pos hnamed]
    exact ⟨v.property.label.base, by simp [Label.request, Property.label]⟩
  · rw [if_neg hnamed, if_neg hnamed]
    exact ⟨v.own.label.base, by simp [Label.request, Classifier.id]⟩

/-- The step of a relation end is proper. -/
theorem isProper_endStep {v : EndView} (hv : m.HasView v) : (v.step m).IsProper m before := by
  have hp : (.ofRelation v.relation, v.property) ∈ m.properties :=
    mem_properties_iff.mpr (Or.inr ⟨_, hv.relation, hv.property, rfl⟩)
  refine Step.isProper_requesting ?_ ?_ ?_
  -- the requests are labelled
  · intro q hq
    simp only [EndView.requests, List.mem_append, List.mem_cons, List.not_mem_nil, or_false] at hq
    rcases hq with ((rfl | rfl | rfl) | hq) | rfl
    · exact isLabelled_fieldRequest hv.relation
    · exact isLabelled_request (label_mem_of_has hv.own)
    · exact isLabelled_request (label_mem_of_has hv.opposite)
    · split at hq
      · obtain rfl := List.mem_singleton.mp hq
        exact isLabelled_request (label_mem_of_mem_properties hp)
      · cases hq
    · trivial
  -- and seeded: only the accessor is made from a name, that of the end or of its type
  · unfold EndView.requests
    rw [Request.seeded_append]
    refine ⟨Request.seeded_of_forall ?_, ?_, trivial⟩
    · intro q hq
      simp only [List.mem_append, List.mem_cons, List.not_mem_nil, or_false] at hq
      rcases hq with (rfl | rfl | rfl) | hq
      · exact isSeeded_fieldRequest _ _
      · trivial
      · trivial
      · split at hq
        · obtain rfl := List.mem_singleton.mp hq
          trivial
        · cases hq
    · obtain ⟨base, hbase⟩ := named_requested v
      exact ⟨base, List.mem_append_right _ hbase⟩
  · -- what the end emits reads the names requested just before
    refine ⟨?_, ?_, ?_⟩
    · cases v.property.multiplicity <;> simp [Step.emitting, Step.given, Step.fail]
    · cases v.property.multiplicity <;> trivial
    · intro n n' h
      have hsub : v.requests ⊆ before ++ v.requests ++ (Step.emitting
          (fun n => .accessor (v.accessor m n) :: v.immutability n)
          (Step.given v.property.multiplicity fun k =>
            { fragments := v.multiplicityFact m k })).requests := by
        intro q hq
        simp [hq]
      have hfield := fieldName_congr h (r := v.relation) (hsub (by simp [EndView.requests]))
      have hown : n.own v.own.id = n'.own v.own.id :=
        own_congr h (l := v.own.label) (hsub (by simp [EndView.requests]))
      have hopposite : n.own v.opposite.id = n'.own v.opposite.id :=
        own_congr h (l := v.opposite.label) (hsub (by simp [EndView.requests]))
      have hbyname : n.alias v.property.id = n'.alias v.property.id :=
        h.of_mem (q := .aliasLike v.property.id v.named) (hsub (by simp [EndView.requests]))
      -- the accessor and immutability are emitted in either case, the count only if it can be read
      cases hk : v.property.multiplicity with
      | error d =>
        simp only [Step.emitting, Step.given, Step.fail, EndView.accessor, EndView.projection,
          EndView.immutability, hfield, hown, hopposite, hbyname]
      | ok k =>
        simp only [Step.emitting, Step.given, EndView.accessor, EndView.projection,
          EndView.immutability, EndView.multiplicityFact, EndView.counted, hfield, hown, hopposite,
          hbyname]

/-! ## Roles -/

/-- Only attributes of datatypes have this role. -/
theorem roleOf_datatypeAttribute {x : Classifier} {p : Property} {c : Class}
    (h : m.roleOf x p = .datatypeAttribute c) : x = .ofClass c ∧ c.isDatatype = true := by
  cases x with
  | ofClass d =>
    simp only [roleOf, attributeRole] at h
    split at h
    · next hd =>
      obtain rfl := PropertyRole.datatypeAttribute.inj h
      exact ⟨rfl, hd⟩
    · split_ifs at h
  | ofRelation r =>
    simp only [roleOf, endRole] at h
    split_ifs at h

/-- The attributes that are world fields: of a class that is one, with a type that may have
values. -/
structure IsFieldAttribute (m : Model) (c : Class) (p : Property) : Prop where
  notDatatype : c.isDatatype = false
  worldField : c.hasWorldField = true
  valued : m.mayHaveValues p = true

/-- An ordered attribute is a world field of its class. -/
theorem roleOf_orderedAttribute {x : Classifier} {p : Property} {c : Class}
    (h : m.roleOf x p = .orderedAttribute c) :
    x = .ofClass c ∧ m.IsFieldAttribute c p ∧ p.isOrdered = true := by
  cases x with
  | ofClass d =>
    simp only [roleOf, attributeRole] at h
    split_ifs at h with h₁ h₂ h₃ h₄
    obtain rfl := PropertyRole.orderedAttribute.inj h
    simp only [Bool.not_eq_true, Bool.not_eq_true', Bool.not_eq_false] at h₁ h₂ h₃
    exact ⟨rfl, ⟨h₁, h₂, h₃⟩, h₄⟩
  | ofRelation r =>
    simp only [roleOf, endRole] at h
    split_ifs at h

/-- So is an attribute without an order. -/
theorem roleOf_plainAttribute {x : Classifier} {p : Property} {c : Class}
    (h : m.roleOf x p = .plainAttribute c) :
    x = .ofClass c ∧ m.IsFieldAttribute c p ∧ p.isOrdered = false := by
  cases x with
  | ofClass d =>
    simp only [roleOf, attributeRole] at h
    split_ifs at h with h₁ h₂ h₃ h₄
    obtain rfl := PropertyRole.plainAttribute.inj h
    simp only [Bool.not_eq_true, Bool.not_eq_true', Bool.not_eq_false] at h₁ h₂ h₃ h₄
    exact ⟨rfl, ⟨h₁, h₂, h₃⟩, h₄⟩
  | ofRelation r =>
    simp only [roleOf, endRole] at h
    split_ifs at h

/-- The relations that are world fields: represented, no derivations, not between datatypes. -/
structure IsFieldRelation (m : Model) (r : Relation) : Prop where
  notInline : m.holdsBetweenDatatypes r = false
  notDerivation : r.isDerivation = false
  represented : m.isRepresented r = true

/-- An end with a role belongs to a world field, and its side is told by its id. -/
theorem roleOf_relationEnd {x : Classifier} {p : Property} {r : Relation} {side : EndSide}
    (h : m.roleOf x p = .relationEnd r side) :
    x = .ofRelation r ∧ m.IsFieldRelation r ∧
      side = if r.isSourceEnd p then .source else .target := by
  cases x with
  | ofClass d =>
    simp only [roleOf, attributeRole] at h
    split_ifs at h
  | ofRelation q =>
    simp only [roleOf, endRole] at h
    split_ifs at h with h₁ h₂ h₃ h₄ <;> obtain ⟨rfl, rfl⟩ := PropertyRole.relationEnd.inj h <;>
      simp only [Bool.not_eq_true, Bool.not_eq_true', Bool.not_eq_false] at h₁ h₂ h₃
    · exact ⟨rfl, ⟨h₁, h₂, h₃⟩, by rw [if_pos h₄]⟩
    · exact ⟨rfl, ⟨h₁, h₂, h₃⟩, by rw [if_neg h₄]⟩

/-- The step of a property of the model is proper, by its role. -/
theorem isProper_propertyStep {x : Classifier} {p : Property} (h : (x, p) ∈ m.properties) :
    (m.propertyStep x p).IsProper m before := by
  unfold propertyStep
  split
  · next c hrole =>
    obtain ⟨rfl, -⟩ := roleOf_datatypeAttribute hrole
    exact isProper_datatypeAttributeStep (has_of_mem_properties h) h
  · next c hrole =>
    obtain ⟨rfl, -⟩ := roleOf_orderedAttribute hrole
    exact isProper_orderedAttributeStep (has_of_mem_properties h) h
  · next c hrole =>
    obtain ⟨rfl, -⟩ := roleOf_plainAttribute hrole
    exact isProper_plainAttributeStep (has_of_mem_properties h) h
  · next r side hrole =>
    obtain ⟨rfl, -⟩ := roleOf_relationEnd hrole
    refine Step.isProper_given fun e he => ?_
    have hp := mem_ends_of_mem_properties h
    exact isProper_endStep (hasView_ofEnds (has_of_mem_properties h) hp he side)
  · exact Step.isProper_skip

/-! ## Tasks -/

end Model

/-- The elements of the task belong to the model. -/
def Task.IsOf (m : Model) : Task → Prop
  | .klass c => c ∈ m.classes
  | .coverings => True
  | .generalization g => g ∈ m.generalizations
  | .generalizationSet s => s ∈ m.generalizationSets
  | .relation r => r ∈ m.relations
  | .property x p => (x, p) ∈ m.properties

namespace Model

/-- The tasks of a run are on elements of the model. -/
theorem isOf_of_mem_tasks {t : Task} (h : t ∈ m.tasks) : t.IsOf m := by
  simp only [tasks, List.mem_append, List.mem_map, List.mem_singleton, Prod.exists] at h
  rcases h with ((((⟨c, hc, rfl⟩ | rfl) | ⟨g, hg, rfl⟩) | ⟨s, hs, rfl⟩) | ⟨r, hr, rfl⟩)
    | ⟨x, p, hp, rfl⟩
  · exact hc
  · trivial
  · exact hg
  · exact hs
  · exact hr
  · exact hp

/-- Classes come first. -/
theorem exists_tasks_eq (m : Model) : ∃ later, m.tasks = m.classes.map .klass ++ later := by
  simp only [tasks, List.append_assoc]
  exact ⟨_, rfl⟩

theorem mem_tasks_of_mem_classes {c : Class} (h : c ∈ m.classes) : .klass c ∈ m.tasks := by
  simp only [tasks, List.mem_append]
  exact Or.inl (Or.inl (Or.inl (Or.inl (Or.inl (List.mem_map_of_mem h)))))

/-- Every relation has its task in a run. -/
theorem mem_tasks_of_mem_relations {r : Relation} (h : r ∈ m.relations) :
    .relation r ∈ m.tasks := by
  simp only [tasks, List.mem_append]
  exact Or.inl (Or.inr (List.mem_map_of_mem h))

/-- Every property has its task in a run. -/
theorem mem_tasks_of_mem_properties {x : Classifier} {p : Property} (h : (x, p) ∈ m.properties) :
    .property x p ∈ m.tasks := by
  simp only [tasks, List.mem_append, List.mem_map]
  exact Or.inr ⟨(x, p), h, rfl⟩

/-- **Proper steps.** Every task on elements of the model is a proper step, after any requests. -/
theorem isProper_stepOf (before : List Request) {t : Task} (h : t.IsOf m) :
    (m.stepOf t).IsProper m before := by
  cases t with
  | klass c => exact Class.isProper_step h
  | coverings => exact isProper_coveringStep
  | generalization g => exact isProper_generalizationStep g
  | generalizationSet s => exact isProper_generalizationSetStep s
  | relation r => exact isProper_relationStep h
  | property x p => exact isProper_propertyStep h

end Model

end OntoWorlds
