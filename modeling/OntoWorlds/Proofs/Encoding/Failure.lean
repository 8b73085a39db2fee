import OntoWorlds.Proofs.Encoding.Outcomes

/-!
# OntoWorlds — what a failed step leaves behind

A step looks up and reads what it needs before it emits anything, so one that meets a defect leaves
the fragments of the session as they were. The end of a relation is the exception: its accessor
comes before its multiplicity is read. If the cardinality of the end is malformed the step fails,
and the accessor and the immutability of the end are left behind.

* `Step.IsSilent` — a step that emits nothing if it fails; composed along `Step.given`.
* `Model.Strands` — the tasks that fail with a fragment already emitted.
* `Session.sections_eq_iff_of_failure` — in any session, a failed task leaves all sections as they
  were unless it is one of these.
-/

namespace OntoWorlds

open Alloy

/-! ## Silent steps -/

/-- If the step fails, it emits nothing. -/
def Step.IsSilent (s : Step) : Prop := ∀ d, s.failure = some d → ∀ n, s.fragments n = []

namespace Step

/-- A step without a defect has nothing to keep quiet about. -/
theorem isSilent_of_failure_none {s : Step} (h : s.failure = none) : s.IsSilent := by
  intro d hd
  rw [h] at hd
  cases hd

/-- Doing nothing is silent. -/
theorem isSilent_skip : skip.IsSilent := isSilent_of_failure_none rfl

/-- A step that fails at once has emitted nothing. -/
theorem isSilent_fail (d : Defect) : (fail d).IsSilent := fun _ _ _ => rfl

/-- Requests made first leave a step silent. -/
theorem IsSilent.requesting {s : Step} (h : s.IsSilent) (requests : List Request) :
    (s.requesting requests).IsSilent := by
  intro d hd n
  rw [requesting_fragments]
  exact h d hd n

/-- A step that waits for a value is silent if it is for every value. -/
theorem isSilent_given {α : Type} {e : Except Defect α} {next : α → Step}
    (h : ∀ a, e = .ok a → (next a).IsSilent) : (given e next).IsSilent := by
  cases e with
  | error d => exact isSilent_fail d
  | ok a => exact h a rfl

end Step

open Step (isSilent_given isSilent_skip isSilent_fail isSilent_of_failure_none)

/-! ## Stranded ends -/

/-- The task comes to an end of a relation whose multiplicity cannot be read. -/
inductive Model.Strands (m : Model) : Task → EndView → Prop
  | relationEnd {owner : Classifier} {p : Property} {r : Relation} {side : EndSide} {e : Ends}
      (hrole : m.roleOf owner p = .relationEnd r side) (he : m.endsOf r = .ok e)
      (hmalformed : Multiplicity.parse p.cardinality = none) :
      Strands m (.property owner p) (EndView.ofEnds r p side e)

namespace Model

variable {m : Model} {t : Task} {v : EndView}

/-- What remains of the step of a stranded end. -/
theorem stepOf_of_strands (h : m.Strands t v) (n : Names) :
    (m.stepOf t).failure = some (.invalidCardinality v.property.cardinality) ∧
      (m.stepOf t).fragments n = .accessor (v.accessor m n) :: v.immutability n := by
  cases h with
  | @relationEnd owner p r side e hrole he hmalformed =>
    -- the view of the end keeps the property, and with it the malformed cardinality
    have hk : (EndView.ofEnds r p side e).property.multiplicity
        = .error (.invalidCardinality p.cardinality) := by
      rw [property_ofEnds, Property.multiplicity, hmalformed]
    have hstep : m.stepOf (.property owner p) = (EndView.ofEnds r p side e).step m := by
      simp only [stepOf, propertyStep, hrole, relationEndStep, he, Step.given_ok]
    rw [hstep, EndView.step, hk, property_ofEnds]
    exact ⟨rfl, List.append_nil _⟩

/-! ## Steps that are silent -/

/-- The members of a set are looked up before its fact is stated. -/
theorem isSilent_membersStep (s : GeneralizationSet) (members : List ElementId)
    (seen : List (Classifier × Classifier)) : (m.membersStep s members seen).IsSilent := by
  -- by induction on the members: the fact is emitted at the end of the list, which is no failure
  induction members generalizing seen with
  | nil => exact isSilent_of_failure_none rfl
  | cons id members ih =>
    unfold membersStep
    split
    · exact isSilent_fail _
    · refine isSilent_given fun subsumption _ => Step.IsSilent.requesting ?_ _
      split
      · exact ih _
      · exact isSilent_skip

/-- The step of a generalization set is silent. -/
theorem isSilent_generalizationSetStep (s : GeneralizationSet) :
    (m.generalizationSetStep s).IsSilent := by
  unfold generalizationSetStep
  split
  · exact isSilent_membersStep s s.members []
  · exact isSilent_skip

/-- The step of a derivation is silent. -/
theorem isSilent_derivationStep (material : Relation) (relator : Class) :
    (m.derivationStep material relator).IsSilent := by
  unfold derivationStep
  refine isSilent_given fun e _ => ?_
  split
  · exact isSilent_of_failure_none rfl
  · exact isSilent_skip

/-- The field of a relation is emitted when nothing can fail any more. -/
theorem isSilent_fieldStep (r : Relation) (e : Ends) : (m.fieldStep r e).IsSilent := by
  unfold fieldStep
  refine Step.IsSilent.requesting ?_ _
  split
  · exact isSilent_given fun founder _ => isSilent_of_failure_none rfl
  split
  · exact isSilent_of_failure_none rfl
  · -- both cardinalities are read before the field is emitted
    unfold Relation.binaryStep
    exact isSilent_given fun _ _ => isSilent_given fun _ _ => isSilent_of_failure_none rfl

/-- The step of a relation is silent, whichever of the four it is. -/
theorem isSilent_relationStep (r : Relation) : (m.relationStep r).IsSilent := by
  unfold relationStep
  refine isSilent_given fun e _ => ?_
  split
  · exact isSilent_of_failure_none rfl
  split
  · exact isSilent_skip
  split
  · split
    · exact isSilent_derivationStep _ _
    · exact isSilent_skip
  · exact isSilent_fieldStep r e

/-- An attribute of a datatype is read before its field is emitted. -/
theorem isSilent_datatypeAttributeStep (c : Class) (p : Property) :
    (m.datatypeAttributeStep c p).IsSilent := by
  unfold datatypeAttributeStep
  refine (isSilent_given fun s _ => ?_).requesting _
  exact (isSilent_given fun _ _ => isSilent_of_failure_none rfl).requesting _

theorem isSilent_orderedAttributeStep (c : Class) (p : Property) :
    (m.orderedAttributeStep c p).IsSilent := by
  unfold orderedAttributeStep
  exact (isSilent_given fun _ _ => isSilent_of_failure_none rfl).requesting _

theorem isSilent_plainAttributeStep (c : Class) (p : Property) :
    (m.plainAttributeStep c p).IsSilent := by
  unfold plainAttributeStep
  refine (isSilent_given fun s _ => ?_).requesting _
  exact (isSilent_given fun _ _ => isSilent_of_failure_none rfl).requesting _

/-- The end of a relation is silent as long as its cardinality can be read. -/
theorem isSilent_propertyStep {x : Classifier} {p : Property}
    (h : ∀ v, ¬ m.Strands (.property x p) v) : (m.propertyStep x p).IsSilent := by
  unfold propertyStep
  split
  · exact isSilent_datatypeAttributeStep _ _
  · exact isSilent_orderedAttributeStep _ _
  · exact isSilent_plainAttributeStep _ _
  · next r side hrole =>
    unfold relationEndStep
    refine isSilent_given fun e he => isSilent_of_failure_none ?_
    cases hk : Multiplicity.parse p.cardinality with
    -- this is what a stranded end is
    | none => exact absurd (.relationEnd hrole he hk) (h _)
    | some k =>
      rw [EndView.step, property_ofEnds, multiplicity_eq_ok_iff.mpr hk]
      rfl
  · exact isSilent_skip

/-- A task that strands no end has a silent step. -/
theorem isSilent_stepOf (h : ∀ v, ¬ m.Strands t v) : (m.stepOf t).IsSilent := by
  cases t with
  | klass c => exact isSilent_of_failure_none c.failure_step
  | coverings => exact isSilent_of_failure_none rfl
  | generalization g => exact isSilent_given fun _ _ => isSilent_of_failure_none rfl
  | generalizationSet s => exact isSilent_generalizationSetStep s
  | relation r => exact isSilent_relationStep r
  | property x p => exact isSilent_propertyStep h

end Model

/-! ## Sessions -/

namespace Session

variable {m : Model} {s : Session} {t : Task} {d : Defect}

/-- Only a property that has not had its turn can fail, so a failed task has taken its step. -/
theorem exists_take_of_failure (h : (s.perform m t).2 = some d) :
    (m.stepOf t).failure = some d ∧ (s.perform m t).1.emitted
      = s.emitted ++ (m.stepOf t).fragments (s.perform m t).1.registry.view := by
  cases t with
  | property x p =>
    unfold perform at h ⊢
    dsimp only at h ⊢
    split at h
    -- the property has had its turn before, which is no failure
    · cases h
    · next hvisited =>
      rw [if_neg hvisited]
      exact ⟨h, rfl⟩
  | klass c => exact ⟨h, rfl⟩
  | coverings => exact ⟨h, rfl⟩
  | generalization g => exact ⟨h, rfl⟩
  | generalizationSet g => exact ⟨h, rfl⟩
  | relation r => exact ⟨h, rfl⟩

/-- A failed task that strands no end leaves everything emitted as it was. -/
theorem emitted_of_failure (h : (s.perform m t).2 = some d) (hstrands : ∀ v, ¬ m.Strands t v) :
    (s.perform m t).1.emitted = s.emitted := by
  obtain ⟨hfailure, hemitted⟩ := exists_take_of_failure h
  rw [hemitted, Model.isSilent_stepOf hstrands d hfailure, List.append_nil]

/-- A failed task that strands an end leaves the accessor and immutability of the end behind. -/
theorem emitted_of_strands (h : (s.perform m t).2 = some d) {v : EndView}
    (hv : m.Strands t v) : d = .invalidCardinality v.property.cardinality ∧
      (s.perform m t).1.emitted
        = s.emitted ++ .accessor (v.accessor m (s.perform m t).1.registry.view)
          :: v.immutability (s.perform m t).1.registry.view := by
  obtain ⟨hfailure, hemitted⟩ := exists_take_of_failure h
  obtain ⟨hmalformed, hfragments⟩ :=
    Model.stepOf_of_strands hv (s.perform m t).1.registry.view
  rw [hfailure] at hmalformed
  rw [hemitted, hfragments]
  exact ⟨Option.some.inj hmalformed, rfl⟩

/-- An accessor among the fragments emitted shows in the sections. -/
theorem sections_ne_of_accessor {s s' : Session} {a : Accessor} {fs : List Fragment}
    (h : s'.emitted = s.emitted ++ .accessor a :: fs) : s'.sections ≠ s.sections := by
  intro heq
  -- equal sections would have the same accessors
  have haccessors : (s.emitted ++ .accessor a :: fs).filterMap Fragment.accessor?
      = s.emitted.filterMap Fragment.accessor? := by
    rw [← h]
    exact congrArg Sections.accessors heq
  rw [List.filterMap_append, List.append_right_eq_self] at haccessors
  cases haccessors

/-- **Failed steps.** In any session, a task that fails leaves all sections as they were, unless it
comes to an end of a relation with a malformed cardinality. What is left of such an end is its
accessor and its immutability, and nothing else. -/
theorem sections_eq_iff_of_failure (h : (s.perform m t).2 = some d) :
    ((s.perform m t).1.sections = s.sections ↔ ∀ v, ¬ m.Strands t v) ∧
      ∀ v, m.Strands t v → d = .invalidCardinality v.property.cardinality ∧
        (s.perform m t).1.emitted
          = s.emitted ++ .accessor (v.accessor m (s.perform m t).1.registry.view)
            :: v.immutability (s.perform m t).1.registry.view := by
  refine ⟨⟨fun hsections v hv => ?_, fun hstrands => ?_⟩, fun v hv => emitted_of_strands h hv⟩
  · exact sections_ne_of_accessor (emitted_of_strands h hv).2 hsections
  · rw [sections, emitted_of_failure h hstrands, sections]

end Session

namespace Model

/-- Persons know other persons in an order, and how many is no number. -/
def befriended : Model where
  classes := [{ id := ⟨"person"⟩, name := some "Person", stereotype := some .kind }]
  relations := [
    { id := ⟨"knows"⟩, name := some "knows"
      ends := [
        { id := ⟨"knows source"⟩, type := some ⟨"person"⟩ },
        { id := ⟨"knows target"⟩, type := some ⟨"person"⟩, cardinality := "many"
          isOrdered := true }] }]

/-- The session of a run in which only the last task is left. -/
def befriendedSession : Session :=
  (({} : Session).performAll befriended befriended.tasks.dropLast).1

/-- The last task of the run comes to an end whose cardinality is `many`, and fails. -/
theorem befriended_fails : ∃ t v, befriended.tasks.getLast? = some t ∧ befriended.Strands t v ∧
    (befriendedSession.perform befriended t).2 = some (.invalidCardinality "many") :=
  ⟨_, _, rfl, .relationEnd rfl rfl (by decide +kernel), by decide +kernel⟩

/-- The accessor of the end is in the module although its step has failed. -/
theorem befriended_sections_eq_iff_of_failure :
    ∃ t v, (befriendedSession.perform befriended t).2 = some (.invalidCardinality "many") ∧
      befriended.Strands t v ∧ (befriendedSession.perform befriended t).1.emitted
        = befriendedSession.emitted ++ .accessor
          (v.accessor befriended (befriendedSession.perform befriended t).1.registry.view)
          :: v.immutability (befriendedSession.perform befriended t).1.registry.view := by
  obtain ⟨t, v, -, hv, hfailure⟩ := befriended_fails
  exact ⟨t, v, hfailure, hv, ((Session.sections_eq_iff_of_failure hfailure).2 v hv).2⟩

/-- So there are steps that fail and still emit. -/
theorem not_forall_sections_eq_of_failure :
    ¬ ∀ (m : Model) (s : Session) (t : Task) (d : Defect), (s.perform m t).2 = some d →
      (s.perform m t).1.sections = s.sections := by
  intro h
  obtain ⟨t, v, -, hv, hfailure⟩ := befriended_fails
  have hemitted := (Session.emitted_of_strands hfailure hv).2
  exact Session.sections_ne_of_accessor hemitted (h befriended befriendedSession t _ hfailure)

end Model

end OntoWorlds
