import OntoWorlds.Proofs.Encoding.Outcomes
import OntoWorlds.Proofs.Encoding.Run

/-!
# OntoWorlds — the one turn of a property

A property is marked when its turn comes, before anything is known about it. The mark is the id,
and it stays: a turn that has ended in a defect is spent like any other, and so is the turn of
another property that has the same id.

* `Session.Act`, `Session.after` — the history of a session: tasks, failed or not, and requests.
* `Session.mem_visited_after` — the marks are the ids whose turn is somewhere in the history.
* `Model.Turn.fragments_eq_nil_iff` — a turn without a defect is silent exactly if the property is
  skipped.
* `Session.perform_property_iff` — what the task of a property comes to after any history.
-/

namespace OntoWorlds

open Alloy

/-! ## Histories -/

/-- What can be done in a session. -/
inductive Session.Act
  | perform (t : Task)
  | serve (q : Request)
deriving DecidableEq, Repr

/-- The property whose turn it is. -/
def Session.Act.turn? : Session.Act → Option ElementId
  | .perform t => t.turn?
  | .serve _ => none

namespace Session

/-- The session goes on after an act, also if it has met a defect. -/
def act (m : Model) (s : Session) : Act → Session
  | .perform t => (s.perform m t).1
  | .serve q => { s with registry := s.registry.serve q }

/-- The session after some acts, one after the other. -/
def after (m : Model) (s : Session) (acts : List Act) : Session := acts.foldl (act m) s

/-- A property with this id has had its turn. -/
def HadTurn (acts : List Act) (id : ElementId) : Prop := ∃ a ∈ acts, a.turn? = some id

variable {m : Model} {s : Session} {t : Task} {id : ElementId}

/-! ## Marks -/

/-- A task marks its property if it has one, whatever comes of it. -/
theorem mem_visited_perform :
    id ∈ (s.perform m t).1.visited ↔ t.turn? = some id ∨ id ∈ s.visited := by
  cases hturn : t.turn? with
  | none =>
    -- a task without a property leaves the marks alone
    rw [perform_of_turn_none hturn]
    show id ∈ s.visited ↔ _
    simp
  | some own =>
    rw [perform_of_turn hturn, Option.some.injEq]
    split
    · next hmarked =>
      -- a second turn marks nothing, but the mark is there
      rw [List.contains_iff_mem] at hmarked
      constructor
      · exact Or.inr
      · rintro (rfl | h)
        · exact hmarked
        · exact h
    · show id ∈ own :: s.visited ↔ _
      rw [List.mem_cons, eq_comm]

/-- An act marks the property whose turn it is. -/
theorem mem_visited_act {a : Act} :
    id ∈ (s.act m a).visited ↔ a.turn? = some id ∨ id ∈ s.visited := by
  cases a with
  | perform t => exact mem_visited_perform
  | serve q =>
    show id ∈ s.visited ↔ none = some id ∨ _
    simp

/-- The marks after some acts are the turns among them, and the marks from before. -/
theorem mem_visited_after (acts : List Act) :
    id ∈ (s.after m acts).visited ↔ HadTurn acts id ∨ id ∈ s.visited := by
  -- by induction on the acts; the first one is made before the rest
  induction acts generalizing s with
  | nil => simp [after, HadTurn]
  | cons a acts ih =>
    show id ∈ ((s.act m a).after m acts).visited ↔ _
    rw [ih, mem_visited_act, HadTurn, HadTurn, List.exists_mem_cons_iff]
    constructor
    · rintro (hlater | hfirst | hbefore)
      · exact Or.inl (Or.inr hlater)
      · exact Or.inl (Or.inl hfirst)
      · exact Or.inr hbefore
    · rintro ((hfirst | hlater) | hbefore)
      · exact Or.inr (Or.inl hfirst)
      · exact Or.inl hlater
      · exact Or.inr (Or.inr hbefore)

/-- In a session that began with nothing, the marks are the turns of its history. -/
theorem mem_visited_iff_hadTurn (acts : List Act) :
    id ∈ (({} : Session).after m acts).visited ↔ HadTurn acts id := by
  rw [mem_visited_after]
  exact or_iff_left List.not_mem_nil

/-! ## Turns -/

/-- The task of a marked property does nothing. -/
theorem perform_of_mem_visited (hturn : t.turn? = some id) (h : id ∈ s.visited) :
    s.perform m t = (s, none) := by
  -- the mark is looked for before anything else is done
  rw [perform_of_turn hturn, if_pos (List.contains_iff_mem.mpr h)]

/-- The task of a property without a mark takes its step. -/
theorem perform_of_not_mem_visited (hturn : t.turn? = some id) (h : id ∉ s.visited) :
    s.perform m t = (s.visit id).take (m.stepOf t) := by
  rw [perform_of_turn hturn, if_neg (mt List.contains_iff_mem.mp h)]

/-- Once a property has been marked, nothing that is done can bring its turn back. -/
theorem perform_after_perform (hturn : t.turn? = some id) (later : List Act) :
    ((s.perform m t).1.after m later).perform m t = ((s.perform m t).1.after m later, none) := by
  apply perform_of_mem_visited hturn
  rw [mem_visited_after, mem_visited_perform]
  exact Or.inr (Or.inl hturn)

end Session

/-- Every role but that of a skipped property emits a declaration. -/
theorem Model.Turn.fragments_eq_nil_iff {m : Model} {x : Classifier} {p : Property} {step : Step}
    (h : m.Turn x p step) (n : Names) :
    step.fragments n = [] ↔ ∃ reason, m.roleOf x p = .skipped reason := by
  -- each role but that of a skipped property has a fragment that is always there
  cases h with
  | skipped hrole => exact ⟨fun _ => ⟨_, hrole⟩, fun _ => rfl⟩
  | datatypeAttribute hrole =>
    simp only [Property.inlineFragments, hrole, reduceCtorEq, exists_false]
  | orderedAttribute hrole =>
    simp only [Property.orderedFragments, hrole, List.append_eq_nil_iff, reduceCtorEq, false_and,
      exists_false]
  | plainAttribute hrole =>
    simp only [Property.plainFragments, hrole, List.append_eq_nil_iff, reduceCtorEq, false_and,
      exists_false]
  | relationEnd hrole =>
    simp only [hrole, List.cons_append, reduceCtorEq, exists_false]

namespace Session

variable {m : Model} {s : Session} {x : Classifier} {p : Property}

/-- A property fails if it has no mark and its step fails. -/
theorem failure_perform_property_iff {d : Defect} : (s.perform m (.property x p)).2 = some d ↔
    p.id ∉ s.visited ∧ (m.propertyStep x p).failure = some d := by
  -- with a mark there is no defect, whatever the step would be
  by_cases hmarked : p.id ∈ s.visited
  · rw [perform_of_mem_visited rfl hmarked]
    simp [hmarked]
  · rw [perform_of_not_mem_visited rfl hmarked]
    show (m.propertyStep x p).failure = some d ↔ _
    simp [hmarked]

/-- A property passes without a word if it has a mark, or if it is skipped. -/
theorem silent_perform_property_iff : (s.perform m (.property x p)).2 = none ∧
      (s.perform m (.property x p)).1.emitted = s.emitted ↔
    p.id ∈ s.visited ∨ ∃ reason, m.roleOf x p = .skipped reason := by
  by_cases hmarked : p.id ∈ s.visited
  · rw [perform_of_mem_visited rfl hmarked]
    simp [hmarked]
  · rw [perform_of_not_mem_visited rfl hmarked, or_iff_right hmarked]
    -- the first turn emits the fragments of the step, under the names that it has asked for
    have hemitted : ((s.visit p.id).take (m.propertyStep x p)).1.emitted = s.emitted ↔
        (m.propertyStep x p).fragments
          (s.registry.serveAll (m.propertyStep x p).requests).view = [] :=
      List.append_right_eq_self
    show (m.propertyStep x p).failure = none ∧
      ((s.visit p.id).take (m.propertyStep x p)).1.emitted = s.emitted ↔ _
    rw [hemitted]
    constructor
    · rintro ⟨hok, hsilent⟩
      exact ((Model.turn_propertyStep hok).fragments_eq_nil_iff _).mp hsilent
    · rintro ⟨reason, hrole⟩
      have hskip : m.propertyStep x p = .skip := by rw [Model.propertyStep, hrole]
      rw [hskip]
      exact ⟨rfl, rfl⟩

/-- **Turns of properties.** After any history, the task of a property reports the defect of its
step exactly if no property with its id has had a turn. It passes without a word exactly if one has,
whatever came of that turn, or if the property is skipped. So a task that has failed does not fail
again, whatever is done in between: it does nothing from then on. -/
theorem perform_property_iff (m : Model) (acts : List Act) (x : Classifier) (p : Property) :
    let s := ({} : Session).after m acts
    (∀ d, (s.perform m (.property x p)).2 = some d ↔
      ¬ HadTurn acts p.id ∧ (m.propertyStep x p).failure = some d) ∧
    ((s.perform m (.property x p)).2 = none ∧
        (s.perform m (.property x p)).1.emitted = s.emitted ↔
      HadTurn acts p.id ∨ ∃ reason, m.roleOf x p = .skipped reason) ∧
    ∀ d, (s.perform m (.property x p)).2 = some d → ∀ later,
      let s' := (s.perform m (.property x p)).1.after m later
      s'.perform m (.property x p) = (s', none) := by
  refine ⟨fun d => ?_, ?_, fun d _ later => perform_after_perform rfl later⟩
  · rw [failure_perform_property_iff, mem_visited_iff_hadTurn]
  · rw [silent_perform_property_iff, mem_visited_iff_hadTurn]

end Session

namespace Model

/-- A person with an age of no type. -/
def ageless : Model where
  classes := [
    { id := ⟨"person"⟩, name := some "Person", stereotype := some .kind
      attributes := [{ id := ⟨"age"⟩, name := some "age" }] }]

/-- The age fails when its turn comes. -/
theorem ageless_fails : ∃ x p, (x, p) ∈ ageless.properties ∧
    (({} : Session).perform ageless (.property x p)).2 = some (.unresolvedType p.id) :=
  ⟨_, _, List.mem_cons_self, by decide +kernel⟩

/-- The age is reported, and then no more. -/
theorem ageless_perform_property_iff : ∃ x p,
    (({} : Session).perform ageless (.property x p)).2 = some (.unresolvedType p.id) ∧
      let s := (({} : Session).perform ageless (.property x p)).1
      s.perform ageless (.property x p) = (s, none) := by
  obtain ⟨x, p, -, hfails⟩ := ageless_fails
  exact ⟨x, p, hfails, (Session.perform_property_iff ageless [] x p).2.2 _ hfails []⟩

/-- So there are properties that fail and count as done. -/
theorem not_forall_fails_again :
    ¬ ∀ (m : Model) (acts later : List Session.Act) (x : Classifier) (p : Property) (d : Defect),
      (x, p) ∈ m.properties →
      ((({} : Session).after m acts).perform m (.property x p)).2 = some d →
      ((((({} : Session).after m acts).perform m (.property x p)).1.after m later).perform m
        (.property x p)).2 = some d := by
  intro h
  obtain ⟨x, p, hp, hfails⟩ := ageless_fails
  have hagain := h ageless [] [] x p _ hp hfails
  -- the second turn comes to the mark that the first one has left
  have hspent := Session.perform_after_perform (m := ageless) (s := {}) (t := .property x p) rfl []
  have hsilent := congrArg Prod.snd hspent
  cases hagain.symm.trans hsilent

end Model

end OntoWorlds
