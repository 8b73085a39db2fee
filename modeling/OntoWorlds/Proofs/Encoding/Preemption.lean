import OntoWorlds.Proofs.Encoding.Agreement
import OntoWorlds.Proofs.Encoding.Names
import OntoWorlds.Proofs.Encoding.Outcomes
import OntoWorlds.Proofs.Registry.Ahead

/-!
# OntoWorlds — generalizations that state nothing

A generalization of two relations requests a field for the one that has a field, even if the other
has none and nothing is stated. The identifier of that relation is then reserved before its turn.
The run with the generalization is ahead of the run without it by this one reservation, and ends in
the same module unless the identifier is wanted by another element in between.

* `Session.AheadBy.performAll` — two runs, the second one ahead by a reservation; while the
  identifier is spared they emit the same, and where it is not, they give different identifiers.
* `Model.Preempts` — in the run without the generalization, another element has the identifier that
  the generalization reserves.
* `Model.encode_withGeneralization` — the generalization leaves no trace unless it preempts; where
  it does, and only there, an identifier changes.
-/

namespace OntoWorlds

open Alloy

/-! ## Requests -/

namespace Registry.Ahead

variable {k : Key} {w : String} {r r' : Registry} {before : List Request}

/-- A seeded request comes to the same base in both registries. -/
theorem baseOf_eq (h : Ahead k w r r') (hbefore : r.Answers before) {q : Request}
    (hseeded : q.IsSeeded before) : r'.baseOf q = r.baseOf q := by
  match q, hseeded with
  | .name _ _, _ => rfl
  | .alias _ _, _ => rfl
  | .aliasLike _ other, ⟨base, hmem⟩ =>
    -- the other id has been named, and both registries agree on its name
    obtain ⟨v, hv⟩ := hbefore other base hmem
    have hview : r.view.own other = v := view_of (k := .own other) hv
    have hview' : r'.view.own other = v := view_of (k := .own other) (h.toExtends _ v hv)
    exact hview'.trans hview.symm

/-- A registry that is ahead stays ahead while the identifier is spared, by induction on the
requests. -/
theorem serveAll (h : Ahead k w r r') (hbefore : r.Answers before) {qs : List Request}
    (hseeded : Request.Seeded before qs) (hspares : (r.serveAll qs).Spares k w) :
    Ahead k w (r.serveAll qs) (r'.serveAll qs) := by
  induction qs generalizing r r' before with
  | nil => exact h
  | cons q qs ih =>
    -- what is spared in the end is spared now
    have hspares' : (r.serve q).Spares k w := hspares.of_extends (extends_serveAll _ qs)
    have hserve : Ahead k w (r.serve q) (r'.serve q) := by
      rw [serve_eq_give] at hspares' ⊢
      rw [serve_eq_give, h.baseOf_eq hbefore hseeded.1]
      exact h.give hspares'
    exact ih hserve (answers_serve hbefore q) hseeded.2 hspares

end Registry.Ahead

/-! ## Sessions -/

namespace Session

/-- The sessions differ in one reservation that the second one has made early. -/
structure AheadBy (k : Key) (w : String) (s s' : Session) : Prop where
  registry : Registry.Ahead k w s.registry s'.registry
  emitted : s'.emitted = s.emitted
  visited : s'.visited = s.visited

namespace AheadBy

variable {k : Key} {w : String} {m : Model} {s s' : Session}

/-- A step that spares the identifier is taken alike in both sessions. -/
theorem take (h : AheadBy k w s s') {step : Step} (hstep : step.IsProper m [])
    (hspares : (s.take step).1.registry.Spares k w) :
    AheadBy k w (s.take step).1 (s'.take step).1 ∧ (s'.take step).2 = (s.take step).2 := by
  have hregistry : Registry.Ahead k w (s.registry.serveAll step.requests)
      (s'.registry.serveAll step.requests) :=
    h.registry.serveAll (fun _ _ hmem => absurd hmem List.not_mem_nil) hstep.seeded hspares
  -- the fragments read what has been requested, which both have given alike
  have hfragments : step.fragments (s.registry.serveAll step.requests).view
      = step.fragments (s'.registry.serveAll step.requests).view :=
    hstep.grounded _ _ hregistry.toExtends.agreeOn
  refine ⟨⟨hregistry, ?_, h.visited⟩, rfl⟩
  simp only [Session.take, h.emitted, hfragments]

/-- A task that spares the identifier is performed alike in both sessions. -/
theorem perform (h : AheadBy k w s s') {t : Task} (ht : t.IsOf m)
    (hspares : (s.perform m t).1.registry.Spares k w) :
    AheadBy k w (s.perform m t).1 (s'.perform m t).1 ∧
      (s'.perform m t).2 = (s.perform m t).2 := by
  have hproper := Model.isProper_stepOf [] ht
  cases hturn : t.turn? with
  | none =>
    rw [perform_of_turn_none hturn] at hspares ⊢
    rw [perform_of_turn_none hturn]
    exact h.take hproper hspares
  | some id =>
    rw [perform_of_turn hturn] at hspares ⊢
    rw [perform_of_turn hturn, h.visited]
    split
    · exact ⟨h, rfl⟩
    · next hnot =>
      rw [if_neg hnot] at hspares
      have hvisit : AheadBy k w (s.visit id) (s'.visit id) :=
        ⟨h.registry, h.emitted, congrArg (id :: ·) h.visited⟩
      exact hvisit.take hproper hspares

/-- A run that is ahead by an identifier that the other run spares emits the same. -/
theorem performAll (h : AheadBy k w s s') {ts : List Task} (hts : ∀ t ∈ ts, t.IsOf m)
    (hspares : (s.performAll m ts).1.registry.Spares k w) :
    AheadBy k w (s.performAll m ts).1 (s'.performAll m ts).1 ∧
      (s'.performAll m ts).2 = (s.performAll m ts).2 := by
  induction ts generalizing s s' with
  | nil => exact ⟨h, rfl⟩
  | cons t ts ih =>
    have ht := hts t List.mem_cons_self
    cases hd : (s.perform m t).2 with
    | some d =>
      rw [performAll_cons_of_some hd] at hspares ⊢
      obtain ⟨hahead, hdefect⟩ := h.perform ht hspares
      rw [performAll_cons_of_some (hdefect.trans hd)]
      exact ⟨hahead, hdefect⟩
    | none =>
      rw [performAll_cons_of_none hd] at hspares ⊢
      -- what is spared in the end is spared after the first task
      obtain ⟨hahead, hdefect⟩ := h.perform ht (hspares.of_extends (extends_performAll _ ts))
      rw [performAll_cons_of_none (hdefect.trans hd)]
      exact ih hahead (fun u hu => hts u (List.mem_cons_of_mem _ hu)) hspares

/-- Where the identifier is not spared, the run that is ahead cannot give it again, so somewhere it
gives another one. -/
theorem exists_given?_ne (h : AheadBy k w s s') {ts : List Task}
    (hspares : ¬ (s.performAll m ts).1.registry.Spares k w) :
    ∃ l v, (s.performAll m ts).1.registry.given? l = some v ∧
      (s'.performAll m ts).1.registry.given? l ≠ some v := by
  have hsound : (s'.performAll m ts).1.registry.Sound :=
    sound_performAll h.registry.sound' ts
  have hearly : (s'.performAll m ts).1.registry.given? k = some w :=
    extends_performAll s' ts k w h.registry.early
  simp only [Registry.Spares, not_forall] at hspares
  obtain ⟨l, v, hl, hlv⟩ := hspares
  refine ⟨l, v, hl, fun hl' => hlv ⟨?_, ?_⟩⟩
  -- the key was given the identifier early, so it would have it in the end
  · rintro rfl
    exact Option.some.inj (hl'.symm.trans hearly)
  -- no other key can be given it any more
  · rintro rfl
    exact hsound.injective hl' hearly

end AheadBy

end Session

/-! ## A generalization more -/

namespace Model

/-- The model with one more generalization, after all others. -/
def withGeneralization (m : Model) (g : Generalization) : Model :=
  { m with generalizations := m.generalizations ++ [g] }

/-- The tasks of a run up to the generalizations. -/
def earlyTasks (m : Model) : List Task :=
  m.classes.map .klass ++ [.coverings] ++ m.generalizations.map .generalization

/-- The tasks of a run that come after the generalizations. -/
def lateTasks (m : Model) : List Task :=
  m.generalizationSets.map .generalizationSet ++ m.relations.map .relation
    ++ m.properties.map fun (owner, p) => .property owner p

/-- The session of a run after the generalizations, or where it has stopped before. -/
def earlySession (m : Model) : Session := (({} : Session).performAll m m.earlyTasks).1

/-- The generalization reserves an identifier that the run without it does not spare for the same
key: there, another key has the identifier, or the key has another one. -/
def Preempts (m : Model) (g : Generalization) : Prop :=
  ∃ q ∈ (m.generalizationStep g).requests, ∃ w,
    (m.earlySession.registry.serve q).given? q.key = some w ∧ ¬ m.run.1.registry.Spares q.key w

variable {m : Model} {g : Generalization}

/-- The new generalization would stand between the early and the late tasks. -/
theorem tasks_eq (m : Model) : m.tasks = m.earlyTasks ++ m.lateTasks := by
  simp only [tasks, earlyTasks, lateTasks, List.append_assoc]

/-- The tasks with the generalization are those of the model, and its own in between. -/
theorem tasks_withGeneralization (m : Model) (g : Generalization) :
    (m.withGeneralization g).tasks = m.earlyTasks ++ .generalization g :: m.lateTasks := by
  have hproperties : (m.withGeneralization g).properties = m.properties := rfl
  simp only [tasks, earlyTasks, lateTasks, hproperties]
  simp only [withGeneralization, List.map_append, List.map_cons, List.map_nil, List.append_assoc,
    List.cons_append, List.nil_append]

/-- The early tasks are on elements of the model. -/
theorem isOf_of_mem_earlyTasks {t : Task} (ht : t ∈ m.earlyTasks) : t.IsOf m :=
  isOf_of_mem_tasks (by rw [tasks_eq]; exact List.mem_append_left _ ht)

theorem isOf_of_mem_lateTasks {t : Task} (ht : t ∈ m.lateTasks) : t.IsOf m :=
  isOf_of_mem_tasks (by rw [tasks_eq]; exact List.mem_append_right _ ht)

/-- Only generalizations are looked up among generalizations. -/
theorem findsAlike_withGeneralization (h : g.id ∉ m.references) :
    m.FindsAlike (m.withGeneralization g) where
  resolves _ _ := rfl
  findGeneralization := by
    intro id hid
    have hne : (g.id == id) = false := by
      rw [beq_eq_false_iff_ne]
      rintro rfl
      exact h hid
    simp only [findGeneralization, withGeneralization, List.find?_append, List.find?_singleton, hne]
    exact Option.or_none
  derivationOf _ _ := rfl
  findMediation _ _ := rfl
  coverers := rfl

/-! ## What a generalization requests -/

/-- A generalization of two elements of the model that states nothing requests a field for at most
one of them. -/
theorem requests_of_fragments_eq_nil {x y : Classifier} (hx : m.find g.general = some x)
    (hy : m.find g.specific = some y) (hskip : ∀ n, (m.generalizationStep g).fragments n = []) :
    (m.generalizationStep g).failure = none ∧
      ((m.generalizationStep g).requests = [] ∨
        ∃ z : Classifier, (m.generalizationStep g).requests = [z.fieldRequest]) := by
  have hsub : m.subsumptionOf g = .ok (m.subsumption x y) := by
    unfold subsumptionOf resolve
    rw [hx, hy]
    rfl
  rw [generalizationStep, hsub, Step.given_ok] at hskip ⊢
  refine ⟨rfl, ?_⟩
  dsimp only at hskip ⊢
  unfold subsumption at hskip ⊢
  cases hlike : x.isLike y with
  | false => exact Or.inl rfl
  | true =>
    simp only [hlike, if_true] at hskip ⊢
    -- four cases: which of the two has a field
    cases hfx : m.hasField x <;> cases hfy : m.hasField y
    · left
      simp [hfx, hfy]
    · right
      exact ⟨y, by simp [hfx, hfy]⟩
    · right
      exact ⟨x, by simp [hfx, hfy]⟩
    · -- both have fields, so something is stated
      simp only [hfx, hfy, Bool.and_self, if_true] at hskip
      cases hskip ({} : Registry).view

/-! ## The two runs -/

/-- Up to the generalization both runs go the same way. -/
theorem earlySession_withGeneralization (hnew : m.IsNew g.id) (s : Session) :
    s.performAll (m.withGeneralization g) m.earlyTasks = s.performAll m m.earlyTasks :=
  Session.performAll_congr
    (fun _ ht => (findsAlike_withGeneralization hnew.2).stepOf_eq (isOf_of_mem_earlyTasks ht)) s

/-- From the same session, so do they afterwards. -/
theorem lateSession_withGeneralization (hnew : m.IsNew g.id) (s : Session) :
    s.performAll (m.withGeneralization g) m.lateTasks = s.performAll m m.lateTasks :=
  Session.performAll_congr
    (fun _ ht => (findsAlike_withGeneralization hnew.2).stepOf_eq (isOf_of_mem_lateTasks ht)) s

/-- A run that stops before the generalization has not got to it. -/
theorem run_withGeneralization_of_failure (hnew : m.IsNew g.id) {d : Defect}
    (h : ({} : Session).performAll m m.earlyTasks = (m.earlySession, some d)) :
    m.run = (m.earlySession, some d) ∧
      (m.withGeneralization g).run = (m.earlySession, some d) := by
  rw [run, run, tasks_eq, tasks_withGeneralization]
  refine ⟨Session.performAll_append_of_failure h _, ?_⟩
  exact Session.performAll_append_of_failure
    ((earlySession_withGeneralization hnew {}).trans h) _

/-- After the other generalizations the new one takes its step, and the run goes on as without it.
-/
theorem run_withGeneralization (hnew : m.IsNew g.id)
    (h : ({} : Session).performAll m m.earlyTasks = (m.earlySession, none))
    (hfailure : (m.generalizationStep g).failure = none) :
    m.run = m.earlySession.performAll m m.lateTasks ∧ (m.withGeneralization g).run =
      (m.earlySession.take (m.generalizationStep g)).1.performAll m m.lateTasks := by
  rw [run, run, tasks_eq, tasks_withGeneralization, Session.performAll_append h,
    Session.performAll_append ((earlySession_withGeneralization hnew {}).trans h)]
  refine ⟨rfl, ?_⟩
  have hperform : m.earlySession.perform (m.withGeneralization g) (.generalization g)
      = ((m.earlySession.take (m.generalizationStep g)).1, none) := by
    rw [← hfailure]
    rfl
  rw [Session.performAll, hperform]
  exact lateSession_withGeneralization hnew _

/-- The registry in the middle of a run is sound. -/
theorem sound_earlySession (m : Model) : m.earlySession.registry.Sound :=
  Session.sound_performAll Registry.sound_empty m.earlyTasks

/-- A run that stops early spares whatever a generalization would reserve. -/
theorem not_preempts_of_failure {d : Defect} (h : m.run = (m.earlySession, some d)) :
    ¬ m.Preempts g := by
  rintro ⟨q, -, w, hw, hspares⟩
  rw [Registry.serve_eq_give, Registry.given?_give_self] at hw
  obtain rfl := Option.some.inj hw
  refine hspares ?_
  rw [h]
  exact (sound_earlySession m).spares_give q.key _

/-- A generalization that requests one field brings the run ahead by the identifier of that field.
-/
theorem aheadBy_take {q : Request} (hq : (m.generalizationStep g).requests = [q])
    (hskip : ∀ n, (m.generalizationStep g).fragments n = []) :
    Session.AheadBy q.key (m.earlySession.registry.give q.key (m.earlySession.registry.baseOf q)).1
      m.earlySession (m.earlySession.take (m.generalizationStep g)).1 where
  registry := by
    have hserve : (m.earlySession.take (m.generalizationStep g)).1.registry
        = (m.earlySession.registry.give q.key (m.earlySession.registry.baseOf q)).2 := by
      rw [Session.take, hq, ← Registry.serve_eq_give]
      rfl
    rw [hserve]
    exact Registry.Ahead.of_give (sound_earlySession m) _ _
  emitted := by rw [Session.take, hskip, List.append_nil]
  visited := rfl

/-- A generalization with one request preempts if the identifier of that request is not spared. -/
theorem preempts_iff {q : Request} (hq : (m.generalizationStep g).requests = [q]) :
    m.Preempts g ↔ ¬ m.run.1.registry.Spares q.key
      (m.earlySession.registry.give q.key (m.earlySession.registry.baseOf q)).1 := by
  simp only [Preempts, hq, List.mem_singleton, exists_eq_left, Registry.serve_eq_give,
    Registry.given?_give_self, Option.some.injEq, exists_eq_left']

/-- **Generalizations that state nothing.** A generalization of elements of the model, with an id
that is new to it, may state nothing. The module text and the report, or the defect, are then the
same with it and without it, unless it preempts an identifier; and some identifier of the run
changes exactly if it does. -/
theorem encode_withGeneralization {x y : Classifier} (hnew : m.IsNew g.id)
    (hx : m.find g.general = some x) (hy : m.find g.specific = some y)
    (hskip : ∀ n, (m.generalizationStep g).fragments n = []) :
    (¬ m.Preempts g → ∀ o, (m.withGeneralization g).encode o = m.encode o) ∧
      ((∃ k w, m.run.1.registry.given? k = some w ∧
        (m.withGeneralization g).run.1.registry.given? k ≠ some w) ↔ m.Preempts g) := by
  obtain ⟨hfailure, hrequests⟩ := requests_of_fragments_eq_nil hx hy hskip
  -- where the runs are the same, no identifier changes, and nothing must have been preempted
  have hsame (hrun : (m.withGeneralization g).run = m.run) (hnot : ¬ m.Preempts g) :
      (¬ m.Preempts g → ∀ o, (m.withGeneralization g).encode o = m.encode o) ∧
        ((∃ k w, m.run.1.registry.given? k = some w ∧
          (m.withGeneralization g).run.1.registry.given? k ≠ some w) ↔ m.Preempts g) := by
    refine ⟨fun _ => encode_eq_of_run (by rw [hrun]) (by rw [hrun]), ?_⟩
    refine iff_of_false ?_ hnot
    rintro ⟨k, w, hw, hne⟩
    exact hne (by rw [hrun, hw])
  -- a run that stops early does not get to the generalization
  cases hearly : (({} : Session).performAll m m.earlyTasks).2 with
  | some d =>
    have h : ({} : Session).performAll m m.earlyTasks = (m.earlySession, some d) :=
      Prod.ext rfl hearly
    obtain ⟨hrun, hrun'⟩ := run_withGeneralization_of_failure hnew h
    exact hsame (hrun'.trans hrun.symm) (not_preempts_of_failure hrun)
  | none =>
    have h : ({} : Session).performAll m m.earlyTasks = (m.earlySession, none) :=
      Prod.ext rfl hearly
    obtain ⟨hrun, hrun'⟩ := run_withGeneralization hnew h hfailure
    -- without requests the generalization changes nothing
    rcases hrequests with hnil | ⟨z, hq⟩
    · have htake : (m.earlySession.take (m.generalizationStep g)).1 = m.earlySession := by
        simp only [Session.take, hnil, hskip, List.append_nil]
        rfl
      refine hsame (by rw [hrun', htake, hrun]) ?_
      rintro ⟨q, hmem, -⟩
      rw [hnil] at hmem
      cases hmem
    -- one request brings the run ahead
    · have hahead := aheadBy_take hq hskip
      rw [preempts_iff hq, not_not, hrun, hrun']
      generalize (m.earlySession.registry.give z.fieldRequest.key _).1 = w at hahead ⊢
      refine ⟨?_, ?_, fun hspares => hahead.exists_given?_ne hspares⟩
      · intro hspares
        obtain ⟨hend, hdefect⟩ := hahead.performAll (fun _ => isOf_of_mem_lateTasks) hspares
        rw [← hrun, ← hrun'] at hend hdefect
        exact encode_eq_of_run hend.emitted hdefect
      · -- as long as the identifier is spared, nothing that is given changes
        rintro ⟨k, v, hv, hne⟩ hspares
        obtain ⟨hend, -⟩ := hahead.performAll (fun _ => isOf_of_mem_lateTasks) hspares
        exact hne (hend.registry.toExtends k v hv)

/-- People who know and greet each other, and who attend meetings. -/
def gatherings : Model where
  classes := [
    { id := ⟨"person"⟩, name := some "Person", stereotype := some .kind },
    { id := ⟨"meeting"⟩, name := some "Meeting", stereotype := some .event }]
  relations := [
    { id := ⟨"knows"⟩, name := some "knows"
      ends := [
        { id := ⟨"knows source"⟩, type := some ⟨"person"⟩ },
        { id := ⟨"knows target"⟩, type := some ⟨"person"⟩ }] },
    { id := ⟨"greets"⟩, name := some "knows"
      ends := [
        { id := ⟨"greets source"⟩, type := some ⟨"person"⟩ },
        { id := ⟨"greets target"⟩, type := some ⟨"person"⟩ }] },
    { id := ⟨"attends"⟩, name := some "attends"
      ends := [
        { id := ⟨"attends source"⟩, type := some ⟨"person"⟩ },
        { id := ⟨"attends target"⟩, type := some ⟨"meeting"⟩ }] }]

/-- Who attends a meeting is said to greet it, although only greeting has a field. -/
def greeting : Generalization where
  id := ⟨"greeting"⟩
  general := ⟨"greets"⟩
  specific := ⟨"attends"⟩

/-- The second relation of two with the same name gets it first. -/
theorem gatherings_preempts : gatherings.Preempts greeting :=
  (encode_withGeneralization (by decide +kernel) rfl rfl fun _ => rfl).2.mp
    ⟨.own ⟨"knows"⟩, "knows", by decide +kernel, by decide +kernel⟩

/-- So a generalization that states nothing can change the module. -/
theorem not_forall_encode_withGeneralization :
    ¬ ∀ (m : Model) (g : Generalization) (x y : Classifier), m.IsNew g.id →
      m.find g.general = some x → m.find g.specific = some y →
      (∀ n, (m.generalizationStep g).fragments n = []) →
      ∀ o, (m.withGeneralization g).encode o = m.encode o := by
  intro h
  have heq := h gatherings greeting _ _ (by decide +kernel) rfl rfl (fun _ => rfl) {}
  have hne : (gatherings.withGeneralization greeting).encode {} ≠ gatherings.encode {} := by
    decide +kernel
  exact hne heq

end Model

end OntoWorlds
