import OntoWorlds.Proofs.Encoding.Tasks

/-!
# OntoWorlds — runs without defects

In a model with distinct ids every property has its one turn, so a run that meets no defect takes
the steps of all tasks. Requests are served in order and an identifier never changes once given:
the module of the run is therefore what the steps emit under the final names.

* `Registry.given?_serveAll` — every key requested has an identifier in the end.
* `Session.IsReached` — the sessions that tasks and requests lead to; their registries are sound.
* `Session.performAll_ok` — a list of tasks performed without a defect, by induction on the tasks.
* `Session.performAll_invariant` — what every step keeps holds when a run ends, defect or not.
* `Model.encoding_ok` — the sections of a run are those of `Model.fragments`, under `Model.names`.
-/

namespace OntoWorlds

open Alloy

/-! ## Serving requests -/

namespace Registry

/-- The base that a request comes to in a registry. -/
def baseOf (r : Registry) : Request → String
  | .name _ base => base
  | .alias _ base => base
  | .aliasLike _ other => r.view.own other

/-- A request gives its key an identifier from its base. -/
theorem serve_eq_give (r : Registry) (q : Request) :
    r.serve q = (r.give q.key (r.baseOf q)).2 := by
  cases q <;> rfl

/-- A served registry is sound. -/
theorem Sound.serve {r : Registry} (h : r.Sound) (q : Request) : (r.serve q).Sound := by
  rw [serve_eq_give]
  exact h.give q.key _

theorem Sound.serveAll {r : Registry} (h : r.Sound) (qs : List Request) :
    (r.serveAll qs).Sound := by
  induction qs generalizing r with
  | nil => exact h
  | cons q qs ih => exact ih (h.serve q)

/-- Serving requests extends a registry: what has been given stays as it is. -/
theorem extends_serveAll (r : Registry) (qs : List Request) : Extends r (r.serveAll qs) := by
  induction qs generalizing r with
  | nil => exact Extends.refl r
  -- one request extends the registry, and so do those that follow
  | cons q qs ih =>
    refine Extends.trans ?_ (ih (r.serve q))
    rw [serve_eq_give]
    exact extends_give r q.key _

/-- Every key requested has an identifier in the end. -/
theorem given?_serveAll {r : Registry} {qs : List Request} {q : Request} (h : q ∈ qs) :
    ∃ w, (r.serveAll qs).given? q.key = some w := by
  induction qs generalizing r with
  | nil => cases h
  | cons q' qs ih =>
    rcases List.mem_cons.mp h with rfl | h
    -- the key is given its identifier now and keeps it
    · refine ⟨(r.give q.key (r.baseOf q)).1, ?_⟩
      refine extends_serveAll (r.serve q) qs _ _ ?_
      rw [serve_eq_give, given?_give_self]
    · exact ih h

/-- A key that has been given an identifier is called by it. -/
theorem view_of {r : Registry} {k : Key} {w : String} (h : r.given? k = some w) :
    r.view.of k = w := by
  cases k with
  | own id =>
    show (r.nameOf? id).getD "" = w
    rw [show r.nameOf? id = some w from h, Option.getD_some]
  | byname id =>
    show (r.aliasOf? id).getD "" = w
    rw [show r.aliasOf? id = some w from h, Option.getD_some]

/-- Without an identifier, a key is called by the empty word. -/
theorem view_of_none {r : Registry} {k : Key} (h : r.given? k = none) : r.view.of k = "" := by
  cases k with
  | own id =>
    show (r.nameOf? id).getD "" = ""
    rw [show r.nameOf? id = none from h, Option.getD_none]
  | byname id =>
    show (r.aliasOf? id).getD "" = ""
    rw [show r.aliasOf? id = none from h, Option.getD_none]

/-- In a sound registry, keys that have identifiers are called differently. -/
theorem Sound.eq_of_view {r : Registry} (h : r.Sound) {k l : Key} (hk : ∃ w, r.given? k = some w)
    (hl : ∃ w, r.given? l = some w) (heq : r.view.of k = r.view.of l) : k = l := by
  obtain ⟨w, hw⟩ := hk
  obtain ⟨w', hw'⟩ := hl
  rw [view_of hw, view_of hw'] at heq
  rw [heq] at hw
  exact h.injective hw hw'

/-- A later registry calls what has been requested by the same names. -/
theorem Extends.agreeOn {r r' : Registry} {qs : List Request}
    (h : Extends (r.serveAll qs) r') :
    (r.serveAll qs).view.AgreeOn r'.view (qs.map Request.key) := by
  intro k hk
  obtain ⟨q, hq, rfl⟩ := List.mem_map.mp hk
  obtain ⟨w, hw⟩ := given?_serveAll (r := r) hq
  rw [view_of hw, view_of (h _ _ hw)]

end Registry

/-! ## Performing tasks -/

/-- The property whose turn a task is. -/
def Task.turn? : Task → Option ElementId
  | .property _ p => some p.id
  | _ => none

namespace Model

/-- What the tasks request, in order. -/
def requestsOf (m : Model) (ts : List Task) : List Request :=
  ts.flatMap fun t => (m.stepOf t).requests

/-- What the tasks emit under given names. -/
def fragmentsOf (m : Model) (n : Names) (ts : List Task) : List Fragment :=
  ts.flatMap fun t => (m.stepOf t).fragments n

end Model

namespace Session

variable {m : Model}

/-- A task that is no turn of a property takes its step. -/
theorem perform_of_turn_none {s : Session} {t : Task} (h : t.turn? = none) :
    s.perform m t = s.take (m.stepOf t) := by
  cases t with
  | property x p => cases h
  | _ => rfl

/-- A property has one turn: after that, its task does nothing. -/
theorem perform_of_turn {s : Session} {t : Task} {id : ElementId} (h : t.turn? = some id) :
    s.perform m t =
      if s.visited.contains id then (s, none) else (s.visit id).take (m.stepOf t) := by
  cases t with
  | property x p =>
    obtain rfl := Option.some.inj h
    rfl
  | _ => cases h

/-- A task without a defect hands over to the rest. -/
theorem performAll_cons_of_none {s : Session} {t : Task} (h : (s.perform m t).2 = none)
    (ts : List Task) : s.performAll m (t :: ts) = (s.perform m t).1.performAll m ts := by
  rw [performAll]
  rcases hs : s.perform m t with ⟨u, d⟩
  rw [hs] at h
  obtain rfl : d = none := h
  rfl

/-- A task with a defect ends the run. -/
theorem performAll_cons_of_some {s : Session} {t : Task} {d : Defect}
    (h : (s.perform m t).2 = some d) (ts : List Task) :
    s.performAll m (t :: ts) = s.perform m t := by
  rw [performAll]
  rcases hs : s.perform m t with ⟨u, d'⟩
  rw [hs] at h
  obtain rfl : d' = some d := h
  rfl

/-- A task whose turn has not been is performed by taking its step. -/
theorem perform_eq {s : Session} {t : Task} (h : ∀ id, t.turn? = some id → id ∉ s.visited) :
    ∃ s₀ : Session, s₀.registry = s.registry ∧ s₀.emitted = s.emitted ∧
      (∀ id, id ∈ s₀.visited → id ∈ s.visited ∨ t.turn? = some id) ∧
      s.perform m t = s₀.take (m.stepOf t) := by
  cases hturn : t.turn? with
  | none => exact ⟨s, rfl, rfl, fun _ => Or.inl, perform_of_turn_none hturn⟩
  | some id =>
    have hnot : ¬ s.visited.contains id = true := by
      -- a property whose turn has not been is marked, and then takes its step
      rw [List.contains_iff_mem]
      exact h id hturn
    refine ⟨s.visit id, rfl, rfl, ?_, by rw [perform_of_turn hturn, if_neg hnot]⟩
    intro id' hid'
    rcases List.mem_cons.mp hid' with rfl | hid'
    · exact Or.inr rfl
    · exact Or.inl hid'

/-- Tasks performed without a defect: all requests are served, and all fragments are emitted as
they read under the names of the end. -/
theorem performAll_ok {s s' : Session} {ts : List Task} (hts : ∀ t ∈ ts, t.IsOf m)
    (hturns : (ts.filterMap Task.turn?).Nodup)
    (hfresh : ∀ id ∈ ts.filterMap Task.turn?, id ∉ s.visited)
    (h : s.performAll m ts = (s', none)) :
    s'.registry = s.registry.serveAll (m.requestsOf ts) ∧
      s'.emitted = s.emitted ++ m.fragmentsOf s'.registry.view ts ∧
      ∀ t ∈ ts, (m.stepOf t).failure = none := by
  -- by induction on the tasks, from the session that each of them leaves
  induction ts generalizing s with
  | nil =>
    obtain rfl : s = s' := congrArg Prod.fst h
    exact ⟨rfl, (List.append_nil _).symm, fun t ht => absurd ht List.not_mem_nil⟩
  | cons t ts ih =>
    -- the property of this task has not been visited, so it takes its step
    have hturn : ∀ id, t.turn? = some id → id ∉ s.visited := by
      intro id hid
      exact hfresh id (List.mem_filterMap.mpr ⟨t, List.mem_cons_self, hid⟩)
    obtain ⟨s₀, hregistry, hemitted, hvisited, hperform⟩ := perform_eq (m := m) hturn
    rw [performAll, hperform] at h
    cases hfailure : (m.stepOf t).failure with
    | some d =>
      simp only [take, hfailure] at h
      cases congrArg Prod.snd h
    | none =>
      simp only [take, hfailure] at h
      -- the turns that are left are neither visited before nor that of this task
      have hsub : ts.filterMap Task.turn? ⊆ (t :: ts).filterMap Task.turn? := by
        intro id hid
        obtain ⟨u, hu, hid⟩ := List.mem_filterMap.mp hid
        exact List.mem_filterMap.mpr ⟨u, List.mem_cons_of_mem _ hu, hid⟩
      have hrest : (ts.filterMap Task.turn?).Nodup ∧
          ∀ id ∈ ts.filterMap Task.turn?, t.turn? ≠ some id := by
        cases hid : t.turn? with
        | none =>
          rw [List.filterMap_cons_none hid] at hturns
          refine ⟨hturns, ?_⟩
          intro id' _ heq
          cases heq
        | some id =>
          rw [List.filterMap_cons_some hid, List.nodup_cons] at hturns
          refine ⟨hturns.2, ?_⟩
          rintro id' hid' heq
          obtain rfl := Option.some.inj heq
          exact hturns.1 hid'
      have hfresh' : ∀ id ∈ ts.filterMap Task.turn?, id ∉ s₀.visited := by
        intro id hid hmem
        rcases hvisited id hmem with hmem | heq
        · exact hfresh id (hsub hid) hmem
        · exact hrest.2 id hid heq
      -- the remaining tasks start from the session that this step leaves
      obtain ⟨hreg, hem, hfail⟩ :=
        ih (s := (s₀.take (m.stepOf t)).1) (fun u hu => hts u (List.mem_cons_of_mem _ hu)) hrest.1
          hfresh' h
      dsimp only [take] at hreg hem
      rw [hregistry] at hreg hem
      refine ⟨?_, ?_, ?_⟩
      · rw [hreg, ← Registry.serveAll_append]
        rfl
      · -- the names that this step reads are the same in the end
        have hextends : Registry.Extends (s.registry.serveAll (m.stepOf t).requests)
            s'.registry := by
          rw [hreg]
          exact Registry.extends_serveAll _ _
        have hsame := (Model.isProper_stepOf [] (hts t List.mem_cons_self)).grounded
          _ _ hextends.agreeOn
        rw [hem, hemitted, hsame, List.append_assoc]
        rfl
      · intro u hu
        rcases List.mem_cons.mp hu with rfl | hu
        · exact hfailure
        · exact hfail u hu

/-! ### Invariants of a run -/

/-- What visits and steps keep is kept by every task. Only a step whose defect is that of the task
has been taken. -/
theorem perform_invariant {P : Session → Prop} (hvisit : ∀ s id, P s → P (s.visit id)) {t : Task}
    {s : Session} (h : P s)
    (htake : (s.perform m t).2 = (m.stepOf t).failure → ∀ u, P u → P (u.take (m.stepOf t)).1) :
    P (s.perform m t).1 := by
  cases hturn : t.turn? with
  | none =>
    rw [perform_of_turn_none hturn] at htake ⊢
    exact htake rfl s h
  | some id =>
    rw [perform_of_turn hturn] at htake ⊢
    split
    -- the property has been visited, so the session stays as it is
    · exact h
    -- the step is taken after the visit
    · next hvisited =>
      rw [if_neg hvisited] at htake
      exact htake rfl _ (hvisit s id h)

/-- What visits and the steps of the tasks keep holds when the run ends, with or without a
defect. -/
theorem performAll_invariant {P : Session → Prop} (hvisit : ∀ s id, P s → P (s.visit id))
    {ts : List Task} (htake : ∀ t ∈ ts, ∀ s, P s → P (s.take (m.stepOf t)).1) {s : Session}
    (h : P s) : P (s.performAll m ts).1 := by
  induction ts generalizing s with
  | nil => exact h
  | cons t ts ih =>
    have hperform : P (s.perform m t).1 :=
      perform_invariant hvisit h fun _ => htake t List.mem_cons_self
    cases hd : (s.perform m t).2 with
    -- the run ends here
    | some d =>
      rw [performAll_cons_of_some hd]
      exact hperform
    -- the rest of the tasks starts from what this one has kept
    | none =>
      rw [performAll_cons_of_none hd]
      exact ih (fun u hu => htake u (List.mem_cons_of_mem _ hu)) hperform

/-- What visits and the steps without a defect keep holds after a run without a defect. -/
theorem performAll_invariant_of_ok {P : Session → Prop} (hvisit : ∀ s id, P s → P (s.visit id))
    {ts : List Task}
    (htake : ∀ t ∈ ts, (m.stepOf t).failure = none → ∀ s, P s → P (s.take (m.stepOf t)).1)
    {s : Session} (h : P s) (hok : (s.performAll m ts).2 = none) : P (s.performAll m ts).1 := by
  induction ts generalizing s with
  | nil => exact h
  | cons t ts ih =>
    cases hd : (s.perform m t).2 with
    | some d =>
      rw [performAll_cons_of_some hd, hd] at hok
      cases hok
    | none =>
      rw [performAll_cons_of_none hd] at hok ⊢
      refine ih (fun u hu => htake u (List.mem_cons_of_mem _ hu)) ?_ hok
      exact perform_invariant hvisit h fun hsame =>
        htake t List.mem_cons_self (hsame.symm.trans hd)

/-- The registry is sound after any tasks. -/
theorem sound_performAll {s : Session} (h : s.registry.Sound) (ts : List Task) :
    (s.performAll m ts).1.registry.Sound :=
  performAll_invariant (P := fun u => u.registry.Sound) (fun _ _ hu => hu)
    (fun _ _ _ hu => hu.serveAll _) h

/-- No identifier changes in the course of a run. -/
theorem extends_performAll (s : Session) (ts : List Task) :
    Registry.Extends s.registry (s.performAll m ts).1.registry :=
  performAll_invariant (P := fun u => Registry.Extends s.registry u.registry) (fun _ _ hu => hu)
    (fun _ _ _ hu => hu.trans (Registry.extends_serveAll _ _)) (Registry.Extends.refl _)

/-- The sessions that a new one can be brought to, by any tasks and any requests. A session goes on
after a task that has met a defect. -/
inductive IsReached (m : Model) : Session → Prop
  | start : IsReached m {}
  | perform {s : Session} (t : Task) (h : IsReached m s) : IsReached m (s.perform m t).1
  | serve {s : Session} (q : Request) (h : IsReached m s) :
      IsReached m { s with registry := s.registry.serve q }

/-- The registry of a session that is reached is sound. -/
theorem IsReached.sound {s : Session} (h : s.IsReached m) : s.registry.Sound := by
  induction h with
  | start => exact Registry.sound_empty
  | perform t _ ih =>
    exact perform_invariant (P := fun u => u.registry.Sound) (fun _ _ hu => hu) ih
      fun _ _ hu => hu.serveAll _
  | serve q _ ih => exact ih.serve q

/-- So the sessions in the course of a run are reached. -/
theorem IsReached.performAll {s : Session} (h : s.IsReached m) (ts : List Task) :
    (s.performAll m ts).1.IsReached m := by
  induction ts generalizing s with
  | nil => exact h
  | cons t ts ih =>
    cases hd : (s.perform m t).2 with
    | some d =>
      rw [performAll_cons_of_some hd]
      exact .perform t h
    | none =>
      rw [performAll_cons_of_none hd]
      exact ih (.perform t h)

/-- A run that meets a defect is over. -/
theorem performAll_append_of_failure {s s' : Session} {ts : List Task} {d : Defect}
    (h : s.performAll m ts = (s', some d)) (us : List Task) :
    s.performAll m (ts ++ us) = (s', some d) := by
  fun_induction performAll m s ts with
  | case1 s => cases h
  | case2 s t ts s₁ hs ih => simp only [List.cons_append, performAll, hs, ih h]
  | case3 s t ts s₁ d' hs => simp only [List.cons_append, performAll, hs, h]

/-- Models with the same steps for the tasks perform them alike. -/
theorem performAll_congr {m' : Model} {ts : List Task}
    (h : ∀ t ∈ ts, m'.stepOf t = m.stepOf t) (s : Session) :
    s.performAll m' ts = s.performAll m ts := by
  induction ts generalizing s with
  | nil => rfl
  | cons t ts ih =>
    have hperform : s.perform m' t = s.perform m t := by
      cases t <;> simp only [perform, h _ List.mem_cons_self]
    rw [performAll, performAll, hperform]
    split
    · exact ih (fun u hu => h u (List.mem_cons_of_mem _ hu)) _
    · rfl

end Session

/-! ## Whole runs -/

namespace Model

variable {m : Model}

/-- All requests of a run, in order. -/
def requests (m : Model) : List Request := m.requestsOf m.tasks

/-- The registry at the end of a run. -/
def registry (m : Model) : Registry := ({} : Registry).serveAll m.requests

/-- The names of a run, as they are at its end. -/
def names (m : Model) : Names := m.registry.view

/-- Everything that a run emits. -/
def fragments (m : Model) : List Fragment := m.fragmentsOf m.names m.tasks

/-- A run emits what the steps of its tasks emit. -/
theorem mem_fragments_iff {f : Fragment} :
    f ∈ m.fragments ↔ ∃ t ∈ m.tasks, f ∈ (m.stepOf t).fragments m.names := by
  rw [fragments, fragmentsOf, List.mem_flatMap]

/-- The turns of a run are those of all properties, each as often as it is listed. -/
theorem turns_tasks (m : Model) : m.tasks.filterMap Task.turn? = m.propertyIds := by
  -- only the last portion of the tasks has turns
  have hnone : ∀ {α : Type} (f : α → Task) (l : List α), (∀ a, (f a).turn? = none) →
      (l.map f).filterMap Task.turn? = [] := by
    intro α f l h
    rw [List.filterMap_map, List.filterMap_eq_nil_iff]
    exact fun a _ => h a
  have hproperties : (m.properties.map fun p => Task.property p.1 p.2).filterMap Task.turn?
      = m.properties.map (·.2.id) := by
    rw [List.filterMap_map, ← List.filterMap_eq_map]
    rfl
  rw [tasks]
  simp only [List.filterMap_append, propertyIds]
  rw [hnone _ _ fun _ => rfl, hnone _ _ fun _ => rfl, hnone _ _ fun _ => rfl,
    hnone _ _ fun _ => rfl, hproperties]
  rfl

/-- **A run without defects.** Its module is what all steps emit under the final names, and no step
has met a defect. -/
theorem encoding_ok {s : Sections} (hid : m.ids.Nodup) (h : m.encoding = .ok s) :
    s = .ofFragments m.fragments ∧ ∀ t ∈ m.tasks, (m.stepOf t).failure = none := by
  unfold encoding at h
  split at h
  · next s' hrun =>
    obtain ⟨hregistry, hemitted, hfailure⟩ := Session.performAll_ok
      (fun t ht => isOf_of_mem_tasks ht) (by rw [turns_tasks]; exact nodup_propertyIds hid)
      (fun _ _ => List.not_mem_nil) hrun
    refine ⟨?_, hfailure⟩
    rw [← Except.ok.inj h, Session.sections, hemitted, hregistry]
    rfl
  · cases h

/-- A run that succeeds has sections. -/
theorem exists_encoding_of_isOk (h : m.encoding.isOk = true) : ∃ s, m.encoding = .ok s := by
  cases hs : m.encoding with
  | ok s => exact ⟨s, rfl⟩
  | error d =>
    rw [hs] at h
    cases h

/-- What is decided about the sections of a run holds of them. -/
theorem exists_encoding_of_map {P : Sections → Prop} [DecidablePred P]
    (h : m.encoding.toOption.map (fun s => decide (P s)) = some true) :
    ∃ s, m.encoding = .ok s ∧ P s := by
  cases hs : m.encoding with
  | ok s =>
    rw [hs] at h
    exact ⟨s, rfl, of_decide_eq_true (Option.some.inj h)⟩
  | error d =>
    rw [hs] at h
    cases h

/-- Runs with the same fragments and the same defect have the same result. -/
theorem encode_eq_of_run {m m' : Model} (hemitted : m'.run.1.emitted = m.run.1.emitted)
    (hdefect : m'.run.2 = m.run.2) (o : RunScope) : m'.encode o = m.encode o := by
  have hencoding : m'.encoding = m.encoding := by
    rw [encoding, encoding]
    rcases hs : m.run with ⟨s, d⟩
    rcases hs' : m'.run with ⟨s', d'⟩
    rw [hs, hs'] at hemitted hdefect
    obtain rfl : d' = d := hdefect
    cases d' with
    | some d => rfl
    | none => exact congrArg (fun e => Except.ok (Sections.ofFragments e)) hemitted
  rw [encode, encode, hencoding]

/-- The registry of a run is sound. -/
theorem sound_registry (m : Model) : m.registry.Sound :=
  Registry.sound_empty.serveAll m.requests

end Model

end OntoWorlds
