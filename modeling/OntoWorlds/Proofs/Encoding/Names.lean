import OntoWorlds.Proofs.Encoding.Run

/-!
# OntoWorlds — the names of a run

All requests of a run are made by labels of the model, and every alias is made from a name given
before. So all identifiers of a run are issuable, and the keys requested have identifiers of their
own.

* `Model.issuable_of_given?` — what a run gives is legal or `select13`.
* `Model.of_injective` — different keys that have been requested are called differently.
* `Model.eq_key_of_mem_requests` — nor is any other key called like one of them.
-/

namespace OntoWorlds

open Identifier

namespace Model

variable {m : Model}

/-! ## The requests of a run -/

/-- A run requests what the steps of its tasks request. -/
theorem mem_requests_iff {q : Request} :
    q ∈ m.requests ↔ ∃ t ∈ m.tasks, q ∈ (m.stepOf t).requests := by
  rw [requests, requestsOf, List.mem_flatMap]

/-- Every request of a run is by the label of an element. -/
theorem isLabelled_of_mem_requests {q : Request} (h : q ∈ m.requests) : q.IsLabelled m.labels := by
  obtain ⟨t, ht, hq⟩ := mem_requests_iff.mp h
  exact (isProper_stepOf [] (isOf_of_mem_tasks ht)).labelled q hq

/-- The requests of tasks on the model are seeded wherever they come, since each step seeds its own.
-/
theorem seeded_requestsOf {ts : List Task} (hts : ∀ t ∈ ts, t.IsOf m) (before : List Request) :
    Request.Seeded before (m.requestsOf ts) := by
  induction ts generalizing before with
  | nil => trivial
  | cons t ts ih =>
    rw [requestsOf, List.flatMap_cons, Request.seeded_append]
    refine ⟨(isProper_stepOf before (hts t List.mem_cons_self)).seeded, ?_⟩
    exact ih (fun u hu => hts u (List.mem_cons_of_mem _ hu)) _

/-- The requests of a run are seeded from the start. -/
theorem seeded_requests (m : Model) : Request.Seeded [] m.requests :=
  seeded_requestsOf (fun _ ht => isOf_of_mem_tasks ht) []

/-- What a run has requested has an identifier in the end. -/
theorem given?_of_mem_requests {q : Request} (h : q ∈ m.requests) :
    ∃ w, m.registry.given? q.key = some w ∧ m.names.of q.key = w := by
  obtain ⟨w, hw⟩ := Registry.given?_serveAll (r := {}) h
  exact ⟨w, hw, Registry.view_of hw⟩

/-- Keys that have been requested are called differently. -/
theorem of_injective {q q' : Request} (hq : q ∈ m.requests) (hq' : q' ∈ m.requests)
    (h : m.names.of q.key = m.names.of q'.key) : q.key = q'.key :=
  (sound_registry m).eq_of_view (Registry.given?_serveAll hq) (Registry.given?_serveAll hq') h

end Model

/-! ## Issuable identifiers -/

namespace Registry

/-- The name requests so far have been answered. -/
def Answers (r : Registry) (before : List Request) : Prop :=
  ∀ id base, Request.name id base ∈ before → ∃ w, r.nameOf? id = some w

/-- Serving one more request answers it, and nothing that has been answered is lost. -/
theorem answers_serve {r : Registry} {before : List Request} (h : r.Answers before) (q : Request) :
    (r.serve q).Answers (before ++ [q]) := by
  intro id base hmem
  -- names given before are kept, and the new one is recorded
  have hextends : Extends r (r.serve q) := extends_serveAll r [q]
  rcases List.mem_append.mp hmem with hmem | hmem
  · obtain ⟨w, hw⟩ := h id base hmem
    exact ⟨w, hextends (.own id) w hw⟩
  · obtain rfl := List.mem_singleton.mp hmem
    exact ⟨_, nameOf?_name r id base⟩

/-- Every request comes to a base that may be issued. -/
theorem isIssuable_baseOf {r : Registry} (h : r.Sound) (hused : ∀ w ∈ r.used, IsIssuable w)
    {before : List Request} (hbefore : r.Answers before) {ls : List Label} {q : Request}
    (hlabelled : q.IsLabelled ls) (hseeded : q.IsSeeded before) : IsIssuable (r.baseOf q) := by
  match q, hlabelled, hseeded with
  | .name _ _, ⟨l, _, _, hbase⟩, _ =>
    -- bases that come from labels are legal, however the label is asked for
    left
    rcases hbase with rfl | rfl
    · exact isLegal_base l.name l.kind
    · exact isLegal_declaredBase l.name l.kind
  | .alias _ _, rfl, _ =>
    left
    show isLegal "relation" = true
    decide +kernel
  | .aliasLike _ other, _, ⟨base, hmem⟩ =>
    -- the alias is made from an identifier that has been given before
    obtain ⟨w, hw⟩ := hbefore other base hmem
    have hview : r.view.own other = w := view_of (k := .own other) hw
    show IsIssuable (r.view.own other)
    rw [hview]
    exact hused w ((h.mem_used_iff w).mpr ⟨.own other, hw⟩)

/-- A run of requests issues only issuable identifiers, by induction on the requests. -/
theorem isIssuable_serveAll {r : Registry} (h : r.Sound) (hused : ∀ w ∈ r.used, IsIssuable w)
    {before : List Request} (hbefore : r.Answers before) {ls : List Label} {qs : List Request}
    (hlabelled : ∀ q ∈ qs, q.IsLabelled ls) (hseeded : Request.Seeded before qs) :
    ∀ w ∈ (r.serveAll qs).used, IsIssuable w := by
  induction qs generalizing r before with
  | nil => exact hused
  | cons q qs ih =>
    have hbase := isIssuable_baseOf h hused hbefore (hlabelled q List.mem_cons_self) hseeded.1
    have hgive := h.isIssuable_give hused q.key hbase
    refine ih (h.serve q) ?_ (answers_serve hbefore q)
      (fun q' hq' => hlabelled q' (List.mem_cons_of_mem _ hq')) hseeded.2
    -- what is new among the used identifiers is what has just been given
    intro w hw
    rw [serve_eq_give] at hw
    rcases (h.mem_used_give q.key (r.baseOf q) w).mp hw with rfl | hw
    · exact hgive
    · exact hused w hw

end Registry

/-- Every identifier of a run is legal, or `select13`. -/
theorem Model.issuable_of_given? {m : Model} {k : Key} {w : String}
    (h : m.registry.given? k = some w) : IsIssuable w := by
  -- no identifier has been used at the start, and every request of the run is in order
  have hused : ∀ w ∈ m.registry.used, IsIssuable w :=
    Registry.isIssuable_serveAll Registry.sound_empty (fun w hw => absurd hw List.not_mem_nil)
      (fun _ _ hmem => absurd hmem List.not_mem_nil)
      (fun _ hq => isLabelled_of_mem_requests hq) (seeded_requests m)
  exact hused w (((sound_registry m).mem_used_iff w).mpr ⟨k, h⟩)

/-- Only the key itself is called like a key that has been requested. -/
theorem Model.eq_key_of_mem_requests {m : Model} {q : Request} (hq : q ∈ m.requests) {k : Key}
    (h : m.names.of k = m.names.of q.key) : k = q.key := by
  obtain ⟨w, hw, hname⟩ := given?_of_mem_requests hq
  cases hk : m.registry.given? k with
  | some w' => exact (sound_registry m).eq_of_view ⟨w', hk⟩ ⟨w, hw⟩ h
  | none =>
    -- without an identifier the key is called by the empty word, which is not issuable
    have hempty : m.names.of k = "" := Registry.view_of_none hk
    have hissuable : IsIssuable "" := by
      rw [← hempty, h, hname]
      exact issuable_of_given? hw
    have hnot : ¬ (isLegal "" = true ∨ "" = "select13") := by decide +kernel
    exact absurd hissuable hnot

end OntoWorlds
