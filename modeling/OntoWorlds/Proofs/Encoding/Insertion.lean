import Mathlib.Data.List.Basic
import OntoWorlds.Proofs.Encoding.Agreement
import OntoWorlds.Proofs.Encoding.Run

/-!
# OntoWorlds — unrepresented classes leave no trace

A class without a signature, and the relations that are tied to it, can stand anywhere in a model:
each of their tasks is skipped before it requests a name or meets a defect, and no look-up made for
the other elements ends at one of them. So the run on the extended model goes along with the run on
the model itself, and stands still whenever an inserted element has its turn.

* `Inserted` — the second list is the first one with elements inserted.
* `Session.SameUpTo.performAll` — inserted tasks whose steps are skipped change nothing.
* `Model.ExtendedBy` — a model with an unrepresented class and relations inserted.
* `Model.ExtendedBy.encode_eq` — both models have the same module text and report, or the same
  defect.
-/

namespace OntoWorlds

open Alloy

/-! ## Lists with elements inserted -/

/-- The second list is the first one with elements inserted anywhere, all of which satisfy `P`. -/
inductive Inserted {α : Type} (P : α → Prop) : List α → List α → Prop
  | nil : Inserted P [] []
  | keep {a : α} {as bs : List α} (h : Inserted P as bs) : Inserted P (a :: as) (a :: bs)
  | insert {b : α} {as bs : List α} (hb : P b) (h : Inserted P as bs) : Inserted P as (b :: bs)

namespace Inserted

variable {α β : Type} {P : α → Prop} {Q : β → Prop} {as bs : List α}

/-- Nothing has to be inserted. -/
theorem refl (as : List α) : Inserted P as as := by
  induction as with
  | nil => exact .nil
  | cons a as ih => exact .keep ih

/-- A whole list can be inserted into the empty one. -/
theorem of_forall (h : ∀ b ∈ bs, P b) : Inserted P [] bs := by
  induction bs with
  | nil => exact .nil
  | cons b bs ih =>
    exact .insert (h b List.mem_cons_self) (ih fun c hc => h c (List.mem_cons_of_mem _ hc))

/-- Insertions into two portions make insertions into both together. -/
theorem append {as' bs' : List α} (h : Inserted P as bs) (h' : Inserted P as' bs') :
    Inserted P (as ++ as') (bs ++ bs') := by
  induction h with
  | nil => exact h'
  | keep _ ih => exact .keep ih
  | insert hb _ ih => exact .insert hb ih

/-- Elements inserted into a list insert what they are mapped to. -/
theorem flatMap {f : α → List β} (h : Inserted P as bs) (hf : ∀ b, P b → ∀ x ∈ f b, Q x) :
    Inserted Q (as.flatMap f) (bs.flatMap f) := by
  induction h with
  | nil => exact .nil
  -- an element that was there contributes the same portion, an inserted one a portion of its own
  | keep _ ih => exact (refl _).append ih
  | insert hb _ ih => exact (of_forall (hf _ hb)).append ih

/-- The same for a map that gives one value for each element. -/
theorem map {f : α → β} (h : Inserted P as bs) (hf : ∀ b, P b → Q (f b)) :
    Inserted Q (as.map f) (bs.map f) := by
  rw [List.map_eq_flatMap, List.map_eq_flatMap]
  refine h.flatMap fun b hb x hx => ?_
  rw [List.mem_singleton.mp hx]
  exact hf b hb

/-- A search that no inserted element meets gives the same elements. -/
theorem filter_eq {test : α → Bool} (h : Inserted P as bs) (htest : ∀ b, P b → test b = false) :
    bs.filter test = as.filter test := by
  induction h with
  | nil => rfl
  | keep _ ih => rw [List.filter_cons, List.filter_cons, ih]
  | insert hb _ ih =>
    rw [List.filter_cons_of_neg (by rw [htest _ hb]; exact Bool.false_ne_true), ih]

/-- A search that no inserted element meets finds the same element first. -/
theorem find?_eq {test : α → Bool} (h : Inserted P as bs) (htest : ∀ b, P b → test b = false) :
    bs.find? test = as.find? test := by
  rw [← List.head?_filter, ← List.head?_filter, h.filter_eq htest]

end Inserted

/-! ## Runs with tasks inserted -/

namespace Session

/-- The sessions differ at most in the turns of properties with unknown ids. -/
structure SameUpTo (known : List ElementId) (s s' : Session) : Prop where
  registry : s'.registry = s.registry
  emitted : s'.emitted = s.emitted
  visited : ∀ id ∈ known, id ∈ s'.visited ↔ id ∈ s.visited

/-- The task is skipped in the model, and it is the turn of no known property. -/
def Passes (known : List ElementId) (m : Model) (t : Task) : Prop :=
  m.stepOf t = .skip ∧ ∀ id, t.turn? = some id → id ∉ known

variable {known : List ElementId} {m m' : Model} {s s' : Session} {t : Task}

/-- Skipping a task leaves the session as it is. -/
theorem take_skip (s : Session) : s.take .skip = (s, none) := by
  simp [take, Step.skip, Registry.serveAll]

/-- Sessions that differ only in unknown turns take a step alike. -/
theorem SameUpTo.take (h : s.SameUpTo known s') (step : Step) :
    (s.take step).1.SameUpTo known (s'.take step).1 ∧ (s'.take step).2 = (s.take step).2 := by
  have hregistry := h.registry
  have hemitted := h.emitted
  simp only [Session.take, hregistry, hemitted]
  exact ⟨⟨rfl, rfl, h.visited⟩, trivial⟩

/-- The turn of any property keeps such a difference. -/
theorem SameUpTo.visit (h : s.SameUpTo known s') (id : ElementId) :
    (s.visit id).SameUpTo known (s'.visit id) where
  registry := h.registry
  emitted := h.emitted
  visited := by
    intro i hi
    simp only [Session.visit, List.mem_cons, h.visited i hi]

/-- A task that passes changes no more than the turns of unknown properties. -/
theorem SameUpTo.perform_of_passes (h : s.SameUpTo known s') (ht : Passes known m' t) :
    s.SameUpTo known (s'.perform m' t).1 ∧ (s'.perform m' t).2 = none := by
  obtain ⟨hskip, hunknown⟩ := ht
  cases hturn : t.turn? with
  | none =>
    rw [perform_of_turn_none hturn, hskip, take_skip]
    exact ⟨h, rfl⟩
  | some id =>
    rw [perform_of_turn hturn, hskip, take_skip]
    split
    -- the property has had its turn, known or not
    · exact ⟨h, rfl⟩
    -- its turn is marked now, and it is no known property
    · refine ⟨⟨h.registry, h.emitted, ?_⟩, rfl⟩
      intro i hi
      have hne : i ≠ id := by
        rintro rfl
        exact hunknown i hturn hi
      simp only [Session.visit, List.mem_cons, hne, false_or, h.visited i hi]

/-- A task of the model is performed alike in both. -/
theorem SameUpTo.perform (h : s.SameUpTo known s') (hstep : m'.stepOf t = m.stepOf t)
    (hknown : ∀ id, t.turn? = some id → id ∈ known) :
    (s.perform m t).1.SameUpTo known (s'.perform m' t).1 ∧
      (s'.perform m' t).2 = (s.perform m t).2 := by
  cases hturn : t.turn? with
  | none =>
    rw [perform_of_turn_none hturn, perform_of_turn_none hturn, hstep]
    exact h.take _
  | some id =>
    have hvisited : s'.visited.contains id = s.visited.contains id := by
      rw [Bool.eq_iff_iff, List.contains_iff_mem, List.contains_iff_mem]
      exact h.visited id (hknown id hturn)
    -- known properties have had their turns in both sessions or in neither
    rw [perform_of_turn hturn, perform_of_turn hturn, hvisited, hstep]
    split
    · exact ⟨h, rfl⟩
    · exact (h.visit id).take _

/-- Tasks of the model with tasks inserted that pass: both runs go the same way. -/
theorem SameUpTo.performAll {ts ts' : List Task} (h : s.SameUpTo known s')
    (hts : Inserted (Passes known m') ts ts') (hstep : ∀ t ∈ ts, m'.stepOf t = m.stepOf t)
    (hknown : ∀ t ∈ ts, ∀ id, t.turn? = some id → id ∈ known) :
    (s.performAll m ts).1.SameUpTo known (s'.performAll m' ts').1 ∧
      (s'.performAll m' ts').2 = (s.performAll m ts).2 := by
  induction hts generalizing s s' with
  | nil => exact ⟨h, rfl⟩
  -- a task of the model
  | @keep t ts ts' _ ih =>
    obtain ⟨hsame, hdefect⟩ :=
      h.perform (hstep t List.mem_cons_self) (hknown t List.mem_cons_self)
    cases hd : (s.perform m t).2 with
    | some d =>
      rw [performAll_cons_of_some hd, performAll_cons_of_some (hdefect.trans hd)]
      exact ⟨hsame, hdefect⟩
    | none =>
      rw [performAll_cons_of_none hd, performAll_cons_of_none (hdefect.trans hd)]
      exact ih hsame (fun t ht => hstep t (List.mem_cons_of_mem _ ht))
        (fun t ht => hknown t (List.mem_cons_of_mem _ ht))
  -- an inserted task
  | @insert t ts ts' ht _ ih =>
    obtain ⟨hsame, hd⟩ := h.perform_of_passes ht
    rw [performAll_cons_of_none hd]
    exact ih hsame hstep hknown

end Session

/-! ## Skipped elements -/

/-- A class without a signature has no base. -/
theorem Class.base?_eq_none {c : Class} (h : c.hasSignature = false) : c.base? = none := by
  rw [hasSignature, Bool.or_eq_false_iff] at h
  exact Option.isNone_iff_eq_none.mp (by rw [← Option.not_isSome, ← hasWorldField, h.2]; rfl)

/-- A class without a signature is no datatype. -/
theorem Class.isDatatype_eq_false {c : Class} (h : c.hasSignature = false) :
    c.isDatatype = false := by
  rw [hasSignature, isValueType, Bool.or_eq_false_iff, Bool.or_eq_false_iff] at h
  exact h.1.1

theorem Class.isEnumeration_eq_false {c : Class} (h : c.hasSignature = false) :
    c.isEnumeration = false := by
  rw [hasSignature, isValueType, Bool.or_eq_false_iff, Bool.or_eq_false_iff] at h
  exact h.1.2

theorem Class.step_eq_skip {c : Class} (h : c.hasSignature = false) : c.step = .skip := by
  rw [step, isDatatype_eq_false h, isEnumeration_eq_false h, base?_eq_none h]
  rfl

/-- It covers no base signature. -/
theorem Class.covers?_eq_none {c : Class} (h : c.hasSignature = false) : c.covers? = none := by
  rw [covers?, base?_eq_none h]
  split
  · contradiction
  · rfl

namespace Model

/-- The relation is no derivation, and both of its ends are found, one of them as the class. -/
structure IsTied (m : Model) (c : Class) (r : Relation) : Prop where
  notDerivation : r.isDerivation = false
  found : ∃ x y, m.sourceOf r = some x ∧ m.targetOf r = some y ∧ (x = .ofClass c ∨ y = .ofClass c)

variable {m : Model} {c : Class} {r : Relation}

/-- The attributes of such a class are skipped. -/
theorem propertyStep_attribute_eq_skip (h : c.hasSignature = false) (p : Property) :
    m.propertyStep (.ofClass c) p = .skip := by
  have hfield : c.hasWorldField = false := by rw [Class.hasWorldField, Class.base?_eq_none h]; rfl
  rw [propertyStep, roleOf, attributeRole, Class.isDatatype_eq_false h, hfield]
  rfl

/-- A relation tied to such a class does not hold between datatypes. -/
theorem IsTied.holdsBetweenDatatypes_eq (h : m.IsTied c r) (hc : c.hasSignature = false) :
    m.holdsBetweenDatatypes r = false := by
  have hdatatype : (Classifier.ofClass c).isDatatype = false := Class.isDatatype_eq_false hc
  obtain ⟨x, y, hx, hy, hxy⟩ := h.found
  rw [holdsBetweenDatatypes, hx, hy]
  rcases hxy with rfl | rfl
  · simp only [hdatatype, Bool.false_and]
  · simp only [hdatatype, Bool.and_false]

/-- A tied relation is not represented. -/
theorem IsTied.isRepresented_eq (h : m.IsTied c r) (hc : c.hasSignature = false) :
    m.isRepresented r = false := by
  have hsignature : (Classifier.ofClass c).hasSignature = false := hc
  obtain ⟨x, y, hx, hy, hxy⟩ := h.found
  rw [isRepresented, hx, hy]
  -- the source is a relation, or a class; the new class is the source or the target
  cases x with
  | ofRelation q => rw [h.notDerivation]; rfl
  | ofClass d =>
    rcases hxy with hd | rfl
    · rw [← hd] at hsignature
      have hd' : d.hasSignature = false := hsignature
      simp only [hd', Bool.false_and]
    · simp only [hsignature, Bool.and_false, Bool.false_and]

/-- The ends of a tied relation are found, so it meets no defect. -/
theorem IsTied.exists_endsOf (h : m.IsTied c r) : ∃ e, m.endsOf r = .ok e := by
  obtain ⟨x, y, hx, hy, -⟩ := h.found
  obtain ⟨p, hp, hpx⟩ := Option.bind_eq_some_iff.mp hx
  obtain ⟨q, hq, hqy⟩ := Option.bind_eq_some_iff.mp hy
  exact ⟨⟨p, q, x, y⟩, endsOf_eq_ok_iff.mpr ⟨hp, hq, hpx, hqy⟩⟩

/-- The step of a tied relation is skipped. -/
theorem IsTied.relationStep_eq_skip (h : m.IsTied c r) (hc : c.hasSignature = false) :
    m.relationStep r = .skip := by
  obtain ⟨e, he⟩ := h.exists_endsOf
  rw [relationStep, he, Step.given_ok, h.holdsBetweenDatatypes_eq hc, h.isRepresented_eq hc]
  rfl

theorem IsTied.propertyStep_eq_skip (h : m.IsTied c r) (hc : c.hasSignature = false)
    (p : Property) : m.propertyStep (.ofRelation r) p = .skip := by
  rw [propertyStep, roleOf, endRole, h.holdsBetweenDatatypes_eq hc, h.notDerivation,
    h.isRepresented_eq hc]
  rfl

/-! ## The extended model -/

/-- The second model is the first one with a class inserted that has no signature, and with
relations inserted that are tied to it. The ids of the class and its attributes, and of the
relations and their ends, are new to the first model. -/
structure ExtendedBy (m : Model) (c : Class) (m' : Model) : Prop where
  noSignature : c.hasSignature = false
  newClass : m.IsNew c.id ∧ ∀ p ∈ c.attributes, m.IsNew p.id
  classes : ∃ before after, m.classes = before ++ after ∧ m'.classes = before ++ c :: after
  relations : Inserted (fun r => m'.IsTied c r ∧ m.IsNew r.id ∧ ∀ p ∈ r.ends, m.IsNew p.id)
    m.relations m'.relations
  generalizations : m'.generalizations = m.generalizations
  generalizationSets : m'.generalizationSets = m.generalizationSets

/-- The relation is a mediation between the two elements. -/
def mediates (m : Model) (relator mediated : ElementId) (r : Relation) : Bool :=
  r.isMediation && match m.sourceOf r, m.targetOf r with
    | some source, some target => source.id == relator && target.id == mediated
    | _, _ => false

/-- A mediation is looked for among the relations in order. -/
theorem findMediation_eq_find? (m : Model) (relator mediated : ElementId) :
    m.findMediation relator mediated = m.relations.find? (m.mediates relator mediated) := rfl

namespace ExtendedBy

variable {m' : Model}

/-- Only one class is inserted. -/
theorem inserted_classes (h : m.ExtendedBy c m') : Inserted (· = c) m.classes m'.classes := by
  obtain ⟨before, after, hclasses, hclasses'⟩ := h.classes
  rw [hclasses, hclasses']
  exact (Inserted.refl before).append (.insert rfl (.refl after))

/-- No reference of the model ends at an inserted element. -/
theorem resolvesAlike (h : m.ExtendedBy c m') : m.ResolvesAlike m' := by
  intro id hid
  -- an id of the model is not among the new ones
  have hne {i : ElementId} (hi : m.IsNew i) : (i == id) = false := by
    rw [beq_eq_false_iff_ne]
    rintro rfl
    exact hi.2 hid
  have hclass : m'.findClass id = m.findClass id := by
    refine h.inserted_classes.find?_eq ?_
    rintro _ rfl
    exact hne h.newClass.1
  have hrelation : m'.findRelation id = m.findRelation id :=
    h.relations.find?_eq fun r hr => hne hr.2.1
  rw [find, find, hclass, hrelation]

/-- No inserted relation is a derivation, so the derivation of a relation is the same. -/
theorem derivationOf_eq (h : m.ExtendedBy c m') (r : Relation) :
    m'.derivationOf r = m.derivationOf r := by
  refine h.relations.find?_eq fun d hd => ?_
  rw [hd.1.notDerivation, Bool.false_and]

/-- The id of an element of the model is one of its ids. -/
theorem id_mem_ids {x : Classifier} (hx : m.Has x) : x.id ∈ m.ids := by
  rw [← map_id_labels]
  exact List.mem_map_of_mem (label_mem_of_has hx)

/-- An inserted mediation has an end at the new class, hence at neither of two known elements. -/
theorem findMediation_eq (h : m.ExtendedBy c m') {x y : Classifier} (hx : m.Has x)
    (hy : m.Has y) : m'.findMediation x.id y.id = m.findMediation x.id y.id := by
  -- known elements are not the new class
  have hne {z : Classifier} (hz : m.Has z) : ((Classifier.ofClass c).id == z.id) = false := by
    rw [beq_eq_false_iff_ne]
    intro heq
    have hmem : (Classifier.ofClass c).id ∈ m.ids := heq ▸ id_mem_ids hz
    exact h.newClass.1.1 hmem
  have hinserted : m'.findMediation x.id y.id = m.relations.find? (m'.mediates x.id y.id) := by
    refine h.relations.find?_eq fun r hr => ?_
    show m'.mediates x.id y.id r = false
    obtain ⟨a, b, ha, hb, hab⟩ := hr.1.found
    rw [mediates, ha, hb]
    rcases hab with rfl | rfl
    · simp only [hne hx, Bool.false_and, Bool.and_false]
    · simp only [hne hy, Bool.and_false]
  -- the relations of the model itself have the same ends as before
  have hends : ∀ r ∈ m.relations, m'.mediates x.id y.id r = m.mediates x.id y.id r := by
    intro r hr
    unfold mediates
    rw [h.resolvesAlike.sourceOf_eq hr, h.resolvesAlike.targetOf_eq hr]
  rw [hinserted, findMediation_eq_find?, ← List.head?_filter, ← List.head?_filter,
    List.filter_congr hends]

/-- So every look-up made for an element of the model has the same result. -/
theorem findsAlike (h : m.ExtendedBy c m') : m.FindsAlike m' where
  resolves := h.resolvesAlike
  findGeneralization := by
    intro id _
    rw [findGeneralization, findGeneralization, h.generalizations]
  derivationOf r _ := h.derivationOf_eq r
  findMediation := h.findMediation_eq
  coverers := by
    -- the new class covers nothing
    refine h.inserted_classes.filter_eq ?_
    rintro _ rfl
    rw [Class.covers?_eq_none h.noSignature]
    rfl

/-! ## The two runs -/

/-- The inserted attributes are those of the class. -/
theorem inserted_attributes (h : m.ExtendedBy c m') :
    Inserted (fun a => a.1 = c ∧ m.IsNew a.2.id) m.attributes m'.attributes := by
  refine h.inserted_classes.flatMap ?_
  rintro _ rfl a ha
  obtain ⟨p, hp, rfl⟩ := List.mem_map.mp ha
  exact ⟨rfl, h.newClass.2 p hp⟩

/-- The inserted relation ends are those of tied relations. -/
theorem inserted_relationEnds (h : m.ExtendedBy c m') :
    Inserted (fun e => m'.IsTied c e.1 ∧ m.IsNew e.2.id) m.relationEnds m'.relationEnds := by
  refine h.relations.flatMap ?_
  rintro r ⟨htied, -, hends⟩ e he
  obtain ⟨p, hp, rfl⟩ := List.mem_map.mp he
  exact ⟨htied, hends p hp⟩

/-- The step of every inserted property is skipped, and its id is new. -/
theorem inserted_properties (h : m.ExtendedBy c m') :
    Inserted (fun x => m'.propertyStep x.1 x.2 = .skip ∧ m.IsNew x.2.id)
      m.properties m'.properties := by
  refine Inserted.append ?_ ?_
  · refine h.inserted_attributes.map ?_
    rintro ⟨_, p⟩ ⟨rfl, hp⟩
    exact ⟨propertyStep_attribute_eq_skip h.noSignature p, hp⟩
  · refine h.inserted_relationEnds.map ?_
    rintro ⟨r, p⟩ ⟨hr, hp⟩
    exact ⟨hr.propertyStep_eq_skip h.noSignature p, hp⟩

/-- Every inserted task is skipped. -/
theorem inserted_tasks (h : m.ExtendedBy c m') :
    Inserted (Session.Passes m.ids m') m.tasks m'.tasks := by
  rw [tasks, tasks, h.generalizations, h.generalizationSets]
  refine Inserted.append (Inserted.append (Inserted.append (Inserted.append (Inserted.append
    ?_ (.refl _)) (.refl _)) (.refl _)) ?_) ?_
  -- the tasks of the extended model have the new class in the first portion
  · refine h.inserted_classes.map ?_
    rintro _ rfl
    refine ⟨Class.step_eq_skip h.noSignature, ?_⟩
    intro id hid
    cases hid
  -- the tied relations in the fifth
  · refine h.relations.map ?_
    rintro r ⟨hr, -⟩
    refine ⟨hr.relationStep_eq_skip h.noSignature, ?_⟩
    intro id hid
    cases hid
  -- and the properties of both in the last
  · refine h.inserted_properties.map ?_
    rintro ⟨x, p⟩ ⟨hskip, hnew⟩
    refine ⟨hskip, ?_⟩
    rintro _ ⟨⟩
    exact hnew.1

end ExtendedBy

/-- A turn in a run is that of a property of the model. -/
theorem mem_ids_of_mem_turns {t : Task} (ht : t ∈ m.tasks) {id : ElementId}
    (hid : t.turn? = some id) : id ∈ m.ids := by
  have hmem : id ∈ m.propertyIds := by
    rw [← turns_tasks]
    exact List.mem_filterMap.mpr ⟨t, ht, hid⟩
  obtain ⟨⟨x, p⟩, hp, rfl⟩ := List.mem_map.mp hmem
  rw [← map_id_labels]
  exact List.mem_map_of_mem (label_mem_of_mem_properties hp)

/-- **Unrepresented classes leave no trace.** A class without a signature, with new ids, and any
relations tied to it can be inserted anywhere in a model: the module text and the report stay the
same, and so does the defect of a run that fails. -/
theorem ExtendedBy.encode_eq {m m' : Model} {c : Class} (h : m.ExtendedBy c m') (o : RunScope) :
    m'.encode o = m.encode o := by
  have hstart : ({} : Session).SameUpTo m.ids {} := ⟨rfl, rfl, fun _ _ => Iff.rfl⟩
  obtain ⟨hsame, hdefect⟩ := hstart.performAll h.inserted_tasks
    (fun t ht => h.findsAlike.stepOf_eq (isOf_of_mem_tasks ht))
    (fun t ht id hid => mem_ids_of_mem_turns ht hid)
  exact encode_eq_of_run hsame.emitted hdefect o

/-- An event, with an attribute that is of no known type and has no readable cardinality. -/
def meeting : Class where
  id := ⟨"meeting"⟩
  name := some "Meeting"
  stereotype := some .event
  attributes := [
    { id := ⟨"agenda"⟩, name := some "agenda", type := some ⟨"topic"⟩, cardinality := "many" }]

/-- People who know each other. -/
def guests : Model where
  classes := [{ id := ⟨"person"⟩, name := some "Person", stereotype := some .kind }]
  relations := [
    { id := ⟨"knows"⟩, name := some "knows"
      ends := [
        { id := ⟨"knows source"⟩, type := some ⟨"person"⟩ },
        { id := ⟨"knows target"⟩, type := some ⟨"person"⟩ }] }]

/-- Before anything else, the guests know of the meeting. -/
def invitations : Model where
  classes := meeting :: guests.classes
  relations :=
    { id := ⟨"invited"⟩, name := some "knows", stereotype := some .mediation
      ends := [
        { id := ⟨"invited source"⟩, type := some ⟨"person"⟩ },
        { id := ⟨"invited target"⟩, type := some ⟨"meeting"⟩ }] } :: guests.relations

/-- The invitations extend the guests by the meeting and one tied relation. -/
theorem guests_extendedBy_meeting : guests.ExtendedBy meeting invitations where
  noSignature := by decide
  newClass := by decide +kernel
  classes := ⟨[], guests.classes, rfl, rfl⟩
  relations := .insert ⟨⟨by decide, ⟨_, _, rfl, rfl, .inr rfl⟩⟩, by decide +kernel⟩ (.refl _)
  generalizations := rfl
  generalizationSets := rfl

/-- The invitations and the guests have the same module. -/
theorem invitations_encode_eq :
    guests.ExtendedBy meeting invitations ∧ invitations.encode {} = guests.encode {} :=
  ⟨guests_extendedBy_meeting, guests_extendedBy_meeting.encode_eq {}⟩

end Model

end OntoWorlds
