import OntoWorlds.Proofs.Module.Accessors

/-!
# OntoWorlds — the multiplicities of a module

The range of a property is stated in one of two places: by the keyword at its column of a field, or
by a fact that counts what its accessor gives. The field is declared by one step and the fact is
stated by another, and each of them decides for itself what it leaves to the other. Together they
state every range, unless the field has positions: a sequence has no keywords, its attribute states
no fact at all, and the end of a relation states one only if no keyword has its range.

* `Quantifier.range`, `Bounds.range` — the ranges that keywords and facts mean.
* `Model.Enforces` — a module states the range of a property.
* `Model.Loses` — it does not, and why.
* `unenforced_iff` — the ranges that are not stated are those that get lost.
-/

namespace OntoWorlds

open Alloy

/-! ## Ranges -/

/-- The range that a keyword means. -/
def Quantifier.range : Quantifier → Multiplicity
  | .lone => ⟨0, .some 1⟩
  | .one => ⟨1, .some 1⟩
  | .set => ⟨0, none⟩
  | .some => ⟨1, none⟩

/-- The range that bounds mean. -/
def Alloy.Bounds.range : Bounds → Multiplicity
  | .atLeast lower => ⟨lower, none⟩
  | .atMost upper => ⟨0, some upper⟩
  | .between lower upper => ⟨lower, some upper⟩

namespace Multiplicity

variable {k : Multiplicity}

/-- A range is the one of a keyword if it has the same bounds. -/
theorem range_eq_of_bounds {q : Quantifier} (hlower : k.lower = q.range.lower)
    (hupper : k.upper = q.range.upper) : q.range = k := by
  obtain ⟨lower, upper⟩ := k
  obtain rfl : lower = _ := hlower
  obtain rfl : upper = _ := hupper
  rfl

/-- A keyword is the one of a range exactly if it means the range. -/
theorem quantifier?_eq_some_iff {q : Quantifier} : k.quantifier? = some q ↔ q.range = k := by
  constructor
  · intro h
    unfold quantifier? at h
    -- one case for each keyword, by its bounds; the last one has none
    split at h
    · next hlower hupper =>
      obtain rfl : Quantifier.lone = q := Option.some.inj h
      exact range_eq_of_bounds hlower hupper
    · next hlower hupper =>
      obtain rfl : Quantifier.one = q := Option.some.inj h
      exact range_eq_of_bounds hlower hupper
    · next hlower hupper =>
      obtain rfl : Quantifier.set = q := Option.some.inj h
      exact range_eq_of_bounds hlower hupper
    · next hlower hupper =>
      obtain rfl : Quantifier.some = q := Option.some.inj h
      exact range_eq_of_bounds hlower hupper
    · cases h
  · rintro rfl
    cases q <;> rfl

/-- A range without a keyword is custom. -/
theorem isCustom_iff : k.isCustom = true ↔ ∀ q : Quantifier, q.range ≠ k := by
  rw [isCustom, Option.isNone_iff_eq_none, Option.eq_none_iff_forall_ne_some]
  simp only [ne_eq, quantifier?_eq_some_iff]

/-- A range that is not custom is the one of its keyword. -/
theorem range_quantifier (h : k.isCustom = false) : k.quantifier.range = k := by
  obtain ⟨q, hq⟩ := Option.isSome_iff_exists.mp (Option.isNone_eq_false_iff.mp h)
  rw [quantifier, hq, Option.getD_some]
  exact quantifier?_eq_some_iff.mp hq

/-- Every range but the one of all counts has bounds to state. -/
theorem exists_bounds (h : k ≠ ⟨0, none⟩) : ∃ b, Bounds.of? k = some b ∧ b.range = k := by
  obtain ⟨lower, upper⟩ := k
  cases lower with
  | zero =>
    cases upper with
    | none => exact absurd rfl h
    | some upper => exact ⟨.atMost upper, rfl, rfl⟩
  | succ lower =>
    cases upper with
    | none => exact ⟨.atLeast (lower + 1), rfl, rfl⟩
    | some upper => exact ⟨.between (lower + 1) upper, rfl, rfl⟩

/-- The bounds of a range are stated by a fact. -/
theorem fact_mem_boundsFact {counted : Counted} {b : Bounds} (h : Bounds.of? k = some b) :
    .fact (.multiplicity counted b) ∈ k.boundsFact counted := by
  rw [boundsFact, h]
  exact List.mem_singleton.mpr rfl

end Multiplicity

/-! ## Ranges in a module -/

/-- The instances in the world at hand, of those in any world. -/
def Alloy.Extent.atHand : Extent → Extent
  | .acrossWorlds w => .inWorld w
  | .inWorld w => .inWorld w
  | .signature w => .signature w

/-- What is at hand of the instances across worlds are those in a world. -/
theorem Classifier.atHand_acrossWorlds (x : Classifier) (w : String) :
    (x.acrossWorlds w).atHand = x.inWorld w := by
  unfold acrossWorlds inWorld
  split <;> rfl

/-- The keyword at the column of a property in the field it belongs to. The values of an attribute
stand in the last column, the ends of a relation in both. -/
inductive Model.Carries (m : Model) : Classifier → Property → WorldField → Quantifier → Prop
  | values {c : Class} {p : Property} {source target : String} {atSource atTarget : Quantifier} :
      Carries m (.ofClass c) p
        ⟨m.names.own p.id, .binary source atSource atTarget target⟩ atTarget
  | sourceEnd {r : Relation} {p : Property} {source target : String}
      {atSource atTarget : Quantifier} (hp : r.sourceEnd = some p) :
      Carries m (.ofRelation r) p
        ⟨r.fieldName m.names, .binary source atSource atTarget target⟩ atSource
  | targetEnd {r : Relation} {p : Property} {source target : String}
      {atSource atTarget : Quantifier} (hp : r.targetEnd = some p) :
      Carries m (.ofRelation r) p
        ⟨r.fieldName m.names, .binary source atSource atTarget target⟩ atTarget

/-- The module states the range of a property: all counts are in it, a keyword means it, or a fact
counts what the accessor of the property gives. -/
inductive Model.Enforces (m : Model) (s : Sections) (x : Classifier) (p : Property)
    (k : Multiplicity) : Prop
  | unbounded (hk : k = ⟨0, none⟩)
  | keyword {f : WorldField} {q : Quantifier} (hf : f ∈ s.worldFields)
      (hcarries : m.Carries x p f q) (hq : q.range = k)
  | count {a : Accessor} {b : Bounds} (ha : a ∈ s.accessors) (hreads : m.Reads s x p a)
      (hb : .multiplicity (.accessed a.domain.atHand a.name) b ∈ s.facts) (hrange : b.range = k)

/-- The steps of a property and of its field leave the range to each other. -/
inductive Model.Loses (m : Model) (x : Classifier) (p : Property) (k : Multiplicity) : Prop
  /-- The range of an ordered attribute is not even read. -/
  | sequence {c : Class} (hrole : m.roleOf x p = .orderedAttribute c)
  /-- The range of an end has a keyword, so it is left to the field. But this has positions, or no
  column for the end. -/
  | keyword {r : Relation} {side : EndSide} {q : Quantifier}
      (hrole : m.roleOf x p = .relationEnd r side) (hderived : m.isDerivedMaterial r = false)
      (hq : q.range = k)
      (hcolumn : r.hasOrderedEnd = true ∨ r.sourceEnd ≠ some p ∧ r.targetEnd ≠ some p)

namespace Model

variable {m : Model}

/-- The properties that have what their accessor gives counted: attributes and ends whose range has
no keyword, and all ends of derived relations. -/
inductive IsCounted (m : Model) (x : Classifier) (p : Property) : Prop
  | plainAttribute {c : Class} {k : Multiplicity} (hrole : m.roleOf x p = .plainAttribute c)
      (hk : p.multiplicity = .ok k) (hcustom : k.isCustom = true)
  | relationEnd {r : Relation} {side : EndSide} {k : Multiplicity}
      (hrole : m.roleOf x p = .relationEnd r side) (hk : p.multiplicity = .ok k)
      (hcounted : (k.isCustom || m.isDerivedMaterial r) = true)

/-- A count is stated by a property about its own accessor. -/
theorem Emits.exists_isCounted {n : Names} {t : Task} {requests : List Request} {domain : Extent}
    {w : String} {b : Bounds}
    (h : m.Emits n t requests (.fact (.multiplicity (.accessed domain w) b))) :
    ∃ x p, t = .property x p ∧ m.IsCounted x p ∧ w = n.alias p.id ∧
      ∃ other, .aliasLike p.id other ∈ requests := by
  cases h with
  | @attributeCount c p v k _ hmem hp hrole hk hb =>
    refine ⟨.ofClass c, p, rfl, ?_, rfl, p.id, ?_⟩
    · -- a plain attribute is counted if no keyword has its range
      unfold Multiplicity.customFact at hb
      split at hb
      · next hcustom => exact .plainAttribute hrole hk hcustom
      · cases hb
    · -- its alias has been requested for the accessor
      simp only [Property.attributeRequests, List.mem_append, List.mem_cons, true_or, or_true]
  | @endCount r p e side k _ hr hp hrole hk hb =>
    refine ⟨.ofRelation r, p, rfl, ?_, ?_, (EndView.ofEnds r p side e).named, ?_⟩
    · unfold EndView.multiplicityFact at hb
      split at hb
      · next hcounted =>
        rw [relation_ofEnds] at hcounted
        exact .relationEnd hrole hk hcounted
      · cases hb
    · rw [property_ofEnds]
    · rw [EndView.requests, property_ofEnds]
      simp only [List.mem_append, List.mem_cons, true_or, or_true]

/-- Where a range gets lost, nothing is counted. -/
theorem not_isCounted_of_loses {x : Classifier} {p : Property} {k : Multiplicity}
    (hk : p.multiplicity = .ok k) (hloses : m.Loses x p k) : ¬ m.IsCounted x p := by
  -- counted are plain attributes and ends, so only a lost keyword of an end could be
  rintro (⟨hrole', hk', hcustom⟩ | ⟨hrole', hk', hcounted⟩)
  · cases hloses with
    | sequence hrole =>
      rw [hrole] at hrole'
      cases hrole'
    | keyword hrole =>
      rw [hrole] at hrole'
      cases hrole'
  · cases hloses with
    | sequence hrole =>
      rw [hrole] at hrole'
      cases hrole'
    | keyword hrole hderived hq =>
      rw [hrole] at hrole'
      obtain ⟨rfl, rfl⟩ := PropertyRole.relationEnd.inj hrole'
      obtain rfl := Except.ok.inj (hk.symm.trans hk')
      -- the range has a keyword, and the relation is not derived
      rw [hderived, Bool.or_false] at hcounted
      exact Multiplicity.isCustom_iff.mp hcounted _ hq

section

variable {s : Sections} (hid : m.ids.Nodup) (h : m.encoding = .ok s)
include hid h

/-! ## Counts -/

/-- If there is a count of what an accessor gives, its property is counted. -/
theorem isCounted_of_mem_facts {x : Classifier} {p : Property} (hp : (x, p) ∈ m.properties)
    {other : ElementId} (hq : .aliasLike p.id other ∈ m.requests) {domain : Extent} {b : Bounds}
    (hb : .multiplicity (.accessed domain (m.names.alias p.id)) b ∈ s.facts) : m.IsCounted x p := by
  obtain ⟨rfl, hok⟩ := encoding_ok hid h
  obtain ⟨t, ht, requests, hrequests, hemits⟩ :=
    exists_emits_of_mem_fragments hok (mem_facts_iff.mp hb)
  obtain ⟨y, q, rfl, hcounted, hname, other', hother⟩ := hemits.exists_isCounted
  -- different properties have been given different aliases
  have hkey : Key.byname p.id = Key.byname q.id := of_injective hq (hrequests hother) hname
  have hsame : (x, p) = (y, q) :=
    eq_of_mem_properties hid hp (isOf_of_mem_tasks ht) (Key.byname.inj hkey)
  obtain ⟨rfl, rfl⟩ := Prod.mk.inj hsame
  exact hcounted

/-- A property that has its accessor counted, within the range of its cardinality. -/
theorem enforces_of_count {x : Classifier} {p : Property} {k : Multiplicity}
    (hp : (x, p) ∈ m.properties) {a : Accessor} {b : Bounds}
    (ha : .accessor a ∈ (m.propertyStep x p).fragments m.names)
    (hb : .fact (.multiplicity (.accessed a.domain.atHand a.name) b) ∈
      (m.propertyStep x p).fragments m.names) (hrange : b.range = k) : m.Enforces s x p k := by
  -- the accessor reads for the property, and both it and the fact are in the module
  have ht := mem_tasks_of_mem_properties hp
  obtain ⟨requests, hrequests, hemits⟩ := exists_emits (encoding_ok hid h).2 ht ha
  obtain ⟨y, q, heq, hreads⟩ := hemits.reads hid h hrequests
  obtain ⟨rfl, rfl⟩ := Task.property.inj heq
  obtain ⟨rfl, hok⟩ := encoding_ok hid h
  have hmem : ∀ {f : Fragment}, f ∈ (m.propertyStep x p).fragments m.names → f ∈ m.fragments :=
    fun hf => mem_fragments_iff.mpr ⟨_, ht, hf⟩
  exact .count (mem_accessors_iff.mpr (hmem ha)) hreads (mem_facts_iff.mpr (hmem hb)) hrange

/-! ## Keywords -/

/-- The field of a relation without a founder and without an order has the keywords of both ends. -/
theorem FieldRelation.exists_binary {r : Relation} {e : Ends} (hr : m.FieldRelation r e)
    (hderived : m.isDerivedMaterial r = false) (hordered : r.hasOrderedEnd = false) :
    ∃ atSource atTarget, e.sourceEnd.multiplicity = .ok atSource ∧
      e.targetEnd.multiplicity = .ok atTarget ∧
      ⟨r.fieldName m.names, .binary (m.names.own e.source.id) atSource.quantifier
        atTarget.quantifier (m.names.own e.target.id)⟩ ∈ s.worldFields := by
  rw [isDerivedMaterial_eq] at hderived
  rcases fieldStep_cases (hr.failure_fieldStep hid h) with ⟨founder, hfounder, -⟩ |
    ⟨-, hyes, -⟩ | ⟨hfounder, -, k, k', hk, hk', -⟩
  · -- with a founder the relation would be derived
    rw [hfounder] at hderived
    cases hderived
  · -- an order has been excluded
    rw [hordered] at hyes
    cases hyes
  · -- the keywords are those of the two ranges
    refine ⟨k, k', hk, hk', ?_⟩
    rw [r.fieldName_eq]
    refine mem_worldFields_of_declaresField hid h (.binary hr hfounder hordered ?_ ?_)
    · rw [hk]
      rfl
    · rw [hk']
      rfl

/-- A keyword at an end stands in a field without an order, in the column of this end. -/
theorem FieldRelation.of_carries {r : Relation} {e : Ends} (hr : m.FieldRelation r e) {p : Property}
    {f : WorldField} {q : Quantifier} (hf : f ∈ s.worldFields)
    (hcarries : m.Carries (.ofRelation r) p f q) :
    r.hasOrderedEnd = false ∧ (r.sourceEnd = some p ∨ r.targetEnd = some p) := by
  have hordered : ∀ {source target : String} {atSource atTarget : Quantifier},
      ⟨r.fieldName m.names, .binary source atSource atTarget target⟩ ∈ s.worldFields →
      r.hasOrderedEnd = false := by
    -- a field of another shape has no keywords at all
    intro source target atSource atTarget hfield
    have hdeclares := declaresField_of_name hid h hfield hr.fieldRequest_mem (r.fieldName_eq _)
    obtain ⟨e', -, ⟨founder, -, hshape⟩ | ⟨-, -, hshape⟩ | ⟨-, hordered, -⟩⟩ :=
      hdeclares.of_relation hid hr.mem r.id_fieldRequest_key
    · cases hshape
    · cases hshape
    · exact hordered
  cases hcarries with
  | sourceEnd hp => exact ⟨hordered hf, Or.inl hp⟩
  | targetEnd hp => exact ⟨hordered hf, Or.inr hp⟩

/-! ## The range of a property -/

/-- In a run that succeeds, the step of a property is one of the turns. -/
theorem turn_of_mem_properties {x : Classifier} {p : Property} (hp : (x, p) ∈ m.properties) :
    m.Turn x p (m.propertyStep x p) :=
  turn_propertyStep ((encoding_ok hid h).2 _ (mem_tasks_of_mem_properties hp))

/-- The field of an attribute has the keyword of its range, and a fact states the ranges without
one. -/
theorem enforces_plainAttribute {c : Class} {p : Property} {v : ValueSignature} {k : Multiplicity}
    (hp : (.ofClass c, p) ∈ m.properties) (hattribute : m.FieldAttribute c p v)
    (hrole : m.roleOf (.ofClass c) p = .plainAttribute c) (hk : p.multiplicity = .ok k)
    (hstep : (m.propertyStep (.ofClass c) p).fragments m.names = p.plainFragments c v k m.names)
    {b : Bounds} (hb : Bounds.of? k = some b) (hrange : b.range = k) :
    m.Enforces s (.ofClass c) p k := by
  cases hcustom : k.isCustom with
  -- the keyword stands at the values of the field
  | false =>
    have hdeclares :=
      mem_worldFields_of_declaresField hid h (.plainAttribute hp hattribute hrole hk)
    exact .keyword hdeclares .values (Multiplicity.range_quantifier hcustom)
  | true =>
    -- the step emits the accessor, and the fact that counts what it gives
    refine enforces_of_count hid h hp (a := ⟨m.names.alias p.id, .acrossWorlds (m.names.own c.id),
      .signature (v.name m.names), .image (.whole (m.names.own p.id))⟩) (b := b) ?_ ?_ hrange
    · rw [hstep]
      exact List.mem_cons_of_mem _ List.mem_cons_self
    · rw [hstep, Property.plainFragments, Multiplicity.customFact, if_pos hcustom]
      refine List.mem_append_left _ (List.mem_append_right _ ?_)
      exact Multiplicity.fact_mem_boundsFact hb

/-- The end of a relation leaves its range to the field if there is a keyword for it. The field has
the keyword, unless it has positions or the end is none of the first two. -/
theorem enforces_or_loses_end {r : Relation} {p : Property} {side : EndSide} {e : Ends}
    {k : Multiplicity} (hp : (.ofRelation r, p) ∈ m.properties) (hr : m.FieldRelation r e)
    (hrole : m.roleOf (.ofRelation r) p = .relationEnd r side) (hk : p.multiplicity = .ok k)
    (hstep : (m.propertyStep (.ofRelation r) p).fragments m.names =
      .accessor ((EndView.ofEnds r p side e).accessor m m.names)
        :: (EndView.ofEnds r p side e).immutability m.names
        ++ (EndView.ofEnds r p side e).multiplicityFact m k m.names)
    {b : Bounds} (hb : Bounds.of? k = some b) (hrange : b.range = k) :
    m.Enforces s (.ofRelation r) p k ∨ m.Loses (.ofRelation r) p k := by
  by_cases hcounted : (k.isCustom || m.isDerivedMaterial r) = true
  · -- without a keyword, or for want of a field that has one, the end states the fact itself
    left
    refine enforces_of_count hid h hp (a := (EndView.ofEnds r p side e).accessor m m.names)
      (b := b) ?_ ?_ hrange
    · rw [hstep]
      exact List.mem_cons_self
    · rw [hstep, EndView.multiplicityFact, relation_ofEnds, if_pos hcounted]
      refine List.mem_append_right _ ?_
      rw [EndView.accessor, Classifier.atHand_acrossWorlds]
      exact Multiplicity.fact_mem_boundsFact hb
  rw [Bool.not_eq_true, Bool.or_eq_false_iff] at hcounted
  obtain ⟨hcustom, hderived⟩ := hcounted
  have hkeyword := Multiplicity.range_quantifier hcustom
  cases hordered : r.hasOrderedEnd with
  | true => exact Or.inr (.keyword hrole hderived hkeyword (Or.inl hordered))
  | false =>
    obtain ⟨atSource, atTarget, hsource, htarget, hf⟩ := hr.exists_binary hid h hderived hordered
    obtain ⟨hsourceEnd, htargetEnd, -⟩ := endsOf_eq_ok_iff.mp hr.ends
    -- the field has a keyword for the source and one for the target
    by_cases hfirst : r.sourceEnd = some p
    · obtain rfl : e.sourceEnd = p := Option.some.inj (hsourceEnd.symm.trans hfirst)
      obtain rfl : atSource = k := Except.ok.inj (hsource.symm.trans hk)
      exact Or.inl (.keyword hf (.sourceEnd hfirst) hkeyword)
    by_cases hsecond : r.targetEnd = some p
    · obtain rfl : e.targetEnd = p := Option.some.inj (htargetEnd.symm.trans hsecond)
      obtain rfl : atTarget = k := Except.ok.inj (htarget.symm.trans hk)
      exact Or.inl (.keyword hf (.targetEnd hsecond) hkeyword)
    exact Or.inr (.keyword hrole hderived hkeyword (Or.inr ⟨hfirst, hsecond⟩))

/-- A range is stated unless it gets lost. -/
theorem enforces_or_loses {x : Classifier} {p : Property} (hp : (x, p) ∈ m.properties)
    (hrole : (m.roleOf x p).hasAccessor = true) {k : Multiplicity}
    (hk : p.multiplicity = .ok k) : m.Enforces s x p k ∨ m.Loses x p k := by
  by_cases hunbounded : k = ⟨0, none⟩
  · -- all counts are in the range, so nothing has to be stated
    exact Or.inl (.unbounded hunbounded)
  obtain ⟨b, hb, hrange⟩ := Multiplicity.exists_bounds hunbounded
  have hturn := turn_of_mem_properties hid h hp
  -- what is stated is decided by the role of the property
  generalize hstep : m.propertyStep x p = step at hturn
  cases hturn with
  | skipped hx =>
    rw [hx] at hrole
    cases hrole
  | datatypeAttribute hx =>
    rw [hx] at hrole
    cases hrole
  | orderedAttribute hx => exact Or.inr (.sequence hx)
  | @plainAttribute c v k' hx hv hk' =>
    obtain rfl : k = k' := Except.ok.inj (hk.symm.trans hk')
    obtain ⟨rfl, hfield, -⟩ := roleOf_plainAttribute hx
    have hattribute : m.FieldAttribute c p v := ⟨has_of_mem_properties hp, hfield, hv⟩
    exact Or.inl (enforces_plainAttribute hid h hp hattribute hx hk (by rw [hstep]) hb hrange)
  | @relationEnd r side e k' hx he hk' =>
    obtain rfl : k = k' := Except.ok.inj (hk.symm.trans hk')
    obtain ⟨rfl, hfield, -⟩ := roleOf_relationEnd hx
    have hr : m.FieldRelation r e := ⟨has_of_mem_properties hp, hfield, he⟩
    exact enforces_or_loses_end hid h hp hr hx hk (by rw [hstep]) hb hrange

/-- A property with an accessor has requested its alias. -/
theorem exists_aliasLike_mem_requests {x : Classifier} {p : Property}
    (hp : (x, p) ∈ m.properties) (hrole : (m.roleOf x p).hasAccessor = true) :
    ∃ other, .aliasLike p.id other ∈ m.requests := by
  suffices hown : ∃ other, .aliasLike p.id other ∈ (m.propertyStep x p).requests by
    obtain ⟨other, hother⟩ := hown
    exact ⟨other, mem_requests_iff.mpr ⟨_, mem_tasks_of_mem_properties hp, hother⟩⟩
  have hturn := turn_of_mem_properties hid h hp
  generalize m.propertyStep x p = step at hturn
  cases hturn with
  | skipped hx =>
    rw [hx] at hrole
    cases hrole
  | datatypeAttribute hx =>
    rw [hx] at hrole
    cases hrole
  | orderedAttribute => exact ⟨p.id, by simp⟩
  | plainAttribute => exact ⟨p.id, by simp⟩
  | @relationEnd r side e =>
    refine ⟨(EndView.ofEnds r p side e).named, ?_⟩
    simp only [EndView.requests, property_ofEnds, List.mem_append, List.mem_cons, true_or, or_true]

/-- Nor is there a keyword at the column of the property. -/
theorem not_carries_of_loses {x : Classifier} {p : Property} (hp : (x, p) ∈ m.properties)
    {k : Multiplicity} (hloses : m.Loses x p k) {f : WorldField} (hf : f ∈ s.worldFields)
    (q : Quantifier) : ¬ m.Carries x p f q := by
  intro hcarries
  cases hloses with
  | @sequence c hrole =>
    obtain ⟨rfl, -⟩ := roleOf_orderedAttribute hrole
    cases hcarries with
    | values =>
      have hrequest : p.label.request ∈ m.requests := by
        refine mem_requests_iff.mpr ⟨_, mem_tasks_of_mem_properties hp, ?_⟩
        rw [stepOf, propertyStep, hrole]
        exact List.mem_cons_self
      have hdeclares := declaresField_of_name hid h hf hrequest rfl
      obtain ⟨c', v, -, -, ⟨-, hshape⟩ | ⟨bounds, hplain, -⟩⟩ := hdeclares.of_attribute hid hp rfl
      · -- the field of an ordered attribute has positions
        cases hshape
      · rw [hrole] at hplain
        cases hplain
  | @keyword r side q' hrole hderived hq hcolumn =>
    obtain ⟨rfl, hfield, -⟩ := roleOf_relationEnd hrole
    obtain ⟨e, he⟩ := exists_endsOf hid h (has_of_mem_properties hp)
    have hr : m.FieldRelation r e := ⟨has_of_mem_properties hp, hfield, he⟩
    obtain ⟨hordered, hend⟩ := hr.of_carries hid h hf hcarries
    -- the field has no keywords, or none at this property
    rcases hcolumn with hyes | ⟨hfirst, hsecond⟩
    · rw [hordered] at hyes
      cases hyes
    · exact hend.elim hfirst hsecond

/-- What gets lost is stated in no way. -/
theorem not_enforces_of_loses {x : Classifier} {p : Property} (hp : (x, p) ∈ m.properties)
    (hrole : (m.roleOf x p).hasAccessor = true) {k : Multiplicity} (hk : p.multiplicity = .ok k)
    (hbounded : k ≠ ⟨0, none⟩) (hloses : m.Loses x p k) : ¬ m.Enforces s x p k := by
  intro henforces
  cases henforces with
  | unbounded hunbounded => exact hbounded hunbounded
  | keyword hf hcarries => exact not_carries_of_loses hid h hp hloses hf _ hcarries
  | @count a b ha hreads hb =>
    rw [hreads.name_eq] at hb
    obtain ⟨other, hother⟩ := exists_aliasLike_mem_requests hid h hp hrole
    exact not_isCounted_of_loses hk hloses (isCounted_of_mem_facts hid h hp hother hb)

end

/-- **Multiplicities.** In the module of a model with distinct ids, the range of a property that is
not skipped goes unstated exactly if it is not the one of all counts, and belongs to an ordered
attribute, or has a keyword that the field of its relation has no place for. -/
theorem unenforced_iff {s : Sections} (hid : m.ids.Nodup) (h : m.encoding = .ok s) {x : Classifier}
    {p : Property} (hp : (x, p) ∈ m.properties) (hrole : (m.roleOf x p).hasAccessor = true)
    {k : Multiplicity} (hk : Multiplicity.parse p.cardinality = some k) :
    ¬ m.Enforces s x p k ↔ k ≠ ⟨0, none⟩ ∧ m.Loses x p k := by
  have hread : p.multiplicity = .ok k := multiplicity_eq_ok_iff.mpr hk
  constructor
  · intro hnot
    refine ⟨fun hunbounded => hnot (.unbounded hunbounded), ?_⟩
    exact (enforces_or_loses hid h hp hrole hread).resolve_left hnot
  · rintro ⟨hbounded, hloses⟩
    exact not_enforces_of_loses hid h hp hrole hread hbounded hloses

/-- Persons have from two to five nicknames, in an order. -/
def nicknamed : Model where
  classes := [
    { id := ⟨"person"⟩, name := some "Person", stereotype := some .kind
      attributes := [
        { id := ⟨"nicknames"⟩, name := some "nicknames", type := some ⟨"text"⟩
          cardinality := "2..5", isOrdered := true }] },
    { id := ⟨"text"⟩, name := some "String", stereotype := some .datatype }]

/-- The attribute of the model is ordered, and its range has two bounds. -/
theorem nicknamed_property : nicknamed.ids.Nodup ∧ ∃ a ∈ nicknamed.properties, ∃ c,
    nicknamed.roleOf a.1 a.2 = .orderedAttribute c ∧
      Multiplicity.parse a.2.cardinality = some ⟨2, some 5⟩ :=
  ⟨by decide +kernel, _, List.mem_cons_self, _, rfl, by decide +kernel⟩

/-- The range of the nicknames is stated exactly if it does not get lost. -/
theorem nicknamed_unenforced_iff :
    nicknamed.ids.Nodup ∧ ∃ s, nicknamed.encoding = .ok s ∧ ∃ x p, (x, p) ∈ nicknamed.properties ∧
      (nicknamed.roleOf x p).hasAccessor = true ∧
      Multiplicity.parse p.cardinality = some ⟨2, some 5⟩ ∧
      (¬ nicknamed.Enforces s x p ⟨2, some 5⟩ ↔
        (⟨2, some 5⟩ : Multiplicity) ≠ ⟨0, none⟩ ∧ nicknamed.Loses x p ⟨2, some 5⟩) := by
  obtain ⟨hid, ⟨x, p⟩, hp, c, hrole, hk⟩ := nicknamed_property
  obtain ⟨s, hs⟩ := exists_encoding_of_isOk (m := nicknamed) (by decide +kernel)
  have haccessor : (nicknamed.roleOf x p).hasAccessor = true := by
    rw [hrole]
    rfl
  exact ⟨hid, s, hs, x, p, hp, haccessor, hk, unenforced_iff hid hs hp haccessor hk⟩

/-- So there are bounded ranges that a module states nowhere. -/
theorem not_forall_enforces :
    ¬ ∀ (m : Model) (s : Sections), m.ids.Nodup → m.encoding = .ok s →
      ∀ x p k, (x, p) ∈ m.properties → (m.roleOf x p).hasAccessor = true →
        Multiplicity.parse p.cardinality = some k → m.Enforces s x p k := by
  intro h
  obtain ⟨hid, ⟨x, p⟩, hp, c, hrole, hk⟩ := nicknamed_property
  obtain ⟨s, hs⟩ := exists_encoding_of_isOk (m := nicknamed) (by decide +kernel)
  have haccessor : (nicknamed.roleOf x p).hasAccessor = true := by
    rw [hrole]
    rfl
  have henforces := h nicknamed s hid hs x p _ hp haccessor hk
  exact not_enforces_of_loses hid hs hp haccessor (multiplicity_eq_ok_iff.mpr hk) (by decide)
    (.sequence hrole) henforces

end Model

end OntoWorlds
