import OntoWorlds.Proofs.Multiplicity.Meaning

/-!
# OntoWorlds — contradictory multiplicities

The bounds of a range are read one by one and never compared, so the upper bound of an expression
may be below the lower one. Such a range has no keyword; wherever it stands, the module states both
bounds of one count, and no number of values satisfies them.

* `Model.multiplicity_mem_facts_iff` — the facts about multiplicities that a module has.
* `Multiplicity.Reversed` — an expression with the upper bound below the lower one.
* `Model.contradictory_iff_reversed` — exactly these expressions allow no count, and the facts that
  no count satisfies are those of the properties with such an expression.
-/

namespace OntoWorlds

open Alloy

/-! ## What a fact counts -/

namespace Alloy

/-- The instances that the values are counted for. -/
def Counted.scope : Counted → String
  | inline datatype _ => "all x: " ++ datatype
  | accessed domain _ => "all w: World, x: " ++ domain.text

/-- The term whose value is the count. -/
def Counted.term : Counted → String
  | inline _ field => "#x." ++ field
  | accessed _ accessor => "#" ++ accessor ++ "[x,w]"

/-- The line of the fact constrains the count, and the constraint allows an instance with `n`
values. -/
def Fact.AllowsCount (f : Fact) (counted : Counted) (n : Nat) : Prop :=
  ∃ constraint, f.lines = [counted.scope ++ " | " ++ constraint] ∧
    ConstraintAllows counted.term constraint n

/-- A fact about a multiplicity is one line: whom the values are counted for, and the constraint. -/
theorem Fact.lines_multiplicity (counted : Counted) (b : Bounds) :
    (Fact.multiplicity counted b).lines = [counted.scope ++ " | " ++ b.text counted.term] := by
  cases counted <;> rfl

/-- The fact allows the counts in the range of its bounds. -/
theorem Fact.allowsCount_multiplicity_iff {counted : Counted} {b : Bounds} {n : Nat} :
    (Fact.multiplicity counted b).AllowsCount counted n ↔ b.range.Contains n := by
  have htext : ConstraintAllows counted.term (b.text counted.term) n ↔ b.range.Contains n :=
    Bounds.constraintAllows_text_iff
  rw [← htext]
  constructor
  · rintro ⟨constraint, hlines, hallows⟩
    -- the scope is a prefix of the line, so the constraint is what follows it
    rw [Fact.lines_multiplicity, List.singleton_inj, String.append_right_inj] at hlines
    rwa [hlines]
  · exact fun hallows => ⟨_, Fact.lines_multiplicity counted b, hallows⟩

end Alloy

/-- What a module counts for a property, if it counts anything: the values of an inline field, or
what the accessor gives. The values of a sequence are not counted. -/
inductive Model.CountsValues (m : Model) (n : Names) (x : Classifier) (p : Property) :
    Counted → Prop
  | datatypeAttribute {c : Class} (hrole : m.roleOf x p = .datatypeAttribute c) :
      CountsValues m n x p (.inline (n.own c.id) (n.own p.id))
  | plainAttribute {c : Class} (hrole : m.roleOf x p = .plainAttribute c) :
      CountsValues m n x p (.accessed (.inWorld (n.own c.id)) (n.alias p.id))
  | relationEnd {r : Relation} {side : EndSide} {e : Ends}
      (hrole : m.roleOf x p = .relationEnd r side) (he : m.endsOf r = .ok e) :
      CountsValues m n x p ((EndView.ofEnds r p side e).counted n)

/-- A fact has to state the range: no keyword means it, or the field carries none. -/
def Model.needsCount (m : Model) (x : Classifier) (k : Multiplicity) : Bool :=
  k.isCustom || match x with
    | .ofClass _ => false
    | .ofRelation r => m.isDerivedMaterial r

/-! ## The facts of the steps -/

/-- The bounds of a count are stated exactly as they were computed. -/
theorem Multiplicity.fact_mem_boundsFact_iff {k : Multiplicity} {counted : Counted} {b : Bounds} :
    .fact (.multiplicity counted b) ∈ k.boundsFact counted ↔ Bounds.of? k = some b := by
  refine ⟨fun h => ?_, Multiplicity.fact_mem_boundsFact⟩
  unfold Multiplicity.boundsFact at h
  split at h
  · next b' hb =>
    cases List.mem_singleton.mp h
    exact hb
  · cases h

/-- For an attribute they are stated if no keyword means them. -/
theorem Multiplicity.fact_mem_customFact_iff {k : Multiplicity} {counted : Counted} {b : Bounds} :
    .fact (.multiplicity counted b) ∈ k.customFact counted ↔
      k.isCustom = true ∧ Bounds.of? k = some b := by
  unfold Multiplicity.customFact
  split
  · next hcustom => simp only [fact_mem_boundsFact_iff, hcustom, true_and]
  · next hcustom => exact iff_of_false List.not_mem_nil fun h => hcustom h.1

/-- For an end they are stated for want of a keyword, or because the field of the relation has none.
-/
theorem EndView.fact_mem_multiplicityFact_iff {m : Model} {v : EndView} {k : Multiplicity}
    {n : Names} {b : Bounds} :
    .fact (.multiplicity (v.counted n) b) ∈ v.multiplicityFact m k n ↔
      (k.isCustom || m.isDerivedMaterial v.relation) = true ∧ Bounds.of? k = some b := by
  unfold EndView.multiplicityFact
  split
  · next hcounted => simp only [Multiplicity.fact_mem_boundsFact_iff, hcounted, true_and]
  · next hcounted => exact iff_of_false List.not_mem_nil fun h => hcounted h.1

namespace Model

variable {m : Model} {counted : Counted} {b : Bounds}

/-- A range without a keyword needs a fact, whoever has the property. -/
theorem needsCount_of_isCustom {x : Classifier} {k : Multiplicity} (h : k.isCustom = true) :
    m.needsCount x k = true := by
  unfold needsCount
  rw [h, Bool.true_or]

/-- A count is stated for a property, within the range of its expression. -/
theorem Emits.exists_countsValues {n : Names} {t : Task} {requests : List Request}
    (h : m.Emits n t requests (.fact (.multiplicity counted b))) :
    ∃ x p k, t = .property x p ∧ m.CountsValues n x p counted ∧ p.multiplicity = .ok k ∧
      m.needsCount x k = true ∧ Bounds.of? k = some b := by
  cases h with
  | @inlineCount c p v k _ hc hdatatype hv hk hb =>
    obtain ⟨hcustom, hbounds⟩ := Multiplicity.fact_mem_customFact_iff.mp hb
    have hrole : m.roleOf (.ofClass c) p = .datatypeAttribute c := if_pos hdatatype
    exact ⟨.ofClass c, p, k, rfl, .datatypeAttribute hrole, hk, needsCount_of_isCustom hcustom,
      hbounds⟩
  | @attributeCount c p v k _ hmem hp hrole hk hb =>
    obtain ⟨hcustom, hbounds⟩ := Multiplicity.fact_mem_customFact_iff.mp hb
    exact ⟨.ofClass c, p, k, rfl, .plainAttribute hrole, hk, needsCount_of_isCustom hcustom,
      hbounds⟩
  | @endCount r p e side k _ hr hp hrole hk hb =>
    obtain ⟨hcounted, hbounds⟩ := EndView.fact_mem_multiplicityFact_iff.mp hb
    rw [relation_ofEnds] at hcounted
    exact ⟨.ofRelation r, p, k, rfl, .relationEnd hrole hr.ends, hk, hcounted, hbounds⟩

/-- Also in a model with repeated ids, a count is stated within the range of some property. -/
theorem exists_property_of_mem_facts {s : Sections} (h : m.encoding = .ok s)
    (hfact : .multiplicity counted b ∈ s.facts) :
    ∃ x p k, (x, p) ∈ m.properties ∧ p.multiplicity = .ok k ∧ Bounds.of? k = some b := by
  -- the invariant of the run: if the fact has been emitted by now, there is such a property
  let Stated (u : Session) : Prop := .fact (.multiplicity counted b) ∈ u.emitted →
    ∃ x p k, (x, p) ∈ m.properties ∧ p.multiplicity = .ok k ∧ Bounds.of? k = some b
  have htake : ∀ t ∈ m.tasks, (m.stepOf t).failure = none →
      ∀ u : Session, Stated u → Stated (u.take (m.stepOf t)).1 := by
    intro t ht hok u hu hmem
    have htask := isOf_of_mem_tasks ht
    rcases List.mem_append.mp hmem with hold | hnew
    · exact hu hold
    · -- whatever identifiers have been given by then, the count is the one of a property
      have hemits := (takes_stepOf htask hok).emits htask hnew
      obtain ⟨x, p, k, rfl, -, hk, -, hb⟩ := hemits.exists_countsValues
      exact ⟨x, p, k, htask, hk, hb⟩
  -- nothing has been emitted at the start, and each task keeps the invariant
  have hend (hok : m.run.2 = none) : Stated m.run.1 :=
    Session.performAll_invariant_of_ok (P := Stated) (fun _ _ hu => hu) htake
      (fun hmem => absurd hmem List.not_mem_nil) hok
  unfold encoding at h
  split at h
  · next u hrun =>
    rw [hrun] at hend
    rw [← Except.ok.inj h] at hfact
    exact hend rfl (mem_facts_iff.mp hfact)
  · cases h

/-- The step of a property states the count that is needed. -/
theorem Turn.fact_mem_fragments {n : Names} {x : Classifier} {p : Property} {step : Step}
    (hturn : m.Turn x p step) (hcounts : m.CountsValues n x p counted) {k : Multiplicity}
    (hk : p.multiplicity = .ok k) (hneeds : m.needsCount x k = true)
    (hb : Bounds.of? k = some b) : .fact (.multiplicity counted b) ∈ step.fragments n := by
  -- the turn and the count are those of one role, which settles what the turn is
  cases hcounts with
  | @datatypeAttribute c hrole =>
    obtain ⟨rfl, -⟩ := roleOf_datatypeAttribute hrole
    have hcustom : k.isCustom = true := (Bool.or_false _).symm.trans hneeds
    cases hturn with
    | datatypeAttribute hrole' hv hk' =>
      obtain rfl := PropertyRole.datatypeAttribute.inj (hrole.symm.trans hrole')
      obtain rfl := Except.ok.inj (hk.symm.trans hk')
      exact List.mem_cons_of_mem _ (Multiplicity.fact_mem_customFact_iff.mpr ⟨hcustom, hb⟩)
    | _ hrole' => cases hrole.symm.trans hrole'
  | @plainAttribute c hrole =>
    obtain ⟨rfl, -⟩ := roleOf_plainAttribute hrole
    have hcustom : k.isCustom = true := (Bool.or_false _).symm.trans hneeds
    cases hturn with
    | plainAttribute hrole' hv hk' =>
      obtain rfl := PropertyRole.plainAttribute.inj (hrole.symm.trans hrole')
      obtain rfl := Except.ok.inj (hk.symm.trans hk')
      refine List.mem_append_left _ (List.mem_append_right _ ?_)
      exact Multiplicity.fact_mem_customFact_iff.mpr ⟨hcustom, hb⟩
    | _ hrole' => cases hrole.symm.trans hrole'
  | @relationEnd r side e hrole he =>
    obtain ⟨rfl, -⟩ := roleOf_relationEnd hrole
    cases hturn with
    | relationEnd hrole' he' hk' =>
      obtain ⟨rfl, rfl⟩ := PropertyRole.relationEnd.inj (hrole.symm.trans hrole')
      obtain rfl := Except.ok.inj (he.symm.trans he')
      obtain rfl := Except.ok.inj (hk.symm.trans hk')
      refine List.mem_append_right _ (EndView.fact_mem_multiplicityFact_iff.mpr ⟨?_, hb⟩)
      rw [relation_ofEnds]
      exact hneeds
    | _ hrole' => cases hrole.symm.trans hrole'

/-- The facts about multiplicities: one for each property that has values to be counted and a range
that needs a fact, with the bounds of this range. -/
theorem multiplicity_mem_facts_iff {s : Sections} (hid : m.ids.Nodup) (h : m.encoding = .ok s) :
    .multiplicity counted b ∈ s.facts ↔
      ∃ x p k, (x, p) ∈ m.properties ∧ m.CountsValues m.names x p counted ∧
        p.multiplicity = .ok k ∧ m.needsCount x k = true ∧ Bounds.of? k = some b := by
  obtain ⟨rfl, hok⟩ := encoding_ok hid h
  rw [mem_facts_iff]
  constructor
  · intro hfact
    obtain ⟨t, ht, requests, -, hemits⟩ := exists_emits_of_mem_fragments hok hfact
    obtain ⟨x, p, k, rfl, hcounts, hk, hneeds, hb⟩ := hemits.exists_countsValues
    exact ⟨x, p, k, isOf_of_mem_tasks ht, hcounts, hk, hneeds, hb⟩
  · rintro ⟨x, p, k, hp, hcounts, hk, hneeds, hb⟩
    have ht := mem_tasks_of_mem_properties hp
    exact mem_fragments_iff.mpr
      ⟨_, ht, (turn_propertyStep (hok _ ht)).fact_mem_fragments hcounts hk hneeds hb⟩

end Model

/-! ## Reversed ranges -/

namespace Multiplicity

variable {k : Multiplicity}

/-- The expression denotes a range with the upper bound below the lower one. -/
def Reversed (e : String) : Prop :=
  ∃ lower upper, Denotes e ⟨lower, some upper⟩ ∧ upper < lower

/-- A range contains some count exactly if its upper bound, if any, is not below the lower one. -/
theorem exists_contains_iff : (∃ n, k.Contains n) ↔ ∀ u ∈ k.upper, k.lower ≤ u := by
  constructor
  · rintro ⟨n, hlower, hupper⟩ u hu
    exact hlower.trans (hupper u hu)
  · exact fun hle => ⟨k.lower, Nat.le_refl _, hle⟩

/-- A lower bound that need not be stated is zero, and below every upper bound. -/
theorem forall_bounds_le_iff :
    (∀ lower ∈ k.lower?, ∀ upper ∈ k.upper?, lower ≤ upper) ↔ ∀ u ∈ k.upper, k.lower ≤ u := by
  unfold lower? upper?
  split
  · simp only [Option.mem_some_iff, forall_eq']
  · next hzero => exact iff_of_true nofun fun u _ => by omega

/-- A range without counts has both bounds, and they are the wrong way round. -/
theorem exists_of_forall_not_contains (h : ∀ n, ¬ k.Contains n) :
    ∃ lower upper, k = ⟨lower, some upper⟩ ∧ upper < lower := by
  obtain ⟨lower, upper⟩ := k
  have hnot := mt exists_contains_iff.mpr (not_exists.mpr h)
  push Not at hnot
  obtain ⟨u, hu, hlt⟩ := hnot
  obtain rfl : upper = some u := hu
  exact ⟨lower, u, rfl, hlt⟩

/-- A range with the upper bound below the lower one contains no count. -/
theorem not_contains_of_lt {lower upper : Nat} (h : upper < lower) (n : Nat) :
    ¬ (⟨lower, some upper⟩ : Multiplicity).Contains n := by
  rintro ⟨hlower, hupper⟩
  have hle := hupper upper rfl
  -- the count would be at least the lower bound, and at most the upper one
  simp only at hlower
  omega

/-- No keyword means such a range, and both of its bounds are stated. -/
theorem isCustom_of_lt {lower upper : Nat} (h : upper < lower) :
    (⟨lower, some upper⟩ : Multiplicity).isCustom = true ∧
      Bounds.of? ⟨lower, some upper⟩ = some (.between lower upper) := by
  constructor
  · rw [isCustom_iff]
    rintro q hq
    -- the counts of a keyword are not contradictory
    refine not_contains_of_lt h q.range.lower ?_
    rw [← hq]
    cases q <;> simp [Contains, Quantifier.range]
  · -- a lower bound above another number is positive, so it is stated
    have hpos : lower > 0 := by omega
    simp [Bounds.of?, lower?, upper?, hpos]

/-- The range of an expression that is read contains some count exactly if the expression is not
reversed. -/
theorem exists_contains_iff_not_reversed {e : String} (h : parse e = some k) :
    (∃ n, k.Contains n) ↔ ¬ Reversed e := by
  constructor
  · rintro ⟨n, hn⟩ ⟨lower, upper, hdenotes, hlt⟩
    obtain rfl := Option.some.inj (h.symm.trans (parse_eq_of_denotes hdenotes))
    exact not_contains_of_lt hlt n hn
  · intro hnot
    by_contra hnone
    obtain ⟨lower, upper, rfl, hlt⟩ := exists_of_forall_not_contains (not_exists.mp hnone)
    exact hnot ⟨lower, upper, denotes_of_parse_eq h, hlt⟩

end Multiplicity

namespace Model

/-- A fact that no count satisfies comes from a reversed range, and every reversed range whose
values are counted has one. -/
theorem contradictory_mem_facts_iff {m : Model} {s : Sections} (hid : m.ids.Nodup)
    (h : m.encoding = .ok s) {counted : Counted} {b : Bounds} :
    .multiplicity counted b ∈ s.facts ∧ (∀ n, ¬ b.range.Contains n) ↔
      ∃ x p lower upper, (x, p) ∈ m.properties ∧ m.CountsValues m.names x p counted ∧
        Multiplicity.Denotes p.cardinality ⟨lower, some upper⟩ ∧ upper < lower ∧
        b = .between lower upper := by
  rw [multiplicity_mem_facts_iff hid h]
  constructor
  · rintro ⟨⟨x, p, k, hp, hcounts, hk, -, hb⟩, hnone⟩
    -- the bounds of the fact are those of the expression, which contains no count either
    rw [Multiplicity.range_bounds hb] at hnone
    obtain ⟨lower, upper, rfl, hlt⟩ := Multiplicity.exists_of_forall_not_contains hnone
    have hbounds := (Multiplicity.isCustom_of_lt hlt).2
    refine ⟨x, p, lower, upper, hp, hcounts, ?_, hlt, Option.some.inj (hb.symm.trans hbounds)⟩
    exact Multiplicity.denotes_of_parse_eq (multiplicity_eq_ok_iff.mp hk)
  · -- a reversed expression has no keyword, so its bounds are stated
    rintro ⟨x, p, lower, upper, hp, hcounts, hdenotes, hlt, rfl⟩
    obtain ⟨hcustom, hbounds⟩ := Multiplicity.isCustom_of_lt hlt
    have hk := multiplicity_eq_ok_iff.mpr (Multiplicity.parse_eq_of_denotes hdenotes)
    exact ⟨⟨x, p, _, hp, hcounts, hk, needsCount_of_isCustom hcustom, hbounds⟩,
      Multiplicity.not_contains_of_lt hlt⟩

/-- In any model, such a fact needs a property with a reversed expression. -/
theorem exists_reversed_of_mem_facts {m : Model} {s : Sections} (h : m.encoding = .ok s)
    {counted : Counted} {b : Bounds} (hfact : .multiplicity counted b ∈ s.facts)
    (hnone : ∀ n, ¬ b.range.Contains n) :
    ∃ x p, (x, p) ∈ m.properties ∧ Multiplicity.Reversed p.cardinality := by
  obtain ⟨x, p, k, hp, hk, hb⟩ := exists_property_of_mem_facts h hfact
  rw [Multiplicity.range_bounds hb] at hnone
  have hread := multiplicity_eq_ok_iff.mp hk
  refine ⟨x, p, hp, ?_⟩
  by_contra hnot
  exact not_exists.mpr hnone ((Multiplicity.exists_contains_iff_not_reversed hread).mpr hnot)

/-- **Contradictory ranges.** The bounds of an expression that is read allow some count exactly if
the lower one is at most the upper one where both are stated, which is to say that the expression is
not reversed. A module has a fact that no instance satisfies, whatever the number of its values,
only if some property has a reversed expression. If the ids of the model are distinct, these facts
are those about the properties with a reversed expression, each of which has one if its values are
counted at all. -/
theorem contradictory_iff_reversed {e : String} {k : Multiplicity}
    (hread : Multiplicity.parse e = some k) :
    (∀ term : String,
      ((∃ n, ∀ constraint ∈ k.constraint? term, ConstraintAllows term constraint n) ↔
        ∀ lower ∈ k.lower?, ∀ upper ∈ k.upper?, lower ≤ upper) ∧
      ((∃ n, ∀ constraint ∈ k.constraint? term, ConstraintAllows term constraint n) ↔
        ¬ Multiplicity.Reversed e)) ∧
    ∀ (m : Model) (s : Sections), m.encoding = .ok s → ∀ (counted : Counted) (b : Bounds),
      (.multiplicity counted b ∈ s.facts →
        (∀ n, ¬ (Fact.multiplicity counted b).AllowsCount counted n) →
        ∃ x p, (x, p) ∈ m.properties ∧ Multiplicity.Reversed p.cardinality) ∧
      (m.ids.Nodup →
        (.multiplicity counted b ∈ s.facts ∧
            (∀ n, ¬ (Fact.multiplicity counted b).AllowsCount counted n) ↔
          ∃ x p lower upper, (x, p) ∈ m.properties ∧ m.CountsValues m.names x p counted ∧
            Multiplicity.Denotes p.cardinality ⟨lower, some upper⟩ ∧ upper < lower ∧
            b = .between lower upper)) := by
  refine ⟨fun term => ?_, fun m s h counted b => ?_⟩
  · -- the constraints of a count are those of the range, so both statements are about the range
    simp only [← Multiplicity.contains_iff_constraint]
    exact ⟨Multiplicity.exists_contains_iff.trans Multiplicity.forall_bounds_le_iff.symm,
      Multiplicity.exists_contains_iff_not_reversed hread⟩
  · simp only [Fact.allowsCount_multiplicity_iff]
    exact ⟨exists_reversed_of_mem_facts h, fun hid => contradictory_mem_facts_iff hid h⟩

/-- Persons have from five to two nicknames. -/
def misnamed : Model where
  classes := [
    { id := ⟨"person"⟩, name := some "Person", stereotype := some .kind
      attributes := [
        { id := ⟨"nicknames"⟩, name := some "nicknames", type := some ⟨"text"⟩
          cardinality := "5..2" }] },
    { id := ⟨"text"⟩, name := some "String", stereotype := some .datatype }]

/-- The expression is read, though its bounds are reversed. -/
theorem parse_fiveToTwo : Multiplicity.parse "5..2" = some ⟨5, some 2⟩ := by decide +kernel

/-- The module of the model can have no person. -/
theorem misnamed_contradictory_iff_reversed :
    misnamed.ids.Nodup ∧ ∃ s, misnamed.encoding = .ok s ∧
      Multiplicity.parse "5..2" = some ⟨5, some 2⟩ ∧
      (¬ ∃ n, ∀ constraint ∈ (⟨5, some 2⟩ : Multiplicity).constraint? "#x.nicknames",
        ConstraintAllows "#x.nicknames" constraint n) ∧
      ∃ counted, .multiplicity counted (.between 5 2) ∈ s.facts ∧
        ∀ n, ¬ (Fact.multiplicity counted (.between 5 2)).AllowsCount counted n := by
  have hid : misnamed.ids.Nodup := by decide +kernel
  obtain ⟨s, hs⟩ := exists_encoding_of_isOk (m := misnamed) (by decide +kernel)
  have hdenotes := Multiplicity.denotes_of_parse_eq parse_fiveToTwo
  obtain ⟨hallowed, hfacts⟩ := contradictory_iff_reversed parse_fiveToTwo
  have hnone := (hallowed "#x.nicknames").2
  -- the property is a plain attribute, whose values are counted
  have hproperty : ∃ a ∈ misnamed.properties, a.2.cardinality = "5..2" ∧
      ∃ c, misnamed.roleOf a.1 a.2 = .plainAttribute c := ⟨_, List.mem_cons_self, rfl, _, rfl⟩
  obtain ⟨⟨x, p⟩, hp, hcardinality, c, hrole⟩ := hproperty
  have hfact := ((hfacts misnamed s hs _ (.between 5 2)).2 hid).mpr
    ⟨x, p, 5, 2, hp, .plainAttribute hrole, hcardinality ▸ hdenotes, by decide, rfl⟩
  exact ⟨hid, s, hs, parse_fiveToTwo,
    fun hcount => hnone.mp hcount ⟨5, 2, hdenotes, by decide⟩, _, hfact⟩

/-- So there are expressions that are read and allow no count. -/
theorem not_forall_exists_allowed :
    ¬ ∀ (e : String) (k : Multiplicity), Multiplicity.parse e = some k → ∀ term : String,
      ∃ n, ∀ constraint ∈ k.constraint? term, ConstraintAllows term constraint n := by
  intro h
  obtain ⟨n, hn⟩ := h "5..2" _ parse_fiveToTwo "#x.nicknames"
  exact Multiplicity.not_contains_of_lt (by decide) n (Multiplicity.contains_iff_constraint.mpr hn)

end Model

end OntoWorlds
