import OntoWorlds.Proofs.Module.Capture
import OntoWorlds.Proofs.Module.Columns

/-!
# OntoWorlds — the fields in derivations

A fact about a derivation says which triples of a source, a relator and a target are in the field of
the derived relation, by the fields of two mediations. This makes sense if the field of the relation
has these three columns and the fields of the mediations have two. The relation is whatever the
derivation starts from, though: it has these columns only if it is a material relation, has
counterparts at its ends, and is derived from this relator first of all. And a mediation with an
ordered end has a column of positions.

* `Sections.Fits` — the fields in a fact have the columns that the fact takes them to have.
* `Derivation`, `Model.HasDerivation` — a derivation with everything that is looked up for its fact.
* `Model.IsFitting` — the relation and the mediations have fields of the right columns.
* `derivation_fits_iff` — a fact about a derivation fits exactly if these conditions hold.
-/

namespace OntoWorlds

open Alloy

/-! ## Fitting facts -/

/-- The fields that a fact about a derivation refers to have the columns it takes them to have, and
the types that its variables range over are declared. -/
def Alloy.Sections.Fits (s : Sections) : Fact → Prop
  | .derivation source target relator material atSource atTarget =>
    s.HasColumns material [source.name, relator, target.name] ∧
      s.HasColumns atSource [relator, source.name] ∧ s.HasColumns atTarget [relator, target.name] ∧
      s.Resolves source.use ∧ s.Resolves target.use ∧ s.Resolves (.field relator)
  | .rigid .. | .antirigid .. | .generalization .. | .generalizationSet .. | .ordering ..
  | .functionalOrdering .. | .multiplicity .. => True

/-- A derivation, the relation that is derived, its relator, and the mediations at both ends. -/
structure Derivation where
  relation : Relation
  material : Relation
  relator : Class
  ends : Ends
  atSource : Relation
  atTarget : Relation
deriving DecidableEq, Repr

/-- The fact that states the derivation. -/
def Derivation.fact (d : Derivation) (n : Names) : Fact :=
  .derivation (d.ends.source.inWorld (n.own d.ends.source.id))
    (d.ends.target.inWorld (n.own d.ends.target.id)) (n.own d.relator.id) (d.material.fieldName n)
    (d.atSource.fieldName n) (d.atTarget.fieldName n)

/-- Everything is what a look-up in the model gives for the derivation. -/
structure Model.HasDerivation (m : Model) (d : Derivation) : Prop where
  mem : d.material ∈ m.relations
  relator : d.relator ∈ m.classes
  derives : m.Derives d.relation d.material d.relator
  ends : m.endsOf d.material = .ok d.ends
  atSource : m.findMediation d.relator.id d.ends.source.id = some d.atSource
  atTarget : m.findMediation d.relator.id d.ends.target.id = some d.atTarget

/-- The derived relation is a field that is founded by this relator, and the mediations are not
ordered. -/
structure Model.IsFitting (m : Model) (d : Derivation) : Prop where
  field : m.IsFieldRelation d.material
  founder : m.founderOf d.material = some (.ok (.ofClass d.relator))
  atSource : d.atSource.hasOrderedEnd = false
  atTarget : d.atTarget.hasOrderedEnd = false

/-- An extent in a world is named after the element. -/
theorem Classifier.name_inWorld (x : Classifier) (w : String) : (x.inWorld w).name = w := by
  unfold inWorld
  split <;> rfl

namespace Model

variable {m : Model}

/-! ## Mediations -/

theorem of_findMediation (hid : m.ids.Nodup) {a b : Classifier} (ha : m.Has a) (hb : m.Has b)
    {r : Relation} (h : m.findMediation a.id b.id = some r) :
    r ∈ m.relations ∧ r.isMediation = true ∧ m.sourceOf r = some a ∧ m.targetOf r = some b := by
  have hmatch := List.find?_some h
  rw [Bool.and_eq_true] at hmatch
  obtain ⟨hmediation, hends⟩ := hmatch
  refine ⟨List.mem_of_find?_eq_some h, hmediation, ?_⟩
  split at hends
  · next source target hsource htarget =>
    simp only [Bool.and_eq_true, beq_iff_eq] at hends
    -- the ids are those of the two elements, and ids are distinct
    have hsourceEq : source = a := eq_of_has hid (has_of_sourceOf hsource) ha hends.1
    have htargetEq : target = b := eq_of_has hid (has_of_targetOf htarget) hb hends.2
    rw [hsource, htarget, hsourceEq, htargetEq]
    exact ⟨rfl, rfl⟩
  · cases hends

/-- A mediation has no founder, since it is no material relation. -/
-- a mediation has another stereotype than a material relation
theorem founderOf_of_isMediation {r : Relation} (h : r.isMediation = true) :
    m.founderOf r = none := by
  have hstereotype : r.stereotype = some .mediation := beq_iff_eq.mp h
  have hderived : m.isDerivedMaterial r = false := by
    rw [isDerivedMaterial, Relation.isMaterial, hstereotype]
    rfl
  rw [isDerivedMaterial_eq] at hderived
  exact Option.isNone_iff_eq_none.mp (Option.isSome_eq_false_iff.mp hderived)

/-- The field of a mediation without an ordered end has two columns. -/
theorem relationColumns_of_isMediation {r : Relation} (h : r.isMediation = true)
    (hordered : r.hasOrderedEnd = false) (e : Ends) (n : Names) :
    m.relationColumns r e n = [n.own e.source.id, n.own e.target.id] := by
  rw [relationColumns, founderOf_of_isMediation h, hordered]
  rfl

section

variable {s : Sections} (hid : m.ids.Nodup) (h : m.encoding = .ok s)
include hid h

/-- A mediation between a relator and an element with a counterpart is a field. -/
theorem fieldRelation_of_findMediation {c : Class} (hc : c ∈ m.classes)
    (hfield : c.hasWorldField = true) {x : Classifier} (hx : m.HasCounterpart x) {r : Relation}
    (hr : m.findMediation c.id x.id = some r) :
    ∃ e, m.FieldRelation r e ∧ e.source = .ofClass c ∧ e.target = x := by
  have hclass : m.Has (.ofClass c) := hc
  have hhas : m.Has x := by
    obtain ⟨d, hd, rfl, -⟩ := hx
    exact hd
  obtain ⟨hmem, hmediation, hsource, htarget⟩ := of_findMediation hid hclass hhas hr
  -- mediations are no derivations, as a relation has one stereotype
  have hderivation : r.isDerivation = false := by
    have hstereotype : r.stereotype = some .mediation := beq_iff_eq.mp hmediation
    rw [Relation.isDerivation, hstereotype]
    rfl
  -- a class of relators and an element with a signature make a relation represented
  have hrepresented : m.isRepresented r = true := by
    obtain ⟨d, -, rfl, hsignature⟩ := hx
    rw [isRepresented, hsource, htarget]
    simp only [Class.hasSignature, Classifier.hasSignature, hfield, Bool.or_true, Bool.true_and,
      Bool.true_or, Bool.and_true]
    exact hsignature
  obtain ⟨e, he⟩ := exists_endsOf hid h hmem
  refine ⟨e, ⟨hmem, isFieldRelation_of_isRepresented hrepresented hderivation, he⟩, ?_, ?_⟩
  · exact Option.some.inj ((sourceOf_of_endsOf he).symm.trans hsource)
  · exact Option.some.inj ((targetOf_of_endsOf he).symm.trans htarget)

/-- The field of a mediation has two columns exactly if no end is ordered. -/
theorem hasColumns_mediation_iff {c : Class} (hc : c ∈ m.classes) (hfield : c.hasWorldField = true)
    {x : Classifier} (hx : m.HasCounterpart x) {r : Relation}
    (hr : m.findMediation c.id x.id = some r) (hq : r.fieldRequest ∈ m.requests) :
    s.HasColumns (r.fieldName m.names) [m.names.own c.id, m.names.own x.id] ↔
      r.hasOrderedEnd = false := by
  obtain ⟨e, hrelation, hsource, htarget⟩ := fieldRelation_of_findMediation hid h hc hfield hx hr
  have hmediation : r.isMediation = true := (Bool.and_eq_true _ _ ▸ List.find?_some hr).1
  rw [hasColumns_iff hid h hrelation.mem hq]
  constructor
  · rintro ⟨e', -, hcolumns⟩
    rw [Bool.eq_false_iff]
    intro hordered
    -- with positions there would be a third column
    rw [relationColumns, founderOf_of_isMediation hmediation] at hcolumns
    dsimp only at hcolumns
    rw [if_pos hordered] at hcolumns
    have hlength := congrArg List.length hcolumns
    cases hlength
  · -- without positions the columns are those of the two ends, as found by the look-up
    intro hordered
    refine ⟨e, hrelation, ?_⟩
    rw [relationColumns_of_isMediation hmediation hordered, hsource, htarget]
    rfl

/-! ## Derived relations -/

/-- The field of the derived relation has the relators in the middle exactly if this derivation
founds it. -/
theorem hasColumns_material_iff {d : Derivation} (hd : m.HasDerivation d)
    (hmaterial : d.material.fieldRequest ∈ m.requests)
    (hrelator : d.relator.label.request ∈ m.requests) :
    s.HasColumns (d.material.fieldName m.names)
        [m.names.own d.ends.source.id, m.names.own d.relator.id, m.names.own d.ends.target.id] ↔
      m.IsFieldRelation d.material ∧ m.founderOf d.material = some (.ok (.ofClass d.relator)) := by
  rw [hasColumns_iff hid h hd.mem hmaterial]
  constructor
  · rintro ⟨e, hr, hcolumns⟩
    obtain rfl : e = d.ends := Except.ok.inj (hr.ends.symm.trans hd.ends)
    refine ⟨hr.isField, ?_⟩
    unfold relationColumns at hcolumns
    split at hcolumns
    · next founder hfounder =>
      simp only [List.cons.injEq, true_and, and_true] at hcolumns
      -- what founds the relation is called like the relator, so it is the relator
      have hkey : Key.own d.relator.id = .own founder.id :=
        of_injective hrelator (hr.founderRequest_mem hfounder) hcolumns
      have hclass : m.Has (.ofClass d.relator) := hd.relator
      have heq : Classifier.ofClass d.relator = founder :=
        eq_of_has hid hclass (has_of_founderOf hfounder) (Key.own.inj hkey)
      rw [hfounder, heq]
    -- otherwise the field has positions in the middle, or two columns only
    all_goals
      split at hcolumns
      · -- the relator is not called like the positions
        simp only [List.cons.injEq, true_and, and_true] at hcolumns
        exact absurd hcolumns (of_key_ne_int hrelator)
      · -- two columns are not three
        have hlength := congrArg List.length hcolumns
        cases hlength
  · rintro ⟨hfield, hfounder⟩
    refine ⟨d.ends, ⟨hd.mem, hfield, hd.ends⟩, ?_⟩
    rw [relationColumns, hfounder]
    rfl

/-- The fact fits exactly if the derivation is a fitting one, as all names in it have been
requested. -/
theorem fits_iff {d : Derivation} (hd : m.HasDerivation d)
    (hmaterial : d.material.fieldRequest ∈ m.requests)
    (hatSource : d.atSource.fieldRequest ∈ m.requests)
    (hatTarget : d.atTarget.fieldRequest ∈ m.requests)
    (hrelator : d.relator.label.request ∈ m.requests) :
    s.Fits (d.fact m.names) ↔ m.IsFitting d := by
  have hworld : d.relator.hasWorldField = true := hd.derives.worldField
  have hcolumns := hasColumns_material_iff hid h hd hmaterial hrelator
  simp only [Derivation.fact, Sections.Fits, Classifier.name_inWorld]
  constructor
  · rintro ⟨hternary, hsource, htarget, -⟩
    obtain ⟨hfield, hfounder⟩ := hcolumns.mp hternary
    -- now the ends have counterparts, so the mediations are fields
    have hr : m.FieldRelation d.material d.ends := ⟨hd.mem, hfield, hd.ends⟩
    obtain ⟨hx, hy⟩ := hr.hasCounterpart
    refine ⟨hfield, hfounder, ?_, ?_⟩
    · exact (hasColumns_mediation_iff hid h hd.relator hworld hx hd.atSource hatSource).mp hsource
    · exact (hasColumns_mediation_iff hid h hd.relator hworld hy hd.atTarget hatTarget).mp htarget
  · -- the columns of the three fields, and then what the variables range over
    rintro ⟨hfield, hfounder, hsource, htarget⟩
    have hr : m.FieldRelation d.material d.ends := ⟨hd.mem, hfield, hd.ends⟩
    obtain ⟨hx, hy⟩ := hr.hasCounterpart
    obtain ⟨base, hbase⟩ := Option.isSome_iff_exists.mp hworld
    refine ⟨hcolumns.mpr ⟨hfield, hfounder⟩, ?_, ?_, ?_, ?_, ?_⟩
    · exact (hasColumns_mediation_iff hid h hd.relator hworld hx hd.atSource hatSource).mpr hsource
    · exact (hasColumns_mediation_iff hid h hd.relator hworld hy hd.atTarget hatTarget).mpr htarget
    · exact resolves_inWorld hid h hx
    · exact resolves_inWorld hid h hy
    · exact resolves_extension hid h hd.relator hbase

end

/-- **Derivations.** In the module of a model with distinct ids, a fact about a derivation fits the
fields it refers to exactly if the relation is a field that is founded by this very relator, and
neither of the mediations is ordered. -/
theorem derivation_fits_iff {s : Sections} (hid : m.ids.Nodup) (h : m.encoding = .ok s)
    {source target : Extent} {relator material atSource atTarget : String}
    (hf : .derivation source target relator material atSource atTarget ∈ s.facts) :
    ∃ d, m.HasDerivation d ∧
      .derivation source target relator material atSource atTarget = d.fact m.names ∧
      (s.Fits (.derivation source target relator material atSource atTarget) ↔ m.IsFitting d) := by
  obtain ⟨rfl, hok⟩ := encoding_ok hid h
  obtain ⟨t, -, requests, hrequests, hemits⟩ :=
    exists_emits_of_mem_fragments hok (mem_facts_iff.mp hf)
  cases hemits with
  | @derivation d r a b c e hmem hends hrelator hderives ha hb =>
    have hd : m.HasDerivation ⟨d, r, c, e, a, b⟩ := ⟨hmem, hrelator, hderives, hends, ha, hb⟩
    -- all names in the fact have been requested for it
    simp only [List.cons_subset] at hrequests
    obtain ⟨hmaterial, hatSource, hatTarget, hrequest, -⟩ := hrequests
    exact ⟨_, hd, rfl, fits_iff hid h hd hmaterial hatSource hatTarget hrequest⟩

/-- The evaluation of the model about lending: it has a fact about its derivation. -/
theorem lending_facts : lending.encoding.toOption.map (fun s =>
    decide (.derivation (.inWorld "Person") (.inWorld "Book") "Loan" "borrows" "relation" "covers"
      ∈ s.facts)) = some true := by
  decide +kernel

/-- Borrowing is derived from loans, by the mediations of persons and of books. -/
theorem lending_derivation_fits_iff :
    lending.ids.Nodup ∧ ∃ s, lending.encoding = .ok s ∧
      .derivation (.inWorld "Person") (.inWorld "Book") "Loan" "borrows" "relation" "covers"
        ∈ s.facts ∧
      ∃ d, lending.HasDerivation d ∧
        .derivation (.inWorld "Person") (.inWorld "Book") "Loan" "borrows" "relation" "covers"
          = d.fact lending.names ∧
        (s.Fits (.derivation (.inWorld "Person") (.inWorld "Book") "Loan" "borrows" "relation"
          "covers") ↔ lending.IsFitting d) := by
  have hid : lending.ids.Nodup := by decide +kernel
  have hfacts := lending_facts
  obtain ⟨s, hs⟩ := exists_encoding_of_isOk (m := lending) (by decide +kernel)
  rw [hs] at hfacts
  have hmem := of_decide_eq_true (Option.some.inj hfacts)
  exact ⟨hid, s, hs, hmem, derivation_fits_iff hid hs hmem⟩

/-- Persons know each other from meetings, by a relation without a stereotype. -/
def encounters : Model where
  classes := [
    { id := ⟨"person"⟩, name := some "Person", stereotype := some .kind },
    { id := ⟨"meeting"⟩, name := some "Meeting", stereotype := some .relator }]
  relations := [
    { id := ⟨"involves"⟩, name := some "involves", stereotype := some .mediation
      ends := [
        { id := ⟨"involves source"⟩, type := some ⟨"meeting"⟩ },
        { id := ⟨"involves target"⟩, type := some ⟨"person"⟩ }] },
    { id := ⟨"knows"⟩, name := some "knows"
      ends := [
        { id := ⟨"knows source"⟩, type := some ⟨"person"⟩ },
        { id := ⟨"knows target"⟩, type := some ⟨"person"⟩ }] },
    { id := ⟨"founds"⟩, stereotype := some .derivation
      ends := [
        { id := ⟨"founds source"⟩, type := some ⟨"knows"⟩ },
        { id := ⟨"founds target"⟩, type := some ⟨"meeting"⟩ }] }]

/-- The evaluation of the model: the fact about the derivation is there, and the field it is about
has not the columns. -/
theorem encounters_facts : encounters.encoding.toOption.map (fun s =>
    decide (.derivation (.inWorld "Person") (.inWorld "Person") "Meeting" "knows" "involves"
      "involves" ∈ s.facts) &&
    decide (¬ s.HasColumns "knows" ["Person", "Meeting", "Person"])) = some true := by
  decide +kernel

/-- So there are facts about triples in fields that have two columns. -/
theorem not_forall_fits :
    ¬ ∀ (m : Model) (s : Sections), m.ids.Nodup → m.encoding = .ok s → ∀ f ∈ s.facts, s.Fits f := by
  intro h
  have hfacts := encounters_facts
  obtain ⟨s, hs⟩ := exists_encoding_of_isOk (m := encounters) (by decide +kernel)
  rw [hs] at hfacts
  obtain ⟨hfact, hnot⟩ := Bool.and_eq_true _ _ ▸ Option.some.inj hfacts
  have hfits := h encounters s (by decide +kernel) hs _ (of_decide_eq_true hfact)
  exact of_decide_eq_true hnot hfits.1

end Model

end OntoWorlds
