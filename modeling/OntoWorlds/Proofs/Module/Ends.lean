import OntoWorlds.Proofs.Module.Multiplicities

/-!
# OntoWorlds — the ends of a relation

A relation may have more than two properties. Its field relates what types the first two, the first
one being the source and the second one the target. Which part a property takes is decided by its
id: the one with the id of the first is the source end, and every other one a target end. In a model
with distinct ids this is right for the first two. A further property is taken for a target end as
well; its accessor is the one of the second, under another name, and so gives instances of the wrong
type unless the two have the same.

* `isSourceEnd_iff` — the source end is the first property.
* `Reads.eq_of_name` — accessors of different properties have different names.
* `mem_accessors_end_iff` — a property that is an end has one accessor.
* `FieldRelation.givesOwnType_iff` — whether this accessor gives instances of the type of the
  property.
* `Model.PlaysItsPart` — what a property should be by its position; `playsItsPart_iff` — the first
  two are.
-/

namespace OntoWorlds

open Alloy

/-- Equal extents across worlds have equal names, with a world field or without. -/
theorem Classifier.eq_of_acrossWorlds {x y : Classifier} {w w' : String}
    (h : x.acrossWorlds w = y.acrossWorlds w') : w = w' := by
  unfold acrossWorlds at h
  split at h <;> split at h <;> cases h <;> rfl

/-- The column of a declared field that an accessor gives. -/
inductive Alloy.Accessor.Gives (a : Accessor) (s : Sections) : String → Prop
  | image {projection : Projection} {f : WorldField} {first last : String}
      (hbody : a.body = .image projection) (hf : f ∈ s.worldFields)
      (hcolumns : projection.Takes f first last) : Gives a s last
  | preimage {projection : Projection} {f : WorldField} {first last : String}
      (hbody : a.body = .preimage projection) (hf : f ∈ s.worldFields)
      (hcolumns : projection.Takes f first last) : Gives a s first

/-- The range of the accessor is the type of the property, and so is the column that it gives. -/
def Model.GivesOwnType (m : Model) (s : Sections) (p : Property) (a : Accessor) : Prop :=
  ∃ x, m.typeOf p = some x ∧ a.range = x.acrossWorlds (m.names.own x.id) ∧
    a.Gives s (m.names.own x.id)

/-- The property is the source end if it is the first one of the relation, the target end if it is
the second, and skipped otherwise. Its accessor gives instances of its own type. -/
structure Model.PlaysItsPart (m : Model) (s : Sections) (r : Relation) (p : Property) : Prop where
  source : m.roleOf (.ofRelation r) p = .relationEnd r .source ↔ r.ends[0]? = some p
  target : m.roleOf (.ofRelation r) p = .relationEnd r .target ↔ r.ends[1]? = some p
  further : r.ends[0]? ≠ some p → r.ends[1]? ≠ some p →
    ∃ reason, m.roleOf (.ofRelation r) p = .skipped reason
  ownType : ∀ a ∈ s.accessors, a.name = m.names.alias p.id → m.GivesOwnType s p a

namespace Model

variable {m : Model} {r : Relation} {p : Property}

/-! ## Positions -/

/-- With distinct ids, the source end is the first property of its relation. -/
theorem isSourceEnd_iff (hid : m.ids.Nodup) (hr : r ∈ m.relations) (hp : p ∈ r.ends) :
    r.isSourceEnd p = true ↔ r.ends[0]? = some p := by
  unfold Relation.isSourceEnd
  rw [Relation.sourceEnd, List.head?_eq_getElem?]
  cases hfirst : r.ends[0]? with
  | none => simp
  | some q =>
    have hq := mem_properties_of_mem_ends hr (List.mem_of_getElem? hfirst)
    rw [Option.some.injEq, beq_iff_eq]
    constructor
    · -- ids are distinct, so this is the first property itself
      intro hsame
      exact (Prod.mk.inj (eq_of_mem_properties hid hq (mem_properties_of_mem_ends hr hp) hsame)).2
    · exact congrArg Property.id

/-- No two positions hold the same property. -/
theorem second_ne_first (hid : m.ids.Nodup) (hr : r ∈ m.relations) (hsecond : r.ends[1]? = some p) :
    r.ends[0]? ≠ some p := by
  intro hfirst
  obtain ⟨hlength, -⟩ := List.getElem?_eq_some_iff.mp hfirst
  have hsame := (List.getElem?_inj hlength (nodup_ends hid hr)).mp (hfirst.trans hsecond.symm)
  cases hsame

/-- A property of a field relation is the source end if it is the first one, and a target end
otherwise. -/
theorem IsFieldRelation.roleOf_eq (hfield : m.IsFieldRelation r) (hid : m.ids.Nodup)
    (hr : r ∈ m.relations) (hp : p ∈ r.ends) :
    (m.roleOf (.ofRelation r) p = .relationEnd r .source ∧ r.ends[0]? = some p) ∨
      (m.roleOf (.ofRelation r) p = .relationEnd r .target ∧ r.ends[0]? ≠ some p) := by
  have hfirst := isSourceEnd_iff hid hr hp
  simp only [roleOf, endRole, hfield.notInline, hfield.notDerivation, hfield.represented,
    Bool.not_true, Bool.false_eq_true, if_false]
  split
  · next hsource => exact Or.inl ⟨rfl, hfirst.mp hsource⟩
  · next hsource => exact Or.inr ⟨rfl, fun h => hsource (hfirst.mpr h)⟩

/-! ## Accessors -/

section

variable {s : Sections} {x y : Classifier} {q : Property} {a b : Accessor}

variable (hid : m.ids.Nodup) (h : m.encoding = .ok s)
include hid h

/-- Accessors of different properties have different names. -/
theorem Reads.eq_of_name (hp : (x, p) ∈ m.properties) (hq : (y, q) ∈ m.properties)
    (ha : m.Reads s x p a) (hb : m.Reads s y q b) (hname : a.name = b.name) : (x, p) = (y, q) := by
  obtain ⟨_, hprequest⟩ := exists_aliasLike_mem_requests hid h hp ha.hasAccessor
  obtain ⟨_, hqrequest⟩ := exists_aliasLike_mem_requests hid h hq hb.hasAccessor
  rw [ha.name_eq, hb.name_eq] at hname
  have hkey : Key.byname p.id = Key.byname q.id := of_injective hprequest hqrequest hname
  exact eq_of_mem_properties hid hp hq (Key.byname.inj hkey)

/-- A property that is an end has one accessor, and it is the one of its side. -/
theorem mem_accessors_end_iff {e : Ends} (he : m.endsOf r = .ok e) {side : EndSide}
    (hp : (.ofRelation r, p) ∈ m.properties)
    (hrole : m.roleOf (.ofRelation r) p = .relationEnd r side) :
    a ∈ s.accessors ∧ a.name = m.names.alias p.id ↔
      a = (EndView.ofEnds r p side e).accessor m m.names := by
  have hsections := encoding_ok hid h
  have hmem : ∀ {a : Accessor}, a ∈ s.accessors ↔ .accessor a ∈ m.fragments := by
    rw [hsections.1]
    exact mem_accessors_iff
  -- the accessor of the end is emitted, and reads a field
  have hown : .accessor ((EndView.ofEnds r p side e).accessor m m.names) ∈
      (m.propertyStep (.ofRelation r) p).fragments m.names := by
    simp only [propertyStep, hrole, relationEndStep, he, Step.given_ok]
    exact List.mem_cons_self
  obtain ⟨requests, hrequests, hemits⟩ :=
    exists_emits hsections.2 (mem_tasks_of_mem_properties hp) hown
  obtain ⟨x, q, heq, hreads⟩ := hemits.reads hid h hrequests
  obtain ⟨rfl, rfl⟩ := Task.property.inj heq
  constructor
  · -- another accessor of this name would read for the same property, by its name
    rintro ⟨ha, hname⟩
    obtain ⟨t, ht, requests', hrequests', hemits'⟩ :=
      exists_emits_of_mem_fragments hsections.2 (hmem.mp ha)
    obtain ⟨y, o, rfl, hreads'⟩ := hemits'.reads hid h hrequests'
    have hsame := hreads'.eq_of_name hid h (isOf_of_mem_tasks ht) hp hreads
      (hname.trans hreads.name_eq.symm)
    obtain ⟨rfl, rfl⟩ := Prod.mk.inj hsame
    cases hemits' with
    | @endAccessor _ _ e' side' hr' _ hrole' =>
      rw [hrole] at hrole'
      obtain ⟨-, rfl⟩ := PropertyRole.relationEnd.inj hrole'
      obtain rfl := Except.ok.inj (he.symm.trans hr'.ends)
      rfl
  · -- the accessor of the end is in the module, by its task
    rintro rfl
    exact ⟨hmem.mpr (mem_fragments_iff.mpr ⟨_, mem_tasks_of_mem_properties hp, hown⟩),
      hreads.name_eq⟩

end

/-! ## Types -/

/-- The instances of an end's type are those of no other type. -/
theorem FieldRelation.acrossWorlds_eq_iff (hid : m.ids.Nodup) {e : Ends} (hr : m.FieldRelation r e)
    {x y : Classifier} (hx : m.Has x) (hy : y = e.source ∨ y = e.target) :
    y.acrossWorlds (m.names.own y.id) = x.acrossWorlds (m.names.own x.id) ↔ x = y := by
  -- the relation requests the names of both its ends
  have hrequested : y.label.request ∈ m.requests := by
    refine mem_requests_iff.mpr ⟨.relation r, mem_tasks_of_mem_relations hr.mem, ?_⟩
    rw [stepOf, hr.relationStep_eq]
    rcases hy with rfl | rfl
    · exact List.mem_cons_of_mem _ List.mem_cons_self
    · exact List.mem_cons_of_mem _ (List.mem_cons_of_mem _ List.mem_cons_self)
  -- both ends are elements of the model
  have hhas : m.Has y := by
    rcases hy with rfl | rfl
    · exact has_source_of_endsOf hr.ends
    · exact has_target_of_endsOf hr.ends
  constructor
  · -- the name of the end was requested for it, so no other element is called so
    intro hextent
    have hname : m.names.own x.id = m.names.own y.id :=
      (Classifier.eq_of_acrossWorlds hextent).symm
    have hkey : Key.own x.id = Key.own y.id := eq_key_of_mem_requests hrequested hname
    exact eq_of_has hid hx hhas (Key.own.inj hkey)
  · rintro rfl
    rfl

/-- The accessor of a property gives instances of its own type if it is the first one, or has the
type of the second. -/
theorem FieldRelation.givesOwnType_iff {s : Sections} (hid : m.ids.Nodup) (h : m.encoding = .ok s)
    {e : Ends} (hr : m.FieldRelation r e) (hp : p ∈ r.ends) {a : Accessor} (ha : a ∈ s.accessors)
    (hname : a.name = m.names.alias p.id) :
    m.GivesOwnType s p a ↔ r.ends[0]? = some p ∨ m.typeOf p = m.targetOf r := by
  have hmem := mem_properties_of_mem_ends hr.mem hp
  rcases hr.isField.roleOf_eq hid hr.mem hp with ⟨hrole, hfirst⟩ | ⟨hrole, hfirst⟩
  · -- the first property: its accessor gives the source, which is its own type
    obtain rfl := (mem_accessors_end_iff hid h hr.ends hmem hrole).mp ⟨ha, hname⟩
    obtain ⟨f, hf, -, hcolumns⟩ := hr.exists_takes hid h p .source
    obtain ⟨hsource, -, htype, -⟩ := endsOf_eq_ok_iff.mp hr.ends
    rw [Relation.sourceEnd, List.head?_eq_getElem?, hfirst, Option.some.injEq] at hsource
    refine iff_of_true ⟨e.source, ?_, rfl, .preimage rfl hf hcolumns⟩ (Or.inl hfirst)
    rw [hsource, htype]
  · -- every other property: its accessor gives the target, whatever its own type is
    obtain rfl := (mem_accessors_end_iff hid h hr.ends hmem hrole).mp ⟨ha, hname⟩
    obtain ⟨f, hf, -, hcolumns⟩ := hr.exists_takes hid h p .target
    rw [targetOf_of_endsOf hr.ends]
    constructor
    · rintro ⟨x, hx, hrange, -⟩
      rw [hx, ← (hr.acrossWorlds_eq_iff hid (has_of_typeOf hx) (Or.inr rfl)).mp hrange]
      exact Or.inr rfl
    · intro hor
      exact ⟨e.target, hor.resolve_left hfirst, rfl, .image rfl hf hcolumns⟩

/-! ## The part of a property -/

/-- **Ends.** In the module of a model with distinct ids, a property of a represented relation that
is no derivation has an accessor. It is the source end if it is the first property, and otherwise a
target end, whether it is the second one or not; so the part of its position is that of the first
two. The accessor of a property that is not the first gives instances of its own type exactly if
this is the type of the second. -/
theorem playsItsPart_iff {s : Sections} (hid : m.ids.Nodup) (h : m.encoding = .ok s)
    (hr : r ∈ m.relations) (hrepresented : m.isRepresented r = true)
    (hderivation : r.isDerivation = false) (hp : p ∈ r.ends) :
    (m.PlaysItsPart s r p ↔ r.ends[0]? = some p ∨ r.ends[1]? = some p) ∧
      (r.ends[0]? ≠ some p → m.roleOf (.ofRelation r) p = .relationEnd r .target) ∧
      (∃ a ∈ s.accessors, a.name = m.names.alias p.id) ∧
      ∀ a ∈ s.accessors, a.name = m.names.alias p.id →
        (m.GivesOwnType s p a ↔ r.ends[0]? = some p ∨ m.typeOf p = m.targetOf r) := by
  obtain ⟨e, he⟩ := exists_endsOf hid h hr
  have hfield := isFieldRelation_of_isRepresented hrepresented hderivation
  have hend : m.FieldRelation r e := ⟨hr, hfield, he⟩
  have hmem := mem_properties_of_mem_ends hr hp
  have hown : ∀ a ∈ s.accessors, a.name = m.names.alias p.id →
      (m.GivesOwnType s p a ↔ r.ends[0]? = some p ∨ m.typeOf p = m.targetOf r) :=
    fun a ha hname => hend.givesOwnType_iff hid h hp ha hname
  rcases hfield.roleOf_eq hid hr hp with ⟨hrole, hfirst⟩ | ⟨hrole, hfirst⟩
  · -- the first property is the source end, and not the second property as well
    have hsecond : r.ends[1]? ≠ some p := fun hsecond => second_ne_first hid hr hsecond hfirst
    refine ⟨iff_of_true ?_ (Or.inl hfirst), fun hne => absurd hfirst hne, ?_, hown⟩
    · exact {
        source := iff_of_true hrole hfirst
        target := iff_of_false (fun htarget => by cases hrole.symm.trans htarget) hsecond
        further := fun hne => absurd hfirst hne
        ownType := fun a ha hname => (hown a ha hname).mpr (Or.inl hfirst) }
    · exact ⟨_, (mem_accessors_end_iff hid h he hmem hrole).mpr rfl⟩
  · refine ⟨⟨fun hpart => ?_, fun hor => ?_⟩, fun _ => hrole, ?_, hown⟩
    · -- a further property would have been skipped
      by_contra hnot
      obtain ⟨reason, hskipped⟩ := hpart.further hfirst fun hsecond => hnot (Or.inr hsecond)
      rw [hrole] at hskipped
      cases hskipped
    · -- the second property is the target end, of the type of the target
      have hsecond := hor.resolve_left hfirst
      have htype : m.typeOf p = m.targetOf r := by
        rw [targetOf, Relation.targetEnd, hsecond, Option.bind_some]
      exact {
        source := iff_of_false (fun hsource => by cases hrole.symm.trans hsource) hfirst
        target := iff_of_true hrole hsecond
        further := fun _ hne => absurd hsecond hne
        ownType := fun a ha hname => (hown a ha hname).mpr (Or.inr htype) }
    · exact ⟨_, (mem_accessors_end_iff hid h he hmem hrole).mpr rfl⟩

/-- Persons hire persons for companies. -/
def staffing : Model where
  classes := [
    { id := ⟨"person"⟩, name := some "Person", stereotype := some .kind },
    { id := ⟨"company"⟩, name := some "Company", stereotype := some .kind }]
  relations := [
    { id := ⟨"hires"⟩, name := some "hires", stereotype := some .material
      ends := [
        { id := ⟨"hires source"⟩, type := some ⟨"person"⟩ },
        { id := ⟨"hires target"⟩, type := some ⟨"person"⟩ },
        { id := ⟨"hires third"⟩, type := some ⟨"company"⟩ }] }]

/-- The third end is the one of the company. -/
theorem staffing_third : staffing.ids.Nodup ∧ ∃ r ∈ staffing.relations,
    staffing.isRepresented r = true ∧ r.isDerivation = false ∧
      ∃ p ∈ r.ends, r.ends[0]? ≠ some p ∧ r.ends[1]? ≠ some p ∧
        staffing.roleOf (.ofRelation r) p = .relationEnd r .target :=
  ⟨by decide +kernel, _, List.mem_cons_self, by decide, by decide, _,
    List.mem_cons_of_mem _ (List.mem_cons_of_mem _ List.mem_cons_self), by decide, by decide,
    by decide⟩

/-- What the theorem says of the third end. -/
theorem staffing_playsItsPart_iff :
    staffing.ids.Nodup ∧ ∃ s, staffing.encoding = .ok s ∧ ∃ r ∈ staffing.relations,
      staffing.isRepresented r = true ∧ r.isDerivation = false ∧ ∃ p ∈ r.ends,
        (staffing.PlaysItsPart s r p ↔ r.ends[0]? = some p ∨ r.ends[1]? = some p) ∧
          (r.ends[0]? ≠ some p → staffing.roleOf (.ofRelation r) p = .relationEnd r .target) ∧
          (∃ a ∈ s.accessors, a.name = staffing.names.alias p.id) ∧
          ∀ a ∈ s.accessors, a.name = staffing.names.alias p.id →
            (staffing.GivesOwnType s p a ↔
              r.ends[0]? = some p ∨ staffing.typeOf p = staffing.targetOf r) := by
  obtain ⟨hid, r, hr, hrepresented, hderivation, p, hp, -⟩ := staffing_third
  obtain ⟨s, hs⟩ := exists_encoding_of_isOk (m := staffing) (by decide +kernel)
  exact ⟨hid, s, hs, r, hr, hrepresented, hderivation, p, hp,
    playsItsPart_iff hid hs hr hrepresented hderivation hp⟩

/-- So there are properties that are taken for an end of another type. -/
theorem not_forall_playsItsPart :
    ¬ ∀ (m : Model) (s : Sections), m.ids.Nodup → m.encoding = .ok s →
      ∀ r ∈ m.relations, m.isRepresented r = true → r.isDerivation = false →
        ∀ p ∈ r.ends, m.PlaysItsPart s r p := by
  intro h
  obtain ⟨hid, r, hr, hrepresented, hderivation, p, hp, hfirst, hsecond, hrole⟩ := staffing_third
  obtain ⟨s, hs⟩ := exists_encoding_of_isOk (m := staffing) (by decide +kernel)
  have hpart := h staffing s hid hs r hr hrepresented hderivation p hp
  obtain ⟨reason, hskipped⟩ := hpart.further hfirst hsecond
  rw [hrole] at hskipped
  cases hskipped

end Model

end OntoWorlds
