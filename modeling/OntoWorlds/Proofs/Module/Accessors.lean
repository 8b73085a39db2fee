import OntoWorlds.Proofs.Module.Columns

/-!
# OntoWorlds — accessors and the fields they read

An accessor joins its argument with a column of a field and gives what stands in another column. The
field is declared by one step and read by another, and each of them decides for itself whether there
is a column in the middle. Both decisions come to the same, for attributes and for relations of any
kind: the accessor takes a field as it is if it has two columns, and its first and last one if it
has three.

* `Sections.extentOf` — the values that a column is named after.
* `Projection.Takes` — the two columns of a field that a projection takes.
* `Model.Reads` — the accessor of a property in its role, with the columns of the field it reads.
* `reads_accessors` — the accessors of a module are of this kind, and no property lacks its own.
-/

namespace OntoWorlds

open Alloy
open Identifier (declaredWords)

namespace Alloy

/-! ## Columns of accessors -/

/-- The values that a column is named after: the instances of a class in any world, or those of a
signature. -/
def Sections.extentOf (s : Sections) (w : String) : Extent :=
  if w ∈ s.extensions then .acrossWorlds w else .signature w

/-- The columns that a projection takes from a field: both of two, or the outer ones of three. -/
inductive Projection.Takes : Projection → WorldField → String → String → Prop
  | whole {f : WorldField} {first last : String} (h : f.shape.columns = [first, last]) :
      Takes (.whole f.name) f first last
  | outer {f : WorldField} {first middle last : String}
      (h : f.shape.columns = [first, middle, last]) : Takes (.outer f.name) f first last

end Alloy

/-- The accessor of a property in its role. Its domain and its range are those of the columns that
it joins its argument with and that it yields. -/
inductive Model.Reads (m : Model) (s : Sections) : Classifier → Property → Accessor → Prop
  /-- An attribute is joined as it is, on the owner. -/
  | plainAttribute {c : Class} {p : Property} {v : ValueSignature} {f : WorldField}
      (hrole : m.roleOf (.ofClass c) p = .plainAttribute c) (hv : m.valueSignature p = .ok v)
      (hf : f ∈ s.worldFields) (hname : f.name = m.names.own p.id)
      (hcolumns : f.shape.columns = [m.names.own c.id, v.name m.names]) :
      Reads m s (.ofClass c) p
        ⟨m.names.alias p.id, s.extentOf (m.names.own c.id), s.extentOf (v.name m.names),
          .image (.whole f.name)⟩
  /-- An ordered attribute gives the elements of the sequence of the owner. -/
  | orderedAttribute {c : Class} {p : Property} {v : ValueSignature} {f : WorldField}
      (hrole : m.roleOf (.ofClass c) p = .orderedAttribute c) (hv : m.valueSignature p = .ok v)
      (hf : f ∈ s.worldFields) (hname : f.name = m.names.own p.id)
      (hcolumns : f.shape.columns = [m.names.own c.id, "Int", v.name m.names]) :
      Reads m s (.ofClass c) p
        ⟨m.names.alias p.id, s.extentOf (m.names.own c.id), s.extentOf (v.name m.names),
          .elements f.name⟩
  /-- The source end of a relation is found from the last column. -/
  | sourceEnd {r : Relation} {p : Property} {e : Ends} {f : WorldField} {projection : Projection}
      (hrole : m.roleOf (.ofRelation r) p = .relationEnd r .source) (he : m.endsOf r = .ok e)
      (hf : f ∈ s.worldFields) (hname : f.name = r.fieldName m.names)
      (hcolumns : projection.Takes f (m.names.own e.source.id) (m.names.own e.target.id)) :
      Reads m s (.ofRelation r) p
        ⟨m.names.alias p.id, s.extentOf (m.names.own e.target.id),
          s.extentOf (m.names.own e.source.id), .preimage projection⟩
  /-- The target end is found from the first one. -/
  | targetEnd {r : Relation} {p : Property} {e : Ends} {f : WorldField} {projection : Projection}
      (hrole : m.roleOf (.ofRelation r) p = .relationEnd r .target) (he : m.endsOf r = .ok e)
      (hf : f ∈ s.worldFields) (hname : f.name = r.fieldName m.names)
      (hcolumns : projection.Takes f (m.names.own e.source.id) (m.names.own e.target.id)) :
      Reads m s (.ofRelation r) p
        ⟨m.names.alias p.id, s.extentOf (m.names.own e.source.id),
          s.extentOf (m.names.own e.target.id), .image projection⟩

/-- The property is not skipped, and its owner is no datatype. -/
def PropertyRole.hasAccessor : PropertyRole → Bool
  | plainAttribute _ | orderedAttribute _ | relationEnd _ _ => true
  | datatypeAttribute _ | skipped _ => false

namespace Model

variable {m : Model}

section

variable {s : Sections} {x : Classifier} {p : Property} {a : Accessor}

/-- An accessor is called by the alias of its property. -/
theorem Reads.name_eq (ha : m.Reads s x p a) : a.name = m.names.alias p.id := by
  cases ha <;> rfl

/-- A property whose accessor reads a field has a role with an accessor. -/
theorem Reads.hasAccessor (ha : m.Reads s x p a) : (m.roleOf x p).hasAccessor = true := by
  cases ha with
  | plainAttribute hrole => rw [hrole]; rfl
  | orderedAttribute hrole => rw [hrole]; rfl
  | sourceEnd hrole => rw [hrole]; rfl
  | targetEnd hrole => rw [hrole]; rfl

end

section

variable {s : Sections} (hid : m.ids.Nodup) (h : m.encoding = .ok s)
include hid h

/-! ## Extents -/

/-- Of the classes, those with a world field are extensions. -/
theorem own_mem_extensions_iff {c : Class} (hc : c ∈ m.classes)
    (hq : c.label.request ∈ m.requests) :
    m.names.own c.id ∈ s.extensions ↔ c.hasWorldField = true := by
  rw [Sections.mem_extensions_iff]
  constructor
  · -- an extension is the field of the class itself, whose shape needs a base signature
    rintro ⟨base, hf⟩
    have hdeclares := declaresField_of_name hid h hf hq rfl
    obtain ⟨base', hbase, -⟩ := hdeclares.of_class hid hc rfl
    rw [Class.hasWorldField, hbase, Option.isSome_some]
  · -- the task on the class declares its field
    intro hfield
    obtain ⟨base, hbase⟩ := Option.isSome_iff_exists.mp hfield
    exact ⟨base, mem_worldFields_of_declaresField hid h (.extension hc hbase)⟩

/-- A class with a counterpart is spoken of across worlds if it has a world field, and by its
signature if it has none. -/
theorem extentOf_own {x : Classifier} (hx : m.HasCounterpart x)
    (hq : x.label.request ∈ m.requests) :
    s.extentOf (m.names.own x.id) = x.acrossWorlds (m.names.own x.id) := by
  obtain ⟨c, hc, rfl, -⟩ := hx
  have hiff : m.names.own (Classifier.ofClass c).id ∈ s.extensions ↔
      (Classifier.ofClass c).hasWorldField = true := own_mem_extensions_iff hid h hc hq
  simp only [Sections.extentOf, Classifier.acrossWorlds, hiff]

/-- The values of an attribute belong to a signature, which is not the field of a class. -/
theorem extentOf_valueSignature {p : Property} {v : ValueSignature}
    (hv : m.valueSignature p = .ok v) (hq : v.requests ⊆ m.requests) :
    s.extentOf (v.name m.names) = .signature (v.name m.names) := by
  suffices hnot : v.name m.names ∉ s.extensions by rw [Sections.extentOf, if_neg hnot]
  obtain ⟨c, hc, -, hsignature⟩ := valueSignature_ok hv
  cases v with
  | base b =>
    -- a field called like a base signature would have been requested by that word
    intro hmem
    obtain ⟨base, hf⟩ := Sections.mem_extensions_iff.mp hmem
    obtain ⟨q, hrequest, hname, -⟩ := exists_declaresField hid h hf
    -- base signatures are words that every module declares
    have hword : b.word ∈ declaredWords := by cases b <;> decide +kernel
    have hof : b.word = m.names.of q.key := hname
    exact not_mem_declaredWords_of_mem_requests hrequest (hof ▸ hword)
  | ofClass d =>
    obtain ⟨rfl, hvalue⟩ := of_valueSignature? hsignature
    have hrequest : d.label.request ∈ m.requests := hq List.mem_cons_self
    intro hmem
    have hfield := (own_mem_extensions_iff hid h hc hrequest).mp hmem
    obtain ⟨base, hbase⟩ := Option.isSome_iff_exists.mp hfield
    -- a class with a base signature is no value type
    obtain ⟨hdatatype, henumeration⟩ := Class.isValueType_of_base? hbase
    rw [Class.isValueType, hdatatype, henumeration] at hvalue
    cases hvalue

/-! ## Ends of relations -/

/-- An end takes the columns of the two ends, whatever stands between them. -/
theorem FieldRelation.exists_takes {r : Relation} {e : Ends} (hr : m.FieldRelation r e)
    (p : Property) (side : EndSide) :
    ∃ f ∈ s.worldFields, f.name = r.fieldName m.names ∧
      ((EndView.ofEnds r p side e).projection m m.names).Takes f (m.names.own e.source.id)
        (m.names.own e.target.id) := by
  have hname : r.fieldName m.names = m.names.of r.fieldRequest.key := r.fieldName_eq _
  obtain ⟨shape, hdeclares⟩ := hr.exists_declaresField hid h
  refine ⟨⟨m.names.of r.fieldRequest.key, shape⟩, ?_, hname.symm, ?_⟩
  · exact mem_worldFields_of_declaresField hid h hdeclares
  -- the field is the one that the relation declares by its name
  obtain ⟨e', hr', hshape⟩ := hdeclares.of_relation hid hr.mem r.id_fieldRequest_key
  obtain rfl : e = e' := Except.ok.inj (hr.ends.symm.trans hr'.ends)
  rw [EndView.projection, EndView.hasMiddleColumn, relation_ofEnds, isDerivedMaterial_eq, hname]
  -- the relation is asked for its founder and for its order, as it was for its field
  rcases hshape with ⟨founder, hfounder, rfl⟩ | ⟨hfounder, hordered, rfl⟩ |
    ⟨hfounder, hordered, atSource, atTarget, rfl⟩
  · rw [hfounder, Option.isSome_some, Bool.true_or, if_pos rfl]
    exact .outer (f := ⟨_, .founded _ _ _⟩) rfl
  · rw [hfounder, hordered, Bool.or_true, if_pos rfl]
    exact .outer (f := ⟨_, .indexed _ _⟩) rfl
  · rw [hfounder, hordered, Option.isSome_none, Bool.or_false, if_neg Bool.false_ne_true]
    exact .whole (f := ⟨_, .binary _ _ _ _⟩) rfl

/-! ## Accessors -/

/-- The accessor of an attribute leads from its owner to the type of its values. -/
theorem FieldAttribute.extents {c : Class} {p : Property} {v : ValueSignature}
    (hp : m.FieldAttribute c p v) (hrequests : p.attributeRequests c v ⊆ m.requests) :
    s.extentOf (m.names.own c.id) = .acrossWorlds (m.names.own c.id) ∧
      s.extentOf (v.name m.names) = .signature (v.name m.names) := by
  simp only [Property.attributeRequests, List.append_subset, List.cons_subset] at hrequests
  obtain ⟨⟨-, howner, -⟩, hvalues, -⟩ := hrequests
  refine ⟨?_, extentOf_valueSignature hid h hp.signature hvalues⟩
  have hextent := extentOf_own hid h hp.hasCounterpart howner
  have hworld : (Classifier.ofClass c).hasWorldField = true := hp.isField.worldField
  rw [Classifier.acrossWorlds, hworld, if_pos rfl] at hextent
  exact hextent

/-- Every accessor that a task emits is the one of its property, and reads a declared field. -/
theorem Emits.reads {t : Task} {requests : List Request} {a : Accessor}
    (hemits : m.Emits m.names t requests (.accessor a)) (hrequests : requests ⊆ m.requests) :
    ∃ x p, t = .property x p ∧ m.Reads s x p a := by
  cases hemits with
  | @orderedAccessor c p v hmem hp hrole =>
    refine ⟨.ofClass c, p, rfl, ?_⟩
    obtain ⟨hdomain, hrange⟩ := hp.extents hid h hrequests
    have hfield := mem_worldFields_of_declaresField hid h (.orderedAttribute hmem hp hrole)
    rw [← hdomain, ← hrange]
    exact .orderedAttribute hrole hp.signature hfield rfl rfl
  | @plainAccessor c p v k hmem hp hrole hk =>
    refine ⟨.ofClass c, p, rfl, ?_⟩
    obtain ⟨hdomain, hrange⟩ := hp.extents hid h hrequests
    have hfield := mem_worldFields_of_declaresField hid h (.plainAttribute hmem hp hrole hk)
    rw [← hdomain, ← hrange]
    exact .plainAttribute hrole hp.signature hfield rfl rfl
  | @endAccessor r p e side hr hp hrole =>
    refine ⟨.ofRelation r, p, rfl, ?_⟩
    simp only [EndView.requests, List.append_subset, List.cons_subset] at hrequests
    obtain ⟨hsource, htarget⟩ := hr.hasCounterpart
    obtain ⟨f, hf, hname, htakes⟩ := hr.exists_takes hid h p side
    -- the end at hand and the opposite one change places with the side
    cases side with
    | source =>
      obtain ⟨⟨⟨⟨-, hown, hopposite, -⟩, -⟩, -⟩, -⟩ := hrequests
      have hdomain := extentOf_own hid h htarget hopposite
      have hrange := extentOf_own hid h hsource hown
      simp only [EndView.accessor, EndView.ofEnds, ← hdomain, ← hrange]
      exact .sourceEnd hrole hr.ends hf hname htakes
    | target =>
      obtain ⟨⟨⟨⟨-, hown, hopposite, -⟩, -⟩, -⟩, -⟩ := hrequests
      have hdomain := extentOf_own hid h hsource hopposite
      have hrange := extentOf_own hid h htarget hown
      simp only [EndView.accessor, EndView.ofEnds, ← hdomain, ← hrange]
      exact .targetEnd hrole hr.ends hf hname htakes

end

end Model

end OntoWorlds
