import OntoWorlds.Proofs.Encoding.Emission
import OntoWorlds.Proofs.Module.Gathering
import OntoWorlds.Proofs.Module.Lines
import OntoWorlds.Proofs.Module.Subsumption

/-!
# OntoWorlds — the wording of a module

Names of a model reach a module only through identifiers, and no identifier holds a blank or a line
feed. So whatever a name holds, every text that a fragment is printed as stays on its line, and the
lines of a module tell what the report of the run tells.

* `Names.IsWorded` — every identifier is a word, or empty.
* `Fragment.IsLined` — nothing that a fragment holds breaks a line.
* `Model.Emits.isLined` — under worded names, every fragment that a task emits is lined.
* `Session.IsWorded` — kept by every step without a defect, hence by a run without one.
* `Model.report_eq_of_encode` — the text of a module declares what its report counts.
-/

namespace OntoWorlds

open Alloy

/-! ## Words -/

namespace Alloy

/-- The words of the language for the kinds of world elements are words. -/
theorem oneLine_word (b : BaseSignature) : OneLine b.word := by cases b <;> decide

theorem oneLine_keyword (q : Quantifier) : OneLine q.keyword := by cases q <;> decide

end Alloy

namespace Identifier

/-- An identifier that can be issued holds no blank and no line feed, and the one reserved word that
can be issued holds none either. -/
theorem oneWord_of_isIssuable {w : String} (h : IsIssuable w) : OneWord w := by
  rcases h with hlegal | rfl
  -- none of the characters of a legal identifier is a blank or a forbidden mark
  · have hclean := ((isLegal_iff w).mp hlegal).1
    constructor
    · intro hmem
      exact absurd (hclean.allowed ' ' hmem) (by decide)
    · intro hmem
      exact absurd (hclean.allowed '\n' hmem) (by decide)
  -- the one reserved word that numbers can lead to, read letter by letter
  · exact ⟨by decide, by decide⟩

end Identifier

/-- Every identifier is a word, or empty. -/
def Names.IsWorded (n : Names) : Prop := ∀ k, OneWord (n.of k)

/-- What a registry shows is what it has given, or nothing. -/
theorem Registry.isWorded_view {r : Registry} (h : r.Sound)
    (hused : ∀ w ∈ r.used, Identifier.IsIssuable w) : r.view.IsWorded := by
  intro k
  cases hgiven : r.given? k with
  | none =>
    -- what has not been given is shown as the empty text
    rw [view_of_none hgiven]
    exact ⟨by decide, by decide⟩
  | some w =>
    rw [view_of hgiven]
    exact Identifier.oneWord_of_isIssuable (hused w ((h.mem_used_iff w).mpr ⟨k, hgiven⟩))

namespace Names.IsWorded

variable {n : Names}

/-- A name does not break the line that it stands in. -/
theorem own (h : n.IsWorded) (id : ElementId) : OneLine (n.own id) := (h (.own id)).2

theorem byname (h : n.IsWorded) (id : ElementId) : OneLine (n.alias id) := (h (.byname id)).2

/-- A relation goes by its own name, or by an alias if it has none. -/
theorem relation (h : n.IsWorded) (r : Relation) : OneLine (r.fieldName n) := by
  -- either way it is the answer to the request for the field
  rw [r.fieldName_eq]
  exact (h _).2

/-- A field is named after its class or relation. -/
theorem field (h : n.IsWorded) (x : Classifier) : OneLine (x.fieldName n) := by
  cases x with
  | ofClass c => exact h.own c.id
  | ofRelation r => exact h.relation r

/-- The values of an attribute are from a class or from a base signature. -/
theorem value (h : n.IsWorded) (v : ValueSignature) : OneLine (v.name n) := by
  cases v with
  | ofClass c => exact h.own c.id
  | base b => exact oneLine_word b

end Names.IsWorded

namespace Alloy

/-! ## Fragments -/

/-- Nothing that a fragment holds breaks the line that it is printed in, and the name of a datatype
is a word. -/
def Fragment.IsLined : Fragment → Prop
  | .worldField f => OneLine f.text
  | .covering c => OneLine c.text
  | .fact f => ∀ l ∈ f.lines, OneLine l
  | .immutability i => OneLine i.text
  | .accessor a =>
    OneLine a.name ∧ OneLine a.domain.text ∧ OneLine a.range.text ∧ OneLine a.body.text
  | .selector s => OneLine s.text
  | .enumeration e => OneLine e.text
  | .datatype name _ => OneWord name
  | .inlineField owner f => OneWord owner ∧ OneLine f.text

/-- A datatype that is mentioned is added with its name and without fields. -/
theorem isLined_mention {ds : List Datatype} (hds : ∀ d ∈ ds, d.IsLined) {name : String}
    (hname : OneWord name) (isDeclared : Bool) : ∀ d ∈ mention name isDeclared ds, d.IsLined := by
  intro d hd
  -- a datatype that is there already is not added again
  rw [mention] at hd
  split at hd
  · exact hds d hd
  · rcases List.mem_append.mp hd with hd | hd
    · exact hds d hd
    · rw [List.mem_singleton.mp hd]
      exact ⟨hname, fun f hf => absurd hf List.not_mem_nil⟩

/-- A field is added to the datatype with the name, and to no other one. -/
theorem isLined_addField {ds : List Datatype} (hds : ∀ d ∈ ds, d.IsLined) (name : String)
    {f : InlineField} (hf : OneLine f.text) : ∀ d ∈ addField name f ds, d.IsLined := by
  induction ds with
  | nil => exact fun d hd => absurd hd List.not_mem_nil
  | cons d ds ih =>
    -- by induction on the datatypes, of which the first one with the name gets the field
    have hd := hds d List.mem_cons_self
    have hrest := fun e he => hds e (List.mem_cons_of_mem _ he)
    rw [addField]
    split
    · refine List.forall_mem_cons.mpr ⟨⟨hd.1, ?_⟩, hrest⟩
      intro g hg
      rcases List.mem_append.mp hg with hg | hg
      · exact hd.2 g hg
      · rw [List.mem_singleton.mp hg]
        exact hf
    · exact List.forall_mem_cons.mpr ⟨hd, ih hrest⟩

/-- A fragment adds to the datatypes what it holds. -/
theorem isLined_gather {ds : List Datatype} (hds : ∀ d ∈ ds, d.IsLined) {f : Fragment}
    (hf : f.IsLined) : ∀ d ∈ gather ds f, d.IsLined := by
  -- only two kinds of fragments add to the datatypes
  cases f with
  | datatype name isDeclared => exact isLined_mention hds hf isDeclared
  | inlineField name f => exact isLined_addField (isLined_mention hds hf.1 true) name hf.2
  | _ => exact hds

/-- So do all fragments, one after the other. -/
theorem isLined_foldl_gather {fs : List Fragment} (hfs : ∀ f ∈ fs, f.IsLined) {ds : List Datatype}
    (hds : ∀ d ∈ ds, d.IsLined) : ∀ d ∈ fs.foldl gather ds, d.IsLined := by
  induction fs generalizing ds with
  | nil => exact hds
  | cons f fs ih =>
    -- the claim is for any datatypes gathered so far, as the head is gathered before the rest
    exact ih (fun g hg => hfs g (List.mem_cons_of_mem _ hg))
      (isLined_gather hds (hfs f List.mem_cons_self))

/-- Each part of a module is made of the fragments of its kind. -/
theorem Sections.isLined_ofFragments {fs : List Fragment} (h : ∀ f ∈ fs, f.IsLined) :
    (Sections.ofFragments fs).IsLined where
  worldFields _ hf := h _ (mem_worldFields_iff.mp hf)
  coverings _ hc := h _ (mem_coverings_iff.mp hc)
  facts _ hf := h _ (mem_facts_iff.mp hf)
  immutabilities _ hi := h _ (mem_immutabilities_iff.mp hi)
  accessors _ ha := h _ (mem_accessors_iff.mp ha)
  selectors _ hs := h _ (mem_selectors_iff.mp hs)
  enumerations _ he := h _ (mem_enumerations_iff.mp he)
  datatypes := isLined_foldl_gather h fun _ hd => absurd hd List.not_mem_nil

/-! ## Texts of words -/

namespace FieldShape

/-- A field for a kind of element across worlds holds two fixed words. -/
theorem oneLine_extension (base : BaseSignature) : OneLine (extension base).text := by
  cases base <;> decide

/-- The columns of a field are names, and its multiplicities are keywords. -/
theorem oneLine_binary {source target : String} (hsource : OneLine source)
    (htarget : OneLine target) (atSource atTarget : Quantifier) :
    OneLine (binary source atSource atTarget target).text := by
  -- fixed words are read letter by letter, the parts between them by their own lemmas
  simp only [text, oneLine_append]
  exact ⟨⟨⟨⟨⟨⟨⟨by decide, hsource⟩, by decide⟩, oneLine_keyword atSource⟩, by decide⟩,
    oneLine_keyword atTarget⟩, by decide⟩, htarget⟩

/-- The relator in the middle column is a name too. -/
theorem oneLine_founded {source relator target : String} (hsource : OneLine source)
    (hrelator : OneLine relator) (htarget : OneLine target) :
    OneLine (founded source relator target).text := by
  simp only [text, oneLine_append]
  exact ⟨⟨⟨⟨⟨by decide, hsource⟩, by decide⟩, hrelator⟩, by decide⟩, htarget⟩

/-- The index between the columns is a fixed word. -/
theorem oneLine_indexed {source target : String} (hsource : OneLine source)
    (htarget : OneLine target) : OneLine (indexed source target).text := by
  simp only [text, oneLine_append]
  exact ⟨⟨⟨by decide, hsource⟩, by decide⟩, htarget⟩

end FieldShape

namespace Extent

/-- An extent in the world at hand is a name behind a fixed word. -/
theorem oneLine_inWorld {field : String} (h : OneLine field) : OneLine (inWorld field).text :=
  OneLine.append (by decide) h

theorem oneLine_acrossWorlds {field : String} (h : OneLine field) :
    OneLine (acrossWorlds field).text :=
  OneLine.append (by decide) h

end Extent

/-- A field in the world at hand is a name in brackets. -/
theorem oneLine_inThisWorld {field : String} (h : OneLine field) : OneLine (inThisWorld field) :=
  (OneLine.append (by decide) h).append (by decide)

/-- Bounds are stated of a term, with numbers. -/
theorem Bounds.oneLine_text {term : String} (h : OneLine term) (b : Bounds) :
    OneLine (b.text term) := by
  have hlower (k : Nat) : OneLine (term ++ ">=" ++ toString k) :=
    (h.append (by decide)).append (oneLine_toString k)
  have hupper (k : Nat) : OneLine (term ++ "<=" ++ toString k) :=
    (h.append (by decide)).append (oneLine_toString k)
  cases b with
  | atLeast lower => exact hlower lower
  | atMost upper => exact hupper upper
  -- both comparisons with an `and` between them; the text is associated to the right
  | between lower upper =>
    have hboth := ((hlower lower).append (by decide : OneLine " and ")).append (hupper upper)
    simpa only [text, String.append_assoc] using hboth

/-- An immutability holds the names of a domain and of a field. -/
theorem Immutability.oneLine_source {domain field : String} (hdomain : OneLine domain)
    (hfield : OneLine field) : OneLine (source domain field).text :=
  (((OneLine.append (by decide) hdomain).append (by decide)).append hfield).append (by decide)

theorem Immutability.oneLine_target {domain field : String} (hdomain : OneLine domain)
    (hfield : OneLine field) : OneLine (target domain field).text :=
  (((OneLine.append (by decide) hdomain).append (by decide)).append hfield).append (by decide)

/-- An enumeration holds its name and those of its literals. -/
theorem Enumeration.oneLine_text {name : String} {literals : List String} (hname : OneLine name)
    (hliterals : ∀ l ∈ literals, OneLine l) : OneLine (Enumeration.mk name literals).text :=
  (((OneLine.append (by decide) hname).append (by decide)).append
    (oneLine_intercalate (by decide) hliterals)).append (by decide)

/-- A line of a set holds two fields, or a general and the specifics that cover it. -/
theorem SetLine.oneLine_text {line : SetLine} (h : ∀ w ∈ line.fields, OneLine w) :
    OneLine line.text := by
  cases line with
  | disjoint a b =>
    have ha : OneLine a := h a List.mem_cons_self
    have hb : OneLine b := h b (List.mem_cons_of_mem _ List.mem_cons_self)
    exact ((OneLine.append (by decide) ha).append (by decide)).append hb
  | covered general specifics =>
    have hgeneral : OneLine general := h general List.mem_cons_self
    have hspecifics : ∀ w ∈ specifics, OneLine w := fun w hw => h w (List.mem_cons_of_mem _ hw)
    exact (hgeneral.append (by decide)).append (oneLine_intercalate (by decide) hspecifics)

/-- A covering holds a base and the names of classes. -/
theorem Covering.oneLine_text (base : BaseSignature) {classes : List String}
    (h : ∀ c ∈ classes, OneLine c) : OneLine (Covering.mk base classes).text :=
  ((OneLine.append (by decide) (oneLine_word base)).append (by decide)).append
    (oneLine_intercalate (by decide) h)

/-- A field of a datatype holds its name, a keyword if it has one, and its type. -/
theorem InlineField.oneLine_text {name type : String} (hname : OneLine name)
    (quantifier : Option Quantifier) (htype : OneLine type) :
    OneLine (InlineField.mk name quantifier type).text := by
  refine (hname.append (by decide)).append ?_
  cases quantifier with
  | none => exact htype
  | some q => exact ((oneLine_keyword q).append (by decide)).append htype

namespace Fact

/-- The line that says that positions form a sequence. -/
theorem oneLine_orderingLine {domain : Extent} {field : String} (hdomain : OneLine domain.text)
    (hfield : OneLine field) : OneLine (orderingLine domain field) := by
  unfold orderingLine
  simp only [oneLine_append]
  exact ⟨⟨⟨⟨by decide, hdomain⟩, by decide⟩, oneLine_inThisWorld hfield⟩, by decide⟩

/-- The line that says that a position holds at most one value. -/
theorem oneLine_positionLine {domain : Extent} {field : String} (hdomain : OneLine domain.text)
    (hfield : OneLine field) : OneLine (positionLine domain field) := by
  unfold positionLine
  simp only [oneLine_append]
  exact ⟨⟨⟨⟨by decide, hdomain⟩, by decide⟩, oneLine_inThisWorld hfield⟩, by decide⟩

/-- A relation with an ordered end has the first of these lines. -/
theorem oneLine_ordering {domain : Extent} {field : String} (hdomain : OneLine domain.text)
    (hfield : OneLine field) : ∀ l ∈ (ordering domain field).lines, OneLine l := by
  intro l hl
  rw [List.mem_singleton.mp hl]
  exact oneLine_orderingLine hdomain hfield

/-- An ordered attribute has both. -/
theorem oneLine_functionalOrdering {domain : Extent} {field : String}
    (hdomain : OneLine domain.text) (hfield : OneLine field) :
    ∀ l ∈ (functionalOrdering domain field).lines, OneLine l := by
  intro l hl
  rcases List.mem_cons.mp hl with rfl | hl
  · exact oneLine_orderingLine hdomain hfield
  · rw [List.mem_singleton.mp hl]
    exact oneLine_positionLine hdomain hfield

/-- A rigidity holds the name of a class and a base. -/
theorem oneLine_rigid {name : String} (h : OneLine name) (base : BaseSignature) :
    ∀ l ∈ (rigid name base).lines, OneLine l := by
  intro l hl
  rw [List.mem_singleton.mp hl]
  simp only [oneLine_append]
  exact ⟨⟨⟨⟨by decide, h⟩, by decide⟩, oneLine_word base⟩, by decide⟩

theorem oneLine_antirigid {name : String} (h : OneLine name) (base : BaseSignature) :
    ∀ l ∈ (antirigid name base).lines, OneLine l := by
  intro l hl
  rw [List.mem_singleton.mp hl]
  simp only [oneLine_append]
  exact ⟨⟨⟨⟨by decide, h⟩, by decide⟩, oneLine_word base⟩, by decide⟩

/-- A generalization holds the names of two fields. -/
theorem oneLine_generalization {specific general : String} (hspecific : OneLine specific)
    (hgeneral : OneLine general) : ∀ l ∈ (generalization specific general).lines, OneLine l := by
  intro l hl
  rw [List.mem_singleton.mp hl]
  exact (hspecific.append (by decide)).append hgeneral

/-- A derivation holds six names, between fixed words. -/
theorem oneLine_derivation {source target : Extent}
    {relator material sourceMediation targetMediation : String} (hsource : OneLine source.text)
    (htarget : OneLine target.text) (hrelator : OneLine relator) (hmaterial : OneLine material)
    (hatSource : OneLine sourceMediation) (hatTarget : OneLine targetMediation) :
    ∀ l ∈ (derivation source target relator material sourceMediation targetMediation).lines,
      OneLine l := by
  intro l hl
  rw [List.mem_singleton.mp hl]
  simp only [oneLine_append]
  exact ⟨⟨⟨⟨⟨⟨⟨⟨⟨⟨⟨by decide, hsource⟩, by decide⟩, htarget⟩, by decide⟩, hrelator⟩, by decide⟩,
    hmaterial⟩, by decide⟩, oneLine_inThisWorld hatSource⟩, by decide⟩,
    oneLine_inThisWorld hatTarget⟩

/-- A count of inline values holds a datatype, a field and the bounds. -/
theorem oneLine_inlineCount {datatype field : String} (hdatatype : OneLine datatype)
    (hfield : OneLine field) (b : Bounds) :
    ∀ l ∈ (multiplicity (.inline datatype field) b).lines, OneLine l := by
  intro l hl
  rw [List.mem_singleton.mp hl]
  exact ((OneLine.append (by decide) hdatatype).append (by decide)).append
    (b.oneLine_text (OneLine.append (by decide) hfield))

/-- A count of accessed values holds a domain, an accessor and the bounds. -/
theorem oneLine_accessedCount {domain : Extent} {accessor : String} (hdomain : OneLine domain.text)
    (haccessor : OneLine accessor) (b : Bounds) :
    ∀ l ∈ (multiplicity (.accessed domain accessor) b).lines, OneLine l := by
  intro l hl
  rw [List.mem_singleton.mp hl]
  exact ((OneLine.append (by decide) hdomain).append (by decide)).append
    (b.oneLine_text ((OneLine.append (by decide) haccessor).append (by decide)))

end Fact

end Alloy

/-! ## Emitted fragments -/

namespace Names.IsWorded

variable {n : Names} (hn : n.IsWorded)

include hn

/-- The element is counted in the world at hand if it has instances there, and else goes by its
name. -/
theorem oneLine_inWorld (x : Classifier) (id : ElementId) :
    OneLine (x.inWorld (n.own id)).text := by
  rw [Classifier.inWorld]
  split
  · exact Extent.oneLine_inWorld (hn.own id)
  · exact hn.own id

theorem oneLine_acrossWorlds (x : Classifier) (id : ElementId) :
    OneLine (x.acrossWorlds (n.own id)).text := by
  rw [Classifier.acrossWorlds]
  split
  · exact Extent.oneLine_acrossWorlds (hn.own id)
  · exact hn.own id

/-- A declared field holds the names of its columns, whatever it is declared for. -/
theorem oneLine_declared {m : Model} {k : Key} {shape : FieldShape}
    (h : m.DeclaresField n k shape) : OneLine (WorldField.text ⟨n.of k, shape⟩) := by
  have hshape : OneLine shape.text := by
    cases h with
    | extension hc hbase => exact FieldShape.oneLine_extension _
    | founded hr hfounder => exact FieldShape.oneLine_founded (hn.own _) (hn.own _) (hn.own _)
    | indexed hr hfounder hordered => exact FieldShape.oneLine_indexed (hn.own _) (hn.own _)
    | binary hr hfounder hordered hsource htarget =>
      exact FieldShape.oneLine_binary (hn.own _) (hn.own _) _ _
    | orderedAttribute hmem hp hrole => exact FieldShape.oneLine_indexed (hn.own _) (hn.value _)
    | plainAttribute hmem hp hrole hk =>
      exact FieldShape.oneLine_binary (hn.own _) (hn.value _) _ _
  exact ((hn k).2.append (by decide)).append hshape

/-- The lines of a generalization set hold the fields of its members. -/
theorem oneLine_setLines (s : GeneralizationSet) (members : List (Classifier × Classifier)) :
    ∀ l ∈ (Fact.generalizationSet (s.lines members n)).lines, OneLine l := by
  intro l hl
  obtain ⟨line, hline, rfl⟩ := List.mem_map.mp hl
  refine SetLine.oneLine_text ?_
  intro w hw
  -- each field in a line is that of a general or of a specific
  obtain ⟨f, -, hf⟩ :=
    GeneralizationSet.exists_of_mem_lines (List.mem_flatMap.mpr ⟨line, hline, hw⟩)
  rcases hf with rfl | rfl
  · exact hn.field f.1
  · exact hn.field f.2

/-- A projection holds the field, with or without the middle column. -/
theorem oneLine_projection {m : Model} (v : EndView) : OneLine (v.projection m n).text := by
  rw [EndView.projection]
  split
  · exact (OneLine.append (by decide) (hn.relation v.relation)).append (by decide)
  · exact (OneLine.append (by decide) (hn.relation v.relation)).append (by decide)

/-- The accessor of an end holds names and a projection, joined from one side or from the other. -/
theorem isLined_accessor {m : Model} (v : EndView) :
    (Fragment.accessor (v.accessor m n)).IsLined := by
  refine ⟨hn.byname _, hn.oneLine_acrossWorlds _ _, hn.oneLine_acrossWorlds _ _, ?_⟩
  have hprojection := hn.oneLine_projection (m := m) v
  unfold EndView.accessor
  split
  · exact hprojection.append (by decide)
  · exact OneLine.append (by decide) hprojection

/-- The immutability of an end holds the names of its element and of its relation. -/
theorem isLined_immutability {v : EndView} {i : Immutability}
    (h : .immutability i ∈ v.immutability n) : OneLine i.text := by
  rcases EndView.mem_immutability h with heq | heq
  · obtain rfl := Fragment.immutability.inj heq
    exact Immutability.oneLine_source (hn.own _) (hn.relation _)
  · obtain rfl := Fragment.immutability.inj heq
    exact Immutability.oneLine_target (hn.own _) (hn.relation _)

end Names.IsWorded

/-- Under worded names, every fragment that a task emits is lined. -/
theorem Model.Emits.isLined {m : Model} {n : Names} {t : Task} {requests : List Request}
    {f : Fragment} (h : m.Emits n t requests f) (hn : n.IsWorded) : f.IsLined := by
  -- every text is made of names and fixed words, so each kind of fragment has its own lemma
  cases h with
  | field hq hdeclares => exact hn.oneLine_declared hdeclares
  | datatype hc hvalue => exact hn (.own _)
  | @enumeration c hc hvalue =>
    refine Enumeration.oneLine_text (hn.own _) ?_
    intro w hw
    obtain ⟨l, -, rfl⟩ := List.mem_map.mp hw
    exact hn.own l.id
  | rigid hc hbase hrigid => exact Fact.oneLine_rigid (hn.own _) _
  | antirigid hc hbase hantirigid => exact Fact.oneLine_antirigid (hn.own _) _
  | @covering base hcovering =>
    refine Covering.oneLine_text base ?_
    intro w hw
    obtain ⟨c, -, rfl⟩ := List.mem_map.mp hw
    exact hn.own c.id
  | generalization hg hfields => exact Fact.oneLine_generalization (hn.field _) (hn.field _)
  | generalizationSet hs hmembers hlines => exact hn.oneLine_setLines _ _
  | inlineRelation hr he hdatatypes =>
    exact ⟨hn (.own _), InlineField.oneLine_text (hn.relation _) none (hn.own _)⟩
  | ordering hr hfounder hordered =>
    exact Fact.oneLine_ordering (hn.oneLine_inWorld _ _) (hn.relation _)
  | derivation hmaterial he hrelator hderives hatSource hatTarget =>
    exact Fact.oneLine_derivation (hn.oneLine_inWorld _ _) (hn.oneLine_inWorld _ _) (hn.own _)
      (hn.relation _) (hn.relation _) (hn.relation _)
  | inlineAttribute hc hdatatype hv hk =>
    exact ⟨hn (.own _), InlineField.oneLine_text (hn.own _) (some _) (hn.value _)⟩
  | inlineCount hc hdatatype hv hk hb => exact Fact.oneLine_inlineCount (hn.own _) (hn.own _) _
  | functionalOrdering hmem hp hrole =>
    exact Fact.oneLine_functionalOrdering (Extent.oneLine_inWorld (hn.own _)) (hn.own _)
  | orderedAccessor hmem hp hrole =>
    exact ⟨hn.byname _, Extent.oneLine_acrossWorlds (hn.own _), hn.value _,
      (OneLine.append (by decide) (oneLine_inThisWorld (hn.own _))).append (by decide)⟩
  | plainAccessor hmem hp hrole hk =>
    exact ⟨hn.byname _, Extent.oneLine_acrossWorlds (hn.own _), hn.value _,
      OneLine.append (by decide) (oneLine_inThisWorld (hn.own _))⟩
  | attributeImmutability hmem hp hi => exact Immutability.oneLine_target (hn.own _) (hn.own _)
  | attributeCount hmem hp hrole hk hb =>
    exact Fact.oneLine_accessedCount (Extent.oneLine_inWorld (hn.own _)) (hn.byname _) _
  | selector hmem hp hrole => exact (OneLine.append (by decide) (hn.own _)).append (by decide)
  | endAccessor hr hp hrole => exact hn.isLined_accessor _
  | endImmutability hr hp hrole hi => exact hn.isLined_immutability hi
  | endCount hr hp hrole hk hb =>
    exact Fact.oneLine_accessedCount (hn.oneLine_inWorld _ _) (hn.byname _) _

/-! ## Runs -/

/-- All identifiers used so far can be issued, and all fragments emitted so far are lined. -/
structure Session.IsWorded (s : Session) : Prop where
  sound : s.registry.Sound
  issuable : ∀ w ∈ s.registry.used, Identifier.IsIssuable w
  lined : ∀ f ∈ s.emitted, f.IsLined

namespace Model

variable {m : Model} {s : Sections} {o : RunScope}

/-- A step without a defect keeps a session worded: what it requests before it emits anything has
been made from the labels of the model. -/
theorem isWorded_take {t : Task} (ht : t.IsOf m) (hok : (m.stepOf t).failure = none) {u : Session}
    (h : u.IsWorded) : (u.take (m.stepOf t)).1.IsWorded := by
  have hproper : (m.stepOf t).IsProper m [] := isProper_stepOf [] ht
  have hsound := h.sound.serveAll (m.stepOf t).requests
  have hissuable := Registry.isIssuable_serveAll h.sound h.issuable
    (fun _ _ hmem => absurd hmem List.not_mem_nil) hproper.labelled hproper.seeded
  refine ⟨hsound, hissuable, ?_⟩
  intro f hf
  rcases List.mem_append.mp hf with hf | hf
  · exact h.lined f hf
  · exact ((takes_stepOf ht hok).emits ht hf).isLined (Registry.isWorded_view hsound hissuable)

/-- A run that ends without a defect leaves lined sections. -/
theorem isLined_encoding (h : m.encoding = .ok s) : s.IsLined := by
  have hstart : ({} : Session).IsWorded := by
    refine ⟨Registry.sound_empty, ?_, ?_⟩
    · exact fun w hw => absurd hw List.not_mem_nil
    · exact fun f hf => absurd hf List.not_mem_nil
  -- steps with a defect may be left unworded: a run without a defect has taken none of them
  have hend (hok : m.run.2 = none) : m.run.1.IsWorded :=
    Session.performAll_invariant_of_ok (fun _ _ hu => ⟨hu.sound, hu.issuable, hu.lined⟩)
      (fun t ht hfailure _ hu => isWorded_take (isOf_of_mem_tasks ht) hfailure hu) hstart hok
  unfold encoding at h
  split at h
  · next u hrun =>
    rw [hrun] at hend
    rw [← Except.ok.inj h]
    exact Sections.isLined_ofFragments (hend rfl).lined
  · cases h

/-- **The report of a run counts the declarations of its module**: whatever the names of a model
hold, the lines of the text announce as many enumerations, datatypes, functions and facts as the
report tells, besides the function and the facts that every module has; the block of the signature
of worlds is made of a line for each world field, after the one for the existing individuals; and
the text ends in one line feed. -/
theorem report_eq_of_encode {text : String} {report : Report}
    (h : m.encode o = .ok (text, report)) :
    (linesOf text).countP (opensWith "enum ") = report.enumerations ∧
    (linesOf text).countP isDatatypeLine = report.datatypes ∧
    (linesOf text).countP (opensWith "fun ") = report.accessors + 1 ∧
    (∃ s, m.encoding = .ok s ∧ (linesOf text).countP (opensWith "fact ")
      = report.facts + 1 + if s.immutabilities.isEmpty then 0 else 1) ∧
    (linesOf text).countP (opensWith worldLine) = 1 ∧
    (worldBlock (linesOf text)).length = 1 + report.worldFields ∧
    (∃ fields : List WorldField, fields.length = report.worldFields ∧ worldBlock (linesOf text)
      = fieldLines ("exists: some Endurant" :: fields.map WorldField.text)) ∧
    ∃ front, Sheet.EndsVisibly front ∧ text = front ++ "\n" := by
  -- the text and the report are those of the sections that the run ends with
  obtain ⟨s, hs, hpair⟩ : ∃ s, m.encoding = .ok s ∧ (s.text o, s.report) = (text, report) := by
    unfold encode at h
    cases hs : m.encoding with
    | error d =>
      rw [hs] at h
      cases h
    | ok s =>
      rw [hs] at h
      exact ⟨s, rfl, Except.ok.inj h⟩
  obtain ⟨rfl, rfl⟩ := Prod.mk.inj hpair
  have hlined : s.IsLined := isLined_encoding hs
  have hworld := Sections.worldBlock_text hlined o
  refine ⟨?_, ?_, ?_, ⟨s, hs, ?_⟩, ?_, ?_, ⟨s.worldFields, rfl, hworld⟩, s.exists_text_eq o⟩
  · rw [Sections.countP_text hlined picksOut_enumerations o]
    rfl
  · rw [Sections.countP_text hlined picksOut_datatypes o]
    simp [Sections.report]
  · rw [Sections.countP_text hlined picksOut_functions o]
    simp [Sections.report]
  · rw [Sections.countP_text hlined picksOut_facts o]
    simp [Sections.report]
  · rw [Sections.countP_text hlined picksOut_worlds o]
    simp
  · rw [hworld, length_fieldLines, List.length_cons, List.length_map, Nat.add_comm]
    rfl

/-- Names with line feeds, braces and commas, and with lines that look like declarations. -/
def disguised : Model where
  classes := [
    { id := ⟨"person"⟩, name := some "Person \x7b\x7d\nfact nobody", stereotype := some .kind
      attributes := [
        { id := ⟨"age"⟩, name := some "age,\nenum Age \x7b\x7d", type := some ⟨"number"⟩
          cardinality := "1..2", isReadOnly := true }] },
    { id := ⟨"number"⟩, name := some "sig Number in Datatype\n\x7d\n", stereotype := some .datatype },
    { id := ⟨"mood"⟩, name := some "enum", stereotype := some .enumeration
      literals := [⟨⟨"glad"⟩, some "glad,\nsad"⟩, ⟨⟨"sad"⟩, some "\nabstract sig World \x7b\n"⟩] }]

/-- Its module declares what the model has: a field for persons and one for their ages, which can be
accessed, are counted and never change. -/
theorem disguised_report_eq_of_encode : ∃ text report,
    disguised.encode {} = .ok (text, report) ∧
      (linesOf text).countP (opensWith "enum ") = 1 ∧
      (linesOf text).countP isDatatypeLine = 1 ∧
      (linesOf text).countP (opensWith "fun ") = 1 + 1 ∧
      (worldBlock (linesOf text)).length = 1 + 2 := by
  obtain ⟨s, hs, hreport⟩ := exists_encoding_of_map (m := disguised)
    (P := fun s => s.report = ⟨2, 2, 1, 1, 1⟩) (by decide +kernel)
  have hencode : disguised.encode {} = .ok (s.text {}, s.report) := by
    rw [encode, hs]
    rfl
  obtain ⟨henumerations, hdatatypes, hfunctions, -, -, hworld, -⟩ := report_eq_of_encode hencode
  rw [hreport] at henumerations hdatatypes hfunctions hworld
  exact ⟨s.text {}, s.report, hencode, henumerations, hdatatypes, hfunctions, hworld⟩

end Model

end OntoWorlds
