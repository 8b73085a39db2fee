import OntoWorlds.Proofs.Encoding.Claims
import OntoWorlds.Proofs.Module.Inventory
import OntoWorlds.Proofs.Module.Printing

/-!
# OntoWorlds — built-in words in a module

The language provides some signatures itself. A datatype that is called by such a word is referred
to and not declared, and a class that has to be declared avoids the word, by the tag of its kind. So
do enumerations. But their literals do not, nor do relations and attributes, all of which are
declared under any name: a built-in word is declared again if the first of its claims is theirs.

* `Identifier.isBuiltin_declaredBase` — whoever avoids built-in words is not called by one.
* `Model.DeclaresPlainly` — the elements that are declared, and do not avoid built-in words.
* `hasDatatypeEntry_of_firstClaim` — if a class claims a built-in word first, it is a datatype, or
  an enumeration without literals.
* `declares_builtin_iff` — the built-in words that a module declares again.
-/

namespace OntoWorlds

open Alloy
open Identifier (declaredWords isBuiltin)

/-! ## Built-in words -/

namespace Identifier

variable {w : String}

/-- There is a single built-in word. -/
theorem isBuiltin_iff : isBuiltin w = true ↔ w = "String" := by
  simp [isBuiltin, builtinSignatures]

/-- The built-in word carries no number, as it has no digit at its end. -/
theorem isUnnumbered_of_isBuiltin (h : isBuiltin w = true) : IsUnnumbered w := by
  obtain rfl := isBuiltin_iff.mp h
  exact ⟨by decide +kernel, by decide +kernel⟩

/-- The word is not among those that every module declares. -/
theorem not_mem_declaredWords_of_isBuiltin (h : isBuiltin w = true) : w ∉ declaredWords := by
  obtain rfl := isBuiltin_iff.mp h
  decide +kernel

/-- Whoever avoids built-in words has a base that is none of them. -/
theorem isBuiltin_declaredBase (name : Option String) (kind : ElementKind) :
    isBuiltin (declaredBase name kind) = false := by
  simp only [declaredBase]
  split
  · -- the name is built in, so the tag of the kind is added to it
    next h =>
    rw [isBuiltin_iff.mp h]
    have htagged : ∀ k ∈ ElementKind.all, isBuiltin ("String" ++ "_" ++ k.tag) = false := by
      decide +kernel
    exact htagged kind (ElementKind.mem_all kind)
  · -- other names are no built-in words already
    next h => exact Bool.eq_false_iff.mpr h

end Identifier

/-- A label that avoids built-in words does not ask for one. -/
theorem Label.declaredBase_ne_of_isBuiltin {w : String} (h : isBuiltin w = true) (l : Label) :
    l.declaredBase ≠ w := by
  rintro rfl
  rw [Label.declaredBase, Identifier.isBuiltin_declaredBase] at h
  cases h

/-! ## Requests of classes -/

namespace Class

variable {c : Class}

/-- Enumerations are no datatypes. -/
theorem isDatatype_of_isEnumeration (h : c.isEnumeration = true) : c.isDatatype = false := by
  rw [isEnumeration, beq_iff_eq] at h
  rw [isDatatype, h]
  rfl

/-- An enumeration with literals is declared as one. -/
theorem step_of_literals (henumeration : c.isEnumeration = true) (hliterals : c.literals ≠ []) :
    c.step = c.enumerationStep := by
  have hnonempty : c.literals.isEmpty = false := by
    rwa [Bool.eq_false_iff, ne_eq, List.isEmpty_iff]
  rw [step, isDatatype_of_isEnumeration henumeration, hnonempty, Bool.and_false, Bool.or_false,
    if_neg Bool.false_ne_true, if_pos henumeration]

/-- Whatever the task on a class requests, only a datatype does not avoid the built-in words. -/
theorem mem_requests_step {q : Request} (h : q ∈ c.step.requests) :
    (c.hasDatatypeEntry = true ∧ q = c.label.request) ∨ q = c.label.declaredRequest ∨
      ∃ l ∈ c.literals, q = l.label.request := by
  -- the branches of the task on a class: a datatype, an enumeration, an extension, or nothing
  unfold step at h
  split at h
  · next hentry => exact Or.inl ⟨hentry, List.mem_singleton.mp h⟩
  · split at h
    · rcases List.mem_cons.mp h with rfl | h
      · exact Or.inr (Or.inl rfl)
      · obtain ⟨l, hl, rfl⟩ := List.mem_map.mp h
        exact Or.inr (Or.inr ⟨l, hl, rfl⟩)
    · split at h
      · exact Or.inr (Or.inl (List.mem_singleton.mp h))
      · cases h

/-- A class with a signature or a world field is named by its own task. -/
theorem exists_mem_requests_step (h : c.hasSignature = true) :
    ∃ base, .name c.id base ∈ c.step.requests := by
  cases hbase : c.base? with
  | some base =>
    rw [step_of_base? hbase]
    exact ⟨_, List.mem_cons_self⟩
  | none =>
    have hfield : c.hasWorldField = false := by rw [hasWorldField, hbase, Option.isSome_none]
    -- without a base signature it is a value type, and there are two ways to declare these
    rcases step_of_isValueType (isValueType_of_hasSignature h hfield) with hstep | hstep
    all_goals
      rw [hstep]
      exact ⟨_, List.mem_cons_self⟩

end Class

namespace Model

variable {m : Model} {w : String}

/-! ## Elements that do not avoid built-in words -/

/-- The element is declared by the name that it goes by, whatever the word: a literal of an
enumeration, a relation with a name, or an attribute, with a field in the world or in a datatype. -/
inductive DeclaresPlainly (m : Model) : Label → Prop
  | ofLiteral {c : Class} {l : Literal} (hc : c ∈ m.classes) (henumeration : c.isEnumeration = true)
      (hl : l ∈ c.literals) : DeclaresPlainly m l.label
  | ofRelation {r : Relation} (hr : r ∈ m.relations) (hnamed : r.label.isNamed = true)
      (hfield : m.holdsBetweenDatatypes r = true ∨ m.isField r = true) : DeclaresPlainly m r.label
  | ofAttribute {c : Class} {p : Property} (hp : (.ofClass c, p) ∈ m.properties)
      (hfield : c.isDatatype = true ∨ m.isFieldAttribute c p = true) : DeclaresPlainly m p.label

/-- Elements that are declared plainly have labels in the model. -/
theorem DeclaresPlainly.mem_labels {l : Label} (h : m.DeclaresPlainly l) : l ∈ m.labels := by
  cases h with
  | ofLiteral hc henumeration hl => exact label_mem_of_mem_literals hc hl
  | ofRelation hr => exact label_mem_of_mem_relations hr
  | ofAttribute hp => exact label_mem_of_mem_properties hp

/-- None of them is a class. -/
theorem DeclaresPlainly.kind_ne {l : Label} (h : m.DeclaresPlainly l) : l.kind ≠ .klass := by
  cases h <;> exact nofun

section

variable (hid : m.ids.Nodup)
include hid

/-- None of them shares its id with a class. -/
theorem DeclaresPlainly.id_ne {l : Label} (h : m.DeclaresPlainly l) {c : Class}
    (hc : c ∈ m.classes) : l.id ≠ c.id := by
  intro heq
  have hlabel := eq_of_mem_labels hid h.mem_labels (label_mem_of_mem_classes hc) heq
  exact h.kind_ne (congrArg Label.kind hlabel)

end

/-! ## Claims of built-in words -/

section

variable (hw : isBuiltin w = true)
include hw

/-- A key is called by a built-in word exactly if it is the own key of the first element to claim
the word. -/
theorem of_eq_iff_firstClaim (k : Key) :
    m.names.of k = w ↔ ∃ id, k = .own id ∧ m.firstClaim w = some id := by
  rw [← given?_iff_firstClaim (Identifier.isUnnumbered_of_isBuiltin hw)]
  constructor
  · intro h
    cases hk : m.registry.given? k with
    | some u =>
      rw [← h]
      exact congrArg some (Registry.view_of hk).symm
    | none =>
      -- a key without an identifier would be called by the empty word
      have hempty : m.names.of k = "" := Registry.view_of_none hk
      have hnot : isBuiltin "" ≠ true := by decide +kernel
      rw [← h, hempty] at hw
      exact absurd hw hnot
  · exact Registry.view_of

/-- No alias is a built-in word, as these go to names. -/
theorem alias_ne_of_isBuiltin (id : ElementId) : m.names.alias id ≠ w := by
  intro h
  obtain ⟨id', heq, -⟩ := (of_eq_iff_firstClaim hw (.byname id)).mp h
  cases heq

/-- An element is called by a built-in word exactly if it is the first to claim it. -/
theorem own_eq_iff_firstClaim (id : ElementId) : m.names.own id = w ↔ m.firstClaim w = some id := by
  constructor
  · intro h
    obtain ⟨id', heq, hfirst⟩ := (of_eq_iff_firstClaim hw (.own id)).mp h
    rw [Key.own.inj heq, hfirst]
  · intro h
    exact (of_eq_iff_firstClaim hw (.own id)).mpr ⟨id, rfl, h⟩

/-- A relation is so called by its field if it has a name and is the first to claim the word. -/
theorem fieldName_eq_iff_firstClaim (r : Relation) :
    r.fieldName m.names = w ↔ r.label.isNamed = true ∧ m.firstClaim w = some r.id := by
  rw [Relation.fieldName]
  split
  · next hnamed => rw [own_eq_iff_firstClaim hw, hnamed, eq_self_iff_true, true_and]
  · -- a relation without a name goes by an alias, which is no built-in word
    next hnamed =>
    constructor
    · intro h
      exact absurd h (alias_ne_of_isBuiltin hw r.id)
    · intro h
      exact absurd h.1 hnamed

/-- Whoever is called by a built-in word wants it. -/
theorem base_eq_of_firstClaim (hid : m.ids.Nodup) {l : Label} (hl : l ∈ m.labels)
    (h : m.firstClaim w = some l.id) : l.base = w := by
  obtain ⟨l', hl', heq, hbase⟩ := isLabelled_of_mem_requests (Request.mem_of_firstClaim h).1
  obtain rfl := eq_of_mem_labels hid hl' hl heq
  rcases hbase with hbase | hbase
  · exact hbase.symm
  · exact absurd hbase.symm (l'.declaredBase_ne_of_isBuiltin hw)

/-- Classes are named first of all, and those declared by their own name avoid the word. -/
theorem hasDatatypeEntry_of_firstClaim (hid : m.ids.Nodup) {c : Class} (hc : c ∈ m.classes)
    (hsignature : c.hasSignature = true) (h : m.firstClaim w = some c.id) :
    c.hasDatatypeEntry = true := by
  obtain ⟨later, hlater⟩ := exists_tasks_eq m
  obtain ⟨base, hnamed⟩ := Class.exists_mem_requests_step hsignature
  have hmem : .name c.id base ∈ m.requestsOf (m.classes.map .klass) :=
    List.mem_flatMap.mpr ⟨.klass c, List.mem_map_of_mem hc, hnamed⟩
  -- the requests of classes come first, so the first claim is among them
  rw [firstClaim, requests, requestsOf, hlater, List.flatMap_append] at h
  obtain ⟨t, ht, hq⟩ := List.mem_flatMap.mp (Request.mem_of_firstClaim_append h hmem)
  obtain ⟨d, hd, rfl⟩ := List.mem_map.mp ht
  rcases Class.mem_requests_step hq with ⟨hentry, heq⟩ | heq | ⟨l, hl, heq⟩
  · -- the request is for a datatype, which is the class itself
    have hhas : m.Has (.ofClass c) := hc
    have hhas' : m.Has (.ofClass d) := hd
    cases eq_of_has hid hhas hhas' (Request.name.inj heq).1
    exact hentry
  · exact absurd (Request.name.inj heq).2.symm (d.label.declaredBase_ne_of_isBuiltin hw)
  · -- a literal with the id of a class would be this class
    have hlabel := eq_of_mem_labels hid (label_mem_of_mem_literals hd hl)
      (label_mem_of_mem_classes hc) (Request.name.inj heq).1.symm
    have hkind : ElementKind.literal = .klass := congrArg Label.kind hlabel
    cases hkind

end

/-! ## Declared identifiers -/

section

variable (hok : ∀ t ∈ m.tasks, (m.stepOf t).failure = none)
include hok

/-- An `enum` is declared by an enumeration with literals. -/
theorem mem_enumerations_fragments_iff {e : Enumeration} :
    .enumeration e ∈ m.fragments ↔ ∃ c ∈ m.classes, c.isEnumeration = true ∧ c.literals ≠ [] ∧
      e = ⟨m.names.own c.id, c.literals.map fun l => m.names.own l.id⟩ := by
  constructor
  · -- only the task on an enumeration emits an `enum`
    intro h
    obtain ⟨t, ht, hf⟩ := mem_fragments_iff.mp h
    have hemits := (takes_of_mem_tasks hok ht).emits (isOf_of_mem_tasks ht) hf
    generalize (m.stepOf t).requests = requests at hemits
    cases hemits with
    | @enumeration c hc hvalue =>
      -- a datatype, or an enumeration without literals, is a signature
      have hentry : c.hasDatatypeEntry = false := by
        rw [Bool.eq_false_iff]
        intro hentry
        have hstep : m.stepOf (.klass c) = c.datatypeStep := if_pos hentry
        rw [hstep] at hf
        cases List.mem_singleton.mp hf
      rw [Class.hasDatatypeEntry, Bool.or_eq_false_iff] at hentry
      have henumeration : c.isEnumeration = true := by
        rwa [Class.isValueType, hentry.1, Bool.false_or] at hvalue
      refine ⟨c, hc, henumeration, ?_, rfl⟩
      rintro hliterals
      rw [henumeration, hliterals] at hentry
      cases hentry.2
  · rintro ⟨c, hc, henumeration, hliterals, rfl⟩
    refine mem_fragments_iff.mpr ⟨.klass c, mem_tasks_of_mem_classes hc, ?_⟩
    show _ ∈ c.step.fragments m.names
    rw [Class.step_of_literals henumeration hliterals]
    exact List.mem_cons_self

/-- The world fields are those of classes, relations and attributes. -/
theorem mem_worldFields_names_iff :
    w ∈ (Sections.ofFragments m.fragments).worldFields.map (·.name) ↔
      (∃ c ∈ m.classes, c.hasWorldField = true ∧ m.names.own c.id = w) ∨
        (∃ r ∈ m.relations, m.isField r = true ∧ r.fieldName m.names = w) ∨
        ∃ c p, (.ofClass c, p) ∈ m.properties ∧ m.isFieldAttribute c p = true ∧
          m.names.own p.id = w := by
  have hattribute : ∀ c p, (c, p) ∈ m.attributes ↔ (.ofClass c, p) ∈ m.properties := by
    intro c p
    simp [properties]
  rw [worldFields_names, entries_fragments hok, fields_entries, List.append_assoc, List.mem_append,
    List.mem_append]
  simp only [fieldClasses, fieldRelations, fieldAttributes, List.mem_map, List.mem_filter,
    Prod.exists, hattribute, and_assoc]

/-- No accessor is called by a built-in word. -/
theorem not_mem_accessors_names (hw : isBuiltin w = true) :
    w ∉ (Sections.ofFragments m.fragments).accessors.map (·.name) := by
  rw [accessors_names, entries_fragments hok, accessors_entries, List.mem_append]
  rintro (h | h)
  all_goals
    obtain ⟨a, -, ha⟩ := List.mem_map.mp h
    exact alias_ne_of_isBuiltin hw _ ha

variable (hw : isBuiltin w = true)
include hw

/-- An inline field of the name is printed, if its datatype is not called so as well. -/
theorem mem_identifiers_of_declaresInline {k : Key} {c : Class} {f : InlineField}
    (h : m.DeclaresInline m.names k c f) (hname : f.name = w) (howner : m.names.own c.id ≠ w) :
    w ∈ (Sections.ofFragments m.fragments).identifiers := by
  have hbuiltin : isBuiltin (m.names.own c.id) = false := by
    rw [Bool.eq_false_iff]
    intro hc
    exact howner ((Identifier.isBuiltin_iff.mp hc).trans (Identifier.isBuiltin_iff.mp hw).symm)
  have hprinted := (mem_printedFields_iff hok).mpr ⟨hbuiltin, k, c, h, rfl⟩
  have hmem := Sections.mem_datatypes_identifiers_iff.mpr (Or.inr ⟨_, hprinted, hname⟩)
  rw [Sections.identifiers]
  exact List.mem_append_left _ (List.mem_append_right _ hmem)

variable (hid : m.ids.Nodup)
include hid

/-- Whatever element a declared built-in word comes from, it does not avoid the word. -/
theorem exists_declaresPlainly (h : w ∈ (Sections.ofFragments m.fragments).identifiers) :
    ∃ l, m.DeclaresPlainly l ∧ m.firstClaim w = some l.id := by
  -- a class declared by its own name is not called by the word
  have hclass : ∀ c ∈ m.classes, c.hasSignature = true → c.hasDatatypeEntry = false →
      m.names.own c.id ≠ w := by
    intro c hc hsignature hentry hname
    rw [own_eq_iff_firstClaim hw] at hname
    rw [hasDatatypeEntry_of_firstClaim hw hid hc hsignature hname] at hentry
    cases hentry
  -- the identifiers of a module: fixed words, world fields, enumerations, datatypes, accessors
  simp only [Sections.identifiers, List.mem_append] at h
  rcases h with (((h | h) | h) | h) | h
  · exact absurd h (Identifier.not_mem_declaredWords_of_isBuiltin hw)
  · rcases (mem_worldFields_names_iff hok).mp h with
      ⟨c, hc, hfield, hname⟩ | ⟨r, hr, hfield, hname⟩ | ⟨c, p, hp, hfield, hname⟩
    · -- a class with a world field avoids the word
      obtain ⟨base, hbase⟩ := Option.isSome_iff_exists.mp hfield
      have hsignature : c.hasSignature = true := by rw [Class.hasSignature, hfield, Bool.or_true]
      exact absurd hname (hclass c hc hsignature (hasDatatypeEntry_of_base? hbase))
    · obtain ⟨hnamed, hfirst⟩ := (fieldName_eq_iff_firstClaim hw r).mp hname
      exact ⟨_, .ofRelation hr hnamed (Or.inr hfield), hfirst⟩
    · exact ⟨_, .ofAttribute hp (Or.inr hfield), (own_eq_iff_firstClaim hw _).mp hname⟩
  · obtain ⟨e, he, hmem⟩ := List.mem_flatMap.mp h
    obtain ⟨c, hc, henumeration, hliterals, rfl⟩ :=
      (mem_enumerations_fragments_iff hok).mp (mem_enumerations_iff.mp he)
    rcases List.mem_cons.mp hmem with hname | hmem
    · have hentry : c.hasDatatypeEntry = false := by
        rw [Class.hasDatatypeEntry, Class.isDatatype_of_isEnumeration henumeration, Bool.false_or,
          List.isEmpty_eq_false_iff.mpr hliterals, Bool.and_false]
      have hsignature : c.hasSignature = true := by
        rw [Class.hasSignature, Class.isValueType, henumeration, Bool.or_true, Bool.true_or]
      exact absurd hname.symm (hclass c hc hsignature hentry)
    · obtain ⟨l, hl, hname⟩ := List.mem_map.mp hmem
      exact ⟨_, .ofLiteral hc henumeration hl, (own_eq_iff_firstClaim hw _).mp hname⟩
  · rcases Sections.mem_datatypes_identifiers_iff.mp h with ⟨d, hd, rfl⟩ | ⟨⟨u, f⟩, hf, rfl⟩
    · obtain ⟨hd, hdeclared⟩ := List.mem_filter.mp hd
      rw [isDeclared_eq_of_mem_datatypes hok hd, hw] at hdeclared
      cases hdeclared
    · obtain ⟨-, k, c, hdeclares, -⟩ := (mem_printedFields_iff hok).mp hf
      cases hdeclares with
      | @ofRelation r e c hr hdatatypes =>
        obtain ⟨hnamed, hfirst⟩ := (fieldName_eq_iff_firstClaim hw r).mp rfl
        exact ⟨_, .ofRelation hr hnamed (Or.inl hdatatypes), hfirst⟩
      | @ofAttribute c p v k hp hdatatype =>
        exact ⟨_, .ofAttribute hp (Or.inl hdatatype), (own_eq_iff_firstClaim hw _).mp rfl⟩
  · exact absurd h (not_mem_accessors_names hok hw)

/-- An element that does not avoid built-in words declares the one that it claims first. -/
theorem DeclaresPlainly.mem_identifiers {l : Label} (h : m.DeclaresPlainly l)
    (hfirst : m.firstClaim w = some l.id) :
    w ∈ (Sections.ofFragments m.fragments).identifiers := by
  have hname : m.names.own l.id = w := (own_eq_iff_firstClaim hw _).mpr hfirst
  -- the owner of a field is another element, so it is called otherwise
  have howner : ∀ c ∈ m.classes, m.names.own c.id ≠ w := by
    intro c hc hown
    rw [own_eq_iff_firstClaim hw, hfirst, Option.some.injEq] at hown
    exact h.id_ne hid hc hown
  have hfield : w ∈ (Sections.ofFragments m.fragments).worldFields.map (·.name) →
      w ∈ (Sections.ofFragments m.fragments).identifiers := by
    intro hmem
    simp only [Sections.identifiers, List.mem_append]
    exact Or.inl (Or.inl (Or.inl (Or.inr hmem)))
  -- each kind of element is found in its own section
  cases h with
  | @ofLiteral c l hc henumeration hl =>
    have he := (mem_enumerations_fragments_iff hok).mpr
      ⟨c, hc, henumeration, List.ne_nil_of_mem hl, rfl⟩
    have hmem : w ∈ (Sections.ofFragments m.fragments).enumerations.flatMap
        Enumeration.identifiers := by
      refine List.mem_flatMap.mpr ⟨_, mem_enumerations_iff.mpr he, List.mem_cons_of_mem _ ?_⟩
      exact List.mem_map.mpr ⟨l, hl, hname⟩
    simp only [Sections.identifiers, List.mem_append]
    exact Or.inl (Or.inl (Or.inr hmem))
  | @ofRelation r hr hnamed hshape =>
    have hfieldName : r.fieldName m.names = w :=
      (fieldName_eq_iff_firstClaim hw r).mpr ⟨hnamed, hfirst⟩
    rcases hshape with hdatatypes | hworld
    · obtain ⟨c, f, hsource, hdeclares⟩ := exists_inlineField_of_relation hok hr hdatatypes
      have hc : m.Has (.ofClass c) := has_of_sourceOf hsource
      refine mem_identifiers_of_declaresInline hok hw hdeclares ?_ (howner c hc)
      rw [hdeclares.name_eq, ← r.fieldName_eq, hfieldName]
    · refine hfield ((mem_worldFields_names_iff hok).mpr ?_)
      exact Or.inr (Or.inl ⟨r, hr, hworld, hfieldName⟩)
  | @ofAttribute c p hp hshape =>
    rcases hshape with hdatatype | hworld
    · obtain ⟨f, hdeclares⟩ := exists_inlineField_of_attribute hok hp hdatatype
      have hc : m.Has (.ofClass c) := has_of_mem_properties hp
      refine mem_identifiers_of_declaresInline hok hw hdeclares ?_ (howner c hc)
      rw [hdeclares.name_eq]
      exact hname
    · refine hfield ((mem_worldFields_names_iff hok).mpr ?_)
      exact Or.inr (Or.inr ⟨c, p, hp, hworld, hname⟩)

/-- A class that is called by a built-in word is not declared, but its signature is listed. -/
theorem exists_datatype_of_firstClaim {c : Class} (hc : c ∈ m.classes)
    (hsignature : c.hasSignature = true) (h : m.firstClaim w = some c.id) :
    ∃ d ∈ (Sections.ofFragments m.fragments).datatypes, d.name = w ∧ d.isDeclared = false := by
  have hname : m.names.own c.id = w := (own_eq_iff_firstClaim hw _).mpr h
  have hstep : c.step = c.datatypeStep :=
    if_pos (hasDatatypeEntry_of_firstClaim hw hid hc hsignature h)
  -- the task on the class is the one on a datatype, so a header of this name is gathered
  have hmem : .datatype w (!isBuiltin w) ∈ m.fragments := by
    refine mem_fragments_iff.mpr ⟨.klass c, mem_tasks_of_mem_classes hc, ?_⟩
    show _ ∈ c.step.fragments m.names
    rw [hstep, ← hname]
    exact List.mem_cons_self
  obtain ⟨b, hb⟩ := exists_mem_headers_foldl hmem []
  obtain ⟨d, hd, hheader⟩ := List.mem_map.mp hb
  have hdname : d.name = w := congrArg Prod.fst hheader
  refine ⟨d, hd, hdname, ?_⟩
  rw [isDeclared_eq_of_mem_datatypes hok hd, hdname, hw]
  rfl

end

/-- **Built-in words.** In the module of a model with distinct ids, a built-in word is given to the
first element that claims it, and to nothing else. It is declared if and only if this is a literal,
or a relation or an attribute with a field. If it is a class with a signature, then it is a datatype
or an enumeration without literals, and the module lists it without declaring it. -/
theorem declares_builtin_iff {s : Sections} (hid : m.ids.Nodup) (h : m.encoding = .ok s)
    (hw : isBuiltin w = true) :
    (∀ k, m.registry.given? k = some w ↔ ∃ id, k = .own id ∧ m.firstClaim w = some id) ∧
      (w ∈ s.identifiers ↔
        ∃ l, m.DeclaresPlainly l ∧ l.base = w ∧ m.firstClaim w = some l.id) ∧
      ∀ c ∈ m.classes, m.firstClaim w = some c.id →
        w ∉ s.identifiers ∧ (c.hasSignature = true → c.hasDatatypeEntry = true ∧
          ∃ d ∈ s.datatypes, d.name = w ∧ d.isDeclared = false) := by
  obtain ⟨rfl, hok⟩ := encoding_ok hid h
  refine ⟨given?_iff_firstClaim (Identifier.isUnnumbered_of_isBuiltin hw), ⟨?_, ?_⟩, ?_⟩
  · -- whatever declares the word claims it first
    intro hmem
    obtain ⟨l, hplain, hfirst⟩ := exists_declaresPlainly hok hw hid hmem
    exact ⟨l, hplain, base_eq_of_firstClaim hw hid hplain.mem_labels hfirst, hfirst⟩
  · -- and whoever claims it first, and does not avoid it, declares it
    rintro ⟨l, hplain, -, hfirst⟩
    exact hplain.mem_identifiers hok hw hid hfirst
  · -- a class does not declare the word, and lists it if it has a signature
    intro c hc hfirst
    refine ⟨fun hmem => ?_, fun hsignature =>
      ⟨hasDatatypeEntry_of_firstClaim hw hid hc hsignature hfirst,
        exists_datatype_of_firstClaim hok hw hid hc hsignature hfirst⟩⟩
    -- another element would have claimed the word first
    obtain ⟨l, hplain, hfirst'⟩ := exists_declaresPlainly hok hw hid hmem
    rw [hfirst, Option.some.injEq] at hfirst'
    exact hplain.id_ne hid hc hfirst'.symm

/-- A letter has a date, which is called like texts are. -/
def letterDate : Property where
  id := ⟨"sent"⟩
  name := some "String"
  type := some ⟨"date"⟩
  cardinality := "1"

/-- Letters are the owners of the attribute. -/
def letter : Class where
  id := ⟨"letter"⟩
  name := some "Letter"
  stereotype := some .kind
  attributes := [letterDate]

/-- Two classes, the letters and the type of their dates. -/
def letters : Model where
  classes := [letter, { id := ⟨"date"⟩, name := some "Date", stereotype := some .datatype }]

/-- The attribute is the first to claim the built-in word. -/
theorem letters_firstClaim : letters.firstClaim "String" = some ⟨"sent"⟩ := by
  decide +kernel

/-- The attribute claims the word, and is a world field. -/
theorem letters_declares_builtin_iff : letters.ids.Nodup ∧ isBuiltin "String" = true ∧
    ∃ s, letters.encoding = .ok s ∧ "String" ∈ s.identifiers ∧
      letters.registry.given? (.own ⟨"sent"⟩) = some "String" := by
  have hid : letters.ids.Nodup := by decide +kernel
  have hw : isBuiltin "String" = true := by decide +kernel
  obtain ⟨s, hs⟩ := exists_encoding_of_isOk (m := letters) (by decide +kernel)
  obtain ⟨hgiven, hdeclares, -⟩ := declares_builtin_iff hid hs hw
  have hattribute : letters.isFieldAttribute letter letterDate = true := by decide +kernel
  have hplain : letters.DeclaresPlainly letterDate.label :=
    .ofAttribute List.mem_cons_self (Or.inr hattribute)
  have hbase : letterDate.label.base = "String" := by decide +kernel
  exact ⟨hid, hw, s, hs, hdeclares.mpr ⟨_, hplain, hbase, letters_firstClaim⟩,
    (hgiven _).mpr ⟨_, rfl, letters_firstClaim⟩⟩

/-- So built-in words are declared again in some modules. -/
theorem not_forall_not_isBuiltin :
    ¬ ∀ (m : Model) (s : Sections), m.ids.Nodup → m.encoding = .ok s →
      ∀ w ∈ s.identifiers, isBuiltin w = false := by
  intro h
  have hid : letters.ids.Nodup := by decide +kernel
  have hw : isBuiltin "String" = true := by decide +kernel
  obtain ⟨s, hs⟩ := exists_encoding_of_isOk (m := letters) (by decide +kernel)
  have hmem : "String" ∈ s.identifiers := by
    have hsections : s = Sections.ofFragments letters.fragments := (encoding_ok hid hs).1
    rw [hsections]
    decide +kernel
  rw [h letters s hid hs "String" hmem] at hw
  cases hw

end Model

end OntoWorlds
