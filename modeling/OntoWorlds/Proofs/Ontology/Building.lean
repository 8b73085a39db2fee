import Mathlib.Data.List.Nodup
import OntoWorlds.Ontology.Construction
import OntoWorlds.Proofs.Identifier.Numbered

/-!
# OntoWorlds — ids of models that are built by additions

Only the ids of elements that stand for themselves are searched for; the ids of attributes, literals
and relation ends are derived from their owner and a number. In a model that was built from nothing
the derived ids are new all the same: a number is never given twice below one owner, and the first
two words of an id name its owner.

* `Model.Built` — the shape of all ids of a model, kept by every addition (`Model.Built.add`).
* `Model.Built.nodup_ids` — ids of this shape are pairwise distinct.
* `nodup_ids_build` — after any additions the ids are distinct, and the next addition returns an
  id that the model did not have.
-/

namespace OntoWorlds

/-! ## Additions -/

/-- A call that adds an element, with its arguments. -/
inductive Addition
  | klass (name : String) (stereotype : Option ClassStereotype)
  | kind (name : String)
  | datatype (name : String)
  | enumeration (name : String) (literals : List String)
  | relation (source target : ElementId) (stereotype : Option RelationStereotype)
  | material (name : String) (source target : ElementId)
  | attributeOf (owner : ElementId) (name : String) (type : ElementId)
  | generalization (general specific : ElementId)
  | generalizationSet (members : List ElementId) (isDisjoint isComplete : Bool)
deriving DecidableEq, Repr

/-- The kind of id that a call searches for. The id of an attribute is not searched for. -/
def Addition.searches? : Addition → Option ElementKind
  | .klass .. | .kind .. | .datatype .. | .enumeration .. => some .klass
  | .relation .. | .material .. => some .relation
  | .attributeOf .. => none
  | .generalization .. => some .generalization
  | .generalizationSet .. => some .generalizationSet

namespace Model

/-- The id that a call returns, and the model after it. An attribute of a class that the model does
not have is not added. -/
def add (m : Model) : Addition → Option ElementId × Model
  | .klass name stereotype => (m.addClass name stereotype).map some id
  | .kind name => (m.addKind name).map some id
  | .datatype name => (m.addDatatype name).map some id
  | .enumeration name literals => (m.addEnumeration name literals).map some id
  | .relation source target stereotype => (m.addRelation none source target stereotype).map some id
  | .material name source target => (m.addMaterial name source target).map some id
  | .attributeOf owner name type =>
    match m.addAttribute owner name type with
    | some (id, m) => (some id, m)
    | none => (none, m)
  | .generalization general specific => (m.addGeneralization general specific).map some id
  | .generalizationSet members isDisjoint isComplete =>
    (m.addGeneralizationSet members isDisjoint isComplete).map some id

/-- The model after some calls, one after the other. -/
def build (m : Model) (calls : List Addition) : Model :=
  calls.foldl (fun m call => (m.add call).2) m

end Model

/-! ## The words of an id -/

/-- The parts of an id between its hyphens. -/
def ElementId.words (id : ElementId) : List (List Char) := id.text.toList.splitOn '-'

namespace Model

/-- Parts with different names have different ids below their owner. -/
theorem partId_injective (owner : ElementId) : Function.Injective (partId owner) := by
  intro part part' h
  simpa [partId] using h

/-- The words of a part are those of its owner and those of its name. -/
theorem words_partId (owner : ElementId) (part : String) :
    (partId owner part).words = owner.words ++ part.toList.splitOn '-' := by
  have htext : (partId owner part).text.toList = owner.text.toList ++ '-' :: part.toList := by
    simp [partId]
  rw [ElementId.words, htext]
  exact List.splitOnP_append_cons _ _ (by decide)

/-- A numbered id has two words, the tag of its kind and its number. -/
theorem words_numberedId (kind : ElementKind) (n : Nat) :
    (numberedId kind n).words = [kind.tag.toList, Nat.toDigits 10 n] := by
  have htag : (⟨kind.tag⟩ : ElementId).words = [kind.tag.toList] := by cases kind <;> decide
  -- neither the tag nor the numeral has a hyphen in it
  have hdigits : '-' ∉ Nat.toDigits 10 n := fun h =>
    absurd (Identifier.isDigit_of_mem_digits h) (by decide)
  have hpart := words_partId ⟨kind.tag⟩ (toString n)
  rw [htag, Nat.toString_eq_ofList_toDigits, String.toList_ofList,
    List.splitOn_eq_singleton hdigits] at hpart
  exact hpart

/-- The words of a numbered id tell its kind and its number. -/
theorem eq_of_words_numberedId_eq {kind kind' : ElementKind} {n n' : Nat}
    (h : (numberedId kind n).words = (numberedId kind' n').words) : kind = kind' ∧ n = n' := by
  rw [words_numberedId, words_numberedId] at h
  simp only [List.cons.injEq, and_true] at h
  obtain ⟨htag, hdigits⟩ := h
  refine ⟨?_, Identifier.digits_injective hdigits⟩
  revert htag
  -- the tags of the kinds are different words
  cases kind <;> cases kind' <;> decide

/-- Different numbers make different ids. -/
theorem numberedId_injective (kind : ElementKind) : Function.Injective (numberedId kind) :=
  fun _ _ h => (eq_of_words_numberedId_eq (congrArg ElementId.words h)).2

/-! ## Fresh ids -/

/-- Among one more number than there are ids, one is free. -/
theorem exists_free_number (m : Model) (kind : ElementKind) :
    ∃ k, m.firstNumber ≤ k ∧ k ≤ m.firstNumber + m.ids.length ∧
      m.containsId (numberedId kind k) = false := by
  obtain ⟨k, hle, hk, hfree⟩ :=
    Identifier.exists_not_mem_of_injective (numberedId_injective kind) m.ids m.firstNumber
  refine ⟨k, hle, hk, ?_⟩
  rw [containsId, List.contains_eq_mem, decide_eq_false_iff_not]
  exact hfree

/-- As many numbers are tried as there are ids, so one of them is free. -/
theorem freshId_not_mem (m : Model) (kind : ElementKind) : m.freshId kind ∉ m.ids := by
  obtain ⟨k, hle, hk, hfree⟩ := m.exists_free_number kind
  have hfirst : m.containsId (m.freshId kind) = false :=
    -- the search stops there at the latest
    @not_taken_firstFree (fun n => m.containsId (numberedId kind n)) _ _ _ hle hk hfree
  simpa [containsId] using hfirst

/-- A fresh id is a numbered one. -/
theorem exists_freshId_eq (m : Model) (kind : ElementKind) :
    ∃ n, m.freshId kind = numberedId kind n := ⟨_, rfl⟩

/-! ## The shape of the ids -/

/-- The names of numbered parts, numbered from one. -/
def numberedParts (tag : String) (count : Nat) : List String :=
  (List.range' 1 count).map fun n => tag ++ toString n

/-- One more part has the next number. -/
theorem numberedParts_succ (tag : String) (count : Nat) :
    numberedParts tag (count + 1) = numberedParts tag count ++ [tag ++ toString (count + 1)] := by
  simp [numberedParts, List.range'_concat, Nat.add_comm]

/-- Numbered parts have different names. -/
theorem nodup_numberedParts (tag : String) (count : Nat) : (numberedParts tag count).Nodup :=
  (List.nodup_range' _).map (Identifier.numbered_injective tag)

/-- The literals are numbered from the first one on. -/
theorem map_id_numberedLiterals (owner : ElementId) (n : Nat) (names : List String) :
    (numberedLiterals owner n names).map (·.id)
      = (List.range' n names.length).map fun k => partId owner ("literal-" ++ toString k) := by
  induction names generalizing n with
  | nil => rfl
  | cons name names ih => simp [numberedLiterals, ih, List.range'_succ]

end Model

/-- The class has a numbered id, and its attributes and literals are numbered below it. -/
structure Class.Built (c : Class) : Prop where
  id : ∃ n, c.id = Model.numberedId .klass n
  attributes : c.attributes.map (·.id)
    = (Model.numberedParts "attribute-" c.attributes.length).map (Model.partId c.id)
  literals : c.literals.map (·.id)
    = (Model.numberedParts "literal-" c.literals.length).map (Model.partId c.id)

/-- Another attribute keeps the shape of a class, if it has the next number. -/
theorem Class.Built.concat_attribute {c : Class} (h : c.Built) {p : Property}
    (hp : p.id = Model.attributeId c) :
    ({ c with attributes := c.attributes ++ [p] } : Class).Built where
  id := h.id
  attributes := by
    rw [List.map_append, h.attributes, List.length_append, List.length_singleton,
      Model.numberedParts_succ, List.map_append, List.map_singleton, List.map_singleton, hp]
    rfl
  literals := h.literals

/-- The relation has a numbered id and two ends that are told apart by their role. -/
structure Relation.Built (r : Relation) : Prop where
  id : ∃ n, r.id = Model.numberedId .relation n
  ends : r.ends.map (·.id) = ["source", "target"].map (Model.partId r.id)

namespace Model

/-- Every id has the shape that additions give it, and no two elements of one kind that stand for
themselves share an id. -/
structure Built (m : Model) : Prop where
  classes : ∀ c ∈ m.classes, c.Built
  relations : ∀ r ∈ m.relations, r.Built
  generalizations : ∀ g ∈ m.generalizations, ∃ n, g.id = numberedId .generalization n
  generalizationSets : ∀ s ∈ m.generalizationSets, ∃ n, s.id = numberedId .generalizationSet n
  nodup_classes : (m.classes.map (·.id)).Nodup
  nodup_relations : (m.relations.map (·.id)).Nodup
  nodup_generalizations : (m.generalizations.map (·.id)).Nodup
  nodup_generalizationSets : (m.generalizationSets.map (·.id)).Nodup

variable {m : Model}

/-! ## Distinct ids -/

/-- The elements that stand for themselves, each with the names of its parts. -/
def families (m : Model) : List (ElementId × List String) :=
  m.classes.map (fun c => (c.id, numberedParts "attribute-" c.attributes.length
      ++ numberedParts "literal-" c.literals.length))
    ++ m.relations.map (fun r => (r.id, ["source", "target"]))
    ++ m.generalizations.map (fun g => (g.id, []))
    ++ m.generalizationSets.map (fun s => (s.id, []))

/-- The ids of an element and of its parts. -/
def familyIds (f : ElementId × List String) : List ElementId := f.1 :: f.2.map (partId f.1)

/-- The ids of a built model are those of its families. -/
theorem Built.ids_eq (h : m.Built) : m.ids = m.families.flatMap familyIds := by
  -- the parts of a class are those that its shape tells, and so are those of a relation
  have hclasses : m.classes.flatMap (fun c =>
        c.id :: c.attributes.map (·.id) ++ c.literals.map (·.id))
      = m.classes.flatMap (fun c => familyIds (c.id,
        numberedParts "attribute-" c.attributes.length
          ++ numberedParts "literal-" c.literals.length)) := by
    refine List.flatMap_congr fun c hc => ?_
    rw [(h.classes c hc).attributes, (h.classes c hc).literals, familyIds, List.map_append]
    rfl
  have hrelations : m.relations.flatMap (fun r => r.id :: r.ends.map (·.id))
      = m.relations.flatMap (fun r => familyIds (r.id, ["source", "target"])) := by
    refine List.flatMap_congr fun r hr => ?_
    rw [(h.relations r hr).ends, familyIds]
  rw [ids, hclasses, hrelations, families]
  simp only [List.flatMap_append, List.flatMap_map, familyIds, List.map_nil,
    ← List.map_eq_flatMap]

/-- The attributes of a class are told apart from its literals by their first letter. -/
theorem nodup_classParts (a l : Nat) :
    (numberedParts "attribute-" a ++ numberedParts "literal-" l).Nodup := by
  -- the two kinds of parts are told apart by the letter that their names begin with
  refine List.nodup_append.mpr ⟨nodup_numberedParts _ _, nodup_numberedParts _ _, ?_⟩
  intro x hx y hy hxy
  obtain ⟨i, -, rfl⟩ := List.mem_map.mp hx
  obtain ⟨j, -, rfl⟩ := List.mem_map.mp hy
  have hhead := congrArg (fun w : String => w.toList.head?) hxy
  simp [String.toList_append] at hhead

/-- The parts of an element have different names. -/
theorem nodup_parts_of_mem_families {f : ElementId × List String} (hf : f ∈ m.families) :
    f.2.Nodup := by
  simp only [families, List.mem_append, List.mem_map] at hf
  obtain ((⟨c, -, rfl⟩ | ⟨r, -, rfl⟩) | ⟨g, -, rfl⟩) | ⟨s, -, rfl⟩ := hf
  · exact nodup_classParts _ _
  · show ["source", "target"].Nodup
    decide
  · exact List.nodup_nil
  · exact List.nodup_nil

/-- The first two words of every id in a family name the element. -/
theorem take_words_of_mem_familyIds {f : ElementId × List String} {kind : ElementKind} {n : Nat}
    (hf : f.1 = numberedId kind n) {id : ElementId} (hid : id ∈ familyIds f) :
    id.words.take 2 = f.1.words := by
  have htwo : f.1.words.length = 2 := by rw [hf, words_numberedId]; rfl
  rcases List.mem_cons.mp hid with rfl | hpart
  · rw [List.take_of_length_le htwo.le]
  · obtain ⟨part, -, rfl⟩ := List.mem_map.mp hpart
    rw [words_partId, List.take_append_of_le_length htwo.ge, List.take_of_length_le htwo.le]

/-- The ids of an element and of its parts are distinct. -/
theorem nodup_familyIds {f : ElementId × List String} (hf : f.2.Nodup) :
    (familyIds f).Nodup := by
  refine List.nodup_cons.mpr ⟨?_, hf.map (partId_injective f.1)⟩
  intro hmem
  obtain ⟨part, -, hpart⟩ := List.mem_map.mp hmem
  -- a part has more words than its owner
  have hlength := congrArg (fun id => id.words.length) hpart
  rw [words_partId, List.length_append] at hlength
  have hpos := List.length_pos_iff.mpr (List.splitOn_ne_nil '-' part.toList)
  omega

/-- The elements that stand for themselves have numbered ids. -/
theorem Built.numbered (h : m.Built) {f : ElementId × List String} (hf : f ∈ m.families) :
    ∃ kind n, f.1 = numberedId kind n := by
  -- one case for each of the four lists
  simp only [families, List.mem_append, List.mem_map] at hf
  obtain ((⟨c, hc, rfl⟩ | ⟨r, hr, rfl⟩) | ⟨g, hg, rfl⟩) | ⟨s, hs, rfl⟩ := hf
  · exact ⟨_, (h.classes c hc).id⟩
  · exact ⟨_, (h.relations r hr).id⟩
  · exact ⟨_, h.generalizations g hg⟩
  · exact ⟨_, h.generalizationSets s hs⟩

/-- Elements of different kinds have different tags in their ids. -/
theorem Built.nodup_owners (h : m.Built) : (m.families.map (·.1)).Nodup := by
  have hmap : m.families.map (·.1) = m.classes.map (·.id) ++ m.relations.map (·.id)
      ++ m.generalizations.map (·.id) ++ m.generalizationSets.map (·.id) := by
    simp [families, Function.comp_def]
  -- ids of two kinds differ in their tags
  have hne {kind kind' : ElementKind} (hk : kind ≠ kind') {id id' : ElementId}
      (hid : ∃ n, id = numberedId kind n) (hid' : ∃ n, id' = numberedId kind' n) : id ≠ id' := by
    rintro rfl
    obtain ⟨n, hn⟩ := hid
    obtain ⟨n', hn'⟩ := hid'
    exact hk (eq_of_words_numberedId_eq (congrArg ElementId.words (hn.symm.trans hn'))).1
  have hc := fun c hc => (h.classes c hc).id
  have hr := fun r hr => (h.relations r hr).id
  simp only [hmap, List.nodup_append, List.mem_append, List.mem_map]
  -- what is left is that ids of two kinds differ, kind by kind
  refine ⟨⟨⟨h.nodup_classes, h.nodup_relations, ?_⟩, h.nodup_generalizations, ?_⟩,
    h.nodup_generalizationSets, ?_⟩
  · rintro _ ⟨c, hmc, rfl⟩ _ ⟨r, hmr, rfl⟩
    exact hne (by decide) (hc c hmc) (hr r hmr)
  · rintro _ (⟨c, hmc, rfl⟩ | ⟨r, hmr, rfl⟩) _ ⟨g, hmg, rfl⟩
    · exact hne (by decide) (hc c hmc) (h.generalizations g hmg)
    · exact hne (by decide) (hr r hmr) (h.generalizations g hmg)
  · rintro _ ((⟨c, hmc, rfl⟩ | ⟨r, hmr, rfl⟩) | ⟨g, hmg, rfl⟩) _ ⟨s, hms, rfl⟩
    · exact hne (by decide) (hc c hmc) (h.generalizationSets s hms)
    · exact hne (by decide) (hr r hmr) (h.generalizationSets s hms)
    · exact hne (by decide) (h.generalizations g hmg) (h.generalizationSets s hms)

/-- Ids of the shape that additions give are pairwise distinct. -/
theorem Built.nodup_ids (h : m.Built) : m.ids.Nodup := by
  rw [h.ids_eq, List.nodup_flatMap]
  refine ⟨fun f hf => nodup_familyIds (nodup_parts_of_mem_families hf), ?_⟩
  -- an id in two families would give both elements the same first two words
  refine (List.pairwise_map.mp h.nodup_owners).imp_of_mem ?_
  intro f g hf hg hne id hidf hidg
  obtain ⟨kind, n, hfn⟩ := h.numbered hf
  obtain ⟨kind', n', hgn⟩ := h.numbered hg
  have hwords : f.1.words = g.1.words :=
    (take_words_of_mem_familyIds hfn hidf).symm.trans (take_words_of_mem_familyIds hgn hidg)
  rw [hfn, hgn] at hwords
  obtain ⟨rfl, rfl⟩ := eq_of_words_numberedId_eq hwords
  exact hne (hfn.trans hgn.symm)

/-! ## Every addition keeps the shape -/

/-- The model without elements has the shape. -/
theorem built_empty (name : String) : (empty name).Built := by
  constructor <;> simp [empty]

/-- A new id at the end keeps ids distinct. -/
theorem nodup_map_id_concat {α : Type} {f : α → ElementId} {as : List α} {a : α}
    (h : (as.map f).Nodup) (ha : f a ∉ as.map f) : ((as ++ [a]).map f).Nodup := by
  rw [List.map_append, List.map_singleton]
  exact List.nodup_append.mpr ⟨h, List.nodup_singleton _, by
    intro x hx y hy
    -- the new id is at the end and at no other place
    rw [List.mem_singleton.mp hy]
    rintro rfl
    exact ha hx⟩

/-- A class of the shape with a new id may be added. -/
theorem Built.concat_class (h : m.Built) {c : Class} (hc : c.Built) (hnew : c.id ∉ m.ids) :
    { m with classes := m.classes ++ [c] }.Built where
  __ := h
  classes := by
    intro c' hc'
    rcases List.mem_append.mp hc' with hc' | hc'
    · exact h.classes c' hc'
    · rwa [List.mem_singleton.mp hc']
  nodup_classes := by
    refine nodup_map_id_concat h.nodup_classes fun hmem => ?_
    obtain ⟨c', hc', hid⟩ := List.mem_map.mp hmem
    exact hnew (hid ▸ mem_ids_of_mem_classes hc')

/-- A relation of the shape with a new id may be added. -/
theorem Built.concat_relation (h : m.Built) {r : Relation} (hr : r.Built) (hnew : r.id ∉ m.ids) :
    { m with relations := m.relations ++ [r] }.Built where
  __ := h
  relations := by
    intro r' hr'
    rcases List.mem_append.mp hr' with hr' | hr'
    · exact h.relations r' hr'
    · rwa [List.mem_singleton.mp hr']
  nodup_relations := by
    refine nodup_map_id_concat h.nodup_relations fun hmem => ?_
    obtain ⟨r', hr', hid⟩ := List.mem_map.mp hmem
    exact hnew (hid ▸ mem_ids_of_mem_relations hr')

/-- An added class has the shape, as it has no parts yet. -/
theorem built_addClass (h : m.Built) (name : String) (stereotype : Option ClassStereotype) :
    (m.addClass name stereotype).2.Built :=
  h.concat_class ⟨m.exists_freshId_eq .klass, rfl, rfl⟩ (m.freshId_not_mem .klass)

/-- An added enumeration has the shape, with its literals numbered from one. -/
theorem built_addEnumeration (h : m.Built) (name : String) (literals : List String) :
    (m.addEnumeration name literals).2.Built := by
  refine h.concat_class ⟨m.exists_freshId_eq .klass, rfl, ?_⟩ (m.freshId_not_mem .klass)
  -- there are as many literals as there are names for them
  have hlength : (numberedLiterals (m.freshId .klass) 1 literals).length = literals.length := by
    simpa using congrArg List.length (map_id_numberedLiterals (m.freshId .klass) 1 literals)
  rw [hlength, map_id_numberedLiterals, numberedParts, List.map_map]
  rfl

/-- An added relation has the shape, with its two ends. -/
theorem built_addRelation (h : m.Built) (name : Option String) (source target : ElementId)
    (stereotype : Option RelationStereotype) :
    (m.addRelation name source target stereotype).2.Built :=
  h.concat_relation ⟨m.exists_freshId_eq .relation, rfl⟩ (m.freshId_not_mem .relation)

/-- An added generalization has a numbered id. -/
theorem built_addGeneralization (h : m.Built) (general specific : ElementId) :
    (m.addGeneralization general specific).2.Built where
  __ := h
  generalizations := by
    intro g hg
    rcases List.mem_append.mp hg with hg | hg
    · exact h.generalizations g hg
    · rw [List.mem_singleton.mp hg]
      exact m.exists_freshId_eq .generalization
  nodup_generalizations := by
    refine nodup_map_id_concat h.nodup_generalizations fun hmem => ?_
    exact m.freshId_not_mem .generalization (List.mem_append_left _ (List.mem_append_right _ hmem))

/-- An added generalization set has a numbered id. -/
theorem built_addGeneralizationSet (h : m.Built) (members : List ElementId)
    (isDisjoint isComplete : Bool) :
    (m.addGeneralizationSet members isDisjoint isComplete).2.Built where
  __ := h
  generalizationSets := by
    intro s hs
    rcases List.mem_append.mp hs with hs | hs
    · exact h.generalizationSets s hs
    · rw [List.mem_singleton.mp hs]
      exact m.exists_freshId_eq .generalizationSet
  nodup_generalizationSets := by
    refine nodup_map_id_concat h.nodup_generalizationSets fun hmem => ?_
    exact m.freshId_not_mem .generalizationSet (List.mem_append_right _ hmem)

/-- The first element that passes is changed, and those before and after it are kept. -/
theorem updateFirst_of_find? {α : Type} {test : α → Bool} {as : List α} {a : α}
    (h : as.find? test = some a) : ∃ before after, as = before ++ a :: after ∧
      ∀ change, updateFirst test change as = some (before ++ change a :: after) := by
  -- induction on the list, up to the first element that passes
  induction as with
  | nil => contradiction
  | cons b as ih =>
    by_cases hb : test b = true
    · rw [List.find?_cons_of_pos hb] at h
      obtain rfl := Option.some.inj h
      exact ⟨[], as, rfl, fun change => by rw [updateFirst, if_pos hb]; rfl⟩
    · rw [List.find?_cons_of_neg hb] at h
      obtain ⟨before, after, rfl, hupdate⟩ := ih h
      exact ⟨b :: before, after, rfl, fun change => by rw [updateFirst, if_neg hb, hupdate]; rfl⟩

/-- An attribute goes to the end of the attributes of the first class with the id. -/
theorem addAttribute_of_findClass {owner : ElementId} {c : Class} (h : m.findClass owner = some c)
    (name : String) (type : ElementId) :
    ∃ before after p, m.classes = before ++ c :: after ∧ p.id = attributeId c ∧
      m.addAttribute owner name type = some (attributeId c, { m with
        classes := before ++ { c with attributes := c.attributes ++ [p] } :: after }) := by
  obtain ⟨before, after, hsplit, hupdate⟩ := updateFirst_of_find? h
  refine ⟨before, after, { id := attributeId c, name := some name, type := some type }, hsplit,
    rfl, ?_⟩
  -- the class that is updated is the one that is found
  simp only [addAttribute, h, updateClass, hupdate, Option.bind_eq_bind, Option.bind_some,
    Option.map_some, Option.pure_def]

/-- Nothing is added to a class that the model does not have. -/
theorem addAttribute_of_findClass_eq_none {owner : ElementId} (h : m.findClass owner = none)
    (name : String) (type : ElementId) : m.addAttribute owner name type = none := by
  rw [addAttribute, h]
  rfl

/-- An attribute is added only to a class of the model. -/
theorem addAttribute_eq_some {owner type : ElementId} {name : String} {id : ElementId} {m' : Model}
    (h : m.addAttribute owner name type = some (id, m')) :
    ∃ before c after p, m.classes = before ++ c :: after ∧ id = attributeId c ∧ p.id = id ∧
      m' = { m with
        classes := before ++ { c with attributes := c.attributes ++ [p] } :: after } := by
  cases hc : m.findClass owner with
  | none =>
    rw [addAttribute_of_findClass_eq_none hc] at h
    cases h
  | some c =>
    obtain ⟨before, after, p, hsplit, hp, hadd⟩ := addAttribute_of_findClass hc name type
    rw [hadd] at h
    obtain ⟨rfl, rfl⟩ := Prod.mk.inj (Option.some.inj h)
    exact ⟨before, c, after, p, hsplit, rfl, hp, rfl⟩

/-- An added attribute has the next number below its class, so the shape is kept. -/
theorem built_addAttribute (h : m.Built) {owner type : ElementId} {name : String} {id : ElementId}
    {m' : Model} (hadd : m.addAttribute owner name type = some (id, m')) : m'.Built := by
  -- the attribute has gone to one class, and the other classes have been left alone
  obtain ⟨before, c, after, p, hsplit, rfl, hp, rfl⟩ := addAttribute_eq_some hadd
  have hc : c ∈ m.classes := by simp [hsplit]
  refine { h with classes := ?_, nodup_classes := ?_ }
  · intro c' hc'
    rcases List.mem_append.mp hc' with hc' | hc'
    · exact h.classes c' (by simp [hsplit, hc'])
    · rcases List.mem_cons.mp hc' with rfl | hc'
      · exact (h.classes c hc).concat_attribute hp
      · exact h.classes c' (by simp [hsplit, hc'])
  · -- the ids of the classes are the same as before
    simpa [hsplit] using h.nodup_classes

/-- Every addition keeps the shape of the ids. -/
theorem Built.add (h : m.Built) (call : Addition) : (m.add call).2.Built := by
  cases call with
  | klass name stereotype => exact built_addClass h name stereotype
  | kind name => exact built_addClass h name _
  | datatype name => exact built_addClass h name _
  | enumeration name literals => exact built_addEnumeration h name literals
  | relation source target stereotype => exact built_addRelation h none source target stereotype
  | material name source target => exact built_addRelation h _ source target _
  | attributeOf owner name type =>
    rw [Model.add]
    -- without a class to go to, the attribute changes nothing
    split
    · next hadd => exact built_addAttribute h hadd
    · exact h
  | generalization general specific => exact built_addGeneralization h general specific
  | generalizationSet members isDisjoint isComplete =>
    exact built_addGeneralizationSet h members isDisjoint isComplete

/-- So a model that is built from nothing has the shape. -/
theorem built_build (name : String) (calls : List Addition) :
    ((empty name).build calls).Built := by
  rw [build]
  -- the shape holds of the model without elements and is kept by every call
  exact List.foldlRecOn calls _ (built_empty name) fun m hm call _ => hm.add call

/-! ## What an addition adds -/

/-- A class brings its own id and those of its attributes and literals. -/
theorem ids_concat_class (m : Model) (c : Class) :
    { m with classes := m.classes ++ [c] }.ids.Perm
      (c.id :: (c.attributes.map (Property.id ·) ++ c.literals.map (Literal.id ·)) ++ m.ids) := by
  -- how often an id occurs is a sum over the places, wherever the class stands
  refine List.perm_iff_count.mpr fun x => ?_
  simp only [ids, List.flatMap_append, List.flatMap_singleton, List.count_append, List.count_cons]
  omega

/-- A relation brings its own id and those of its ends. -/
theorem ids_concat_relation (m : Model) (r : Relation) :
    { m with relations := m.relations ++ [r] }.ids.Perm
      (r.id :: r.ends.map (Property.id ·) ++ m.ids) := by
  refine List.perm_iff_count.mpr fun x => ?_
  simp only [ids, List.flatMap_append, List.flatMap_singleton, List.count_append, List.count_cons]
  omega

/-- A generalization brings its own id. -/
theorem ids_concat_generalization (m : Model) (g : Generalization) :
    { m with generalizations := m.generalizations ++ [g] }.ids.Perm (g.id :: m.ids) := by
  refine List.perm_iff_count.mpr fun x => ?_
  simp only [ids, List.map_append, List.map_singleton, List.count_append, List.count_cons,
    List.count_nil]
  omega

/-- A generalization set brings its own id. -/
theorem ids_concat_generalizationSet (m : Model) (s : GeneralizationSet) :
    { m with generalizationSets := m.generalizationSets ++ [s] }.ids.Perm (s.id :: m.ids) := by
  refine List.perm_iff_count.mpr fun x => ?_
  simp only [ids, List.map_append, List.map_singleton, List.count_append, List.count_cons,
    List.count_nil]
  omega

/-- An attribute of a class brings its own id. -/
theorem ids_concat_attribute {before after : List Class} {c : Class}
    (h : m.classes = before ++ c :: after) (p : Property) :
    { m with classes := before ++ { c with attributes := c.attributes ++ [p] } :: after }.ids.Perm
      (p.id :: m.ids) := by
  refine List.perm_iff_count.mpr fun x => ?_
  simp only [ids, h, List.flatMap_append, List.flatMap_cons, List.map_append, List.map_singleton,
    List.count_append, List.count_cons, List.count_nil]
  omega

/-- The ids that a call derives from the one of an owner: those of literals, relation ends and
attributes. -/
def derivedIds (m : Model) : Addition → List ElementId
  | .enumeration _ literals =>
    (numberedParts "literal-" literals.length).map (partId (m.freshId .klass))
  | .relation .. | .material .. => ["source", "target"].map (partId (m.freshId .relation))
  | .attributeOf owner .. => (m.findClass owner).toList.map attributeId
  | .klass .. | .kind .. | .datatype .. | .generalization .. | .generalizationSet .. => []

/-- All ids that a call adds to the model. -/
def addedIds (m : Model) (call : Addition) : List ElementId :=
  (call.searches?.map m.freshId).toList ++ m.derivedIds call

/-- A call adds its ids to those of the model and returns the first of them. An attribute of a class
that the model does not have adds none. -/
theorem ids_add_perm (m : Model) (call : Addition) :
    (m.add call).2.ids.Perm (m.addedIds call ++ m.ids) ∧
      (m.add call).1 = (m.addedIds call).head? := by
  cases call with
  | klass name stereotype => exact ⟨m.ids_concat_class _, rfl⟩
  | kind name => exact ⟨m.ids_concat_class _, rfl⟩
  | datatype name => exact ⟨m.ids_concat_class _, rfl⟩
  | enumeration name literals =>
    -- the literals of the enumeration are among the ids that it brings
    refine ⟨(m.ids_concat_class _).trans ?_, rfl⟩
    rw [map_id_numberedLiterals]
    simp [addedIds, derivedIds, Addition.searches?, numberedParts, Function.comp_def]
  | relation source target stereotype => exact ⟨m.ids_concat_relation _, rfl⟩
  | material name source target => exact ⟨m.ids_concat_relation _, rfl⟩
  | attributeOf owner name type =>
    cases hc : m.findClass owner with
    | none =>
      simp only [Model.add, addAttribute_of_findClass_eq_none hc, addedIds, derivedIds, hc]
      exact ⟨List.Perm.refl _, rfl⟩
    | some c =>
      obtain ⟨before, after, p, hsplit, hp, hadd⟩ := addAttribute_of_findClass hc name type
      simp only [Model.add, hadd, addedIds, derivedIds, hc]
      refine ⟨?_, rfl⟩
      show List.Perm _ (attributeId c :: m.ids)
      rw [← hp]
      exact ids_concat_attribute hsplit p
  | generalization general specific => exact ⟨m.ids_concat_generalization _, rfl⟩
  | generalizationSet members isDisjoint isComplete => exact ⟨m.ids_concat_generalizationSet _, rfl⟩

/-- An addition that returns an id adds it, and maybe the ids of parts, to the ids of the model. -/
theorem exists_ids_add_perm {call : Addition} {id : ElementId} (h : (m.add call).1 = some id) :
    ∃ parts, (m.add call).2.ids.Perm (id :: parts ++ m.ids) := by
  -- the id that is returned is the first of those that the call adds
  obtain ⟨hperm, hhead⟩ := ids_add_perm m call
  rw [hhead, List.head?_eq_some_iff] at h
  obtain ⟨parts, hparts⟩ := h
  rw [hparts] at hperm
  exact ⟨parts, hperm⟩

/-- However a model is built up from nothing, its ids are pairwise distinct, and the id that the
next addition returns is one that the model did not have and has from then on. -/
theorem nodup_ids_build (name : String) (calls : List Addition) :
    ((empty name).build calls).ids.Nodup ∧
    ∀ (call : Addition) (id : ElementId), (((empty name).build calls).add call).1 = some id →
      ((empty name).build calls).containsId id = false
      ∧ (((empty name).build calls).add call).2.containsId id = true := by
  have hbuilt := built_build name calls
  refine ⟨hbuilt.nodup_ids, ?_⟩
  -- the shape makes all ids distinct, before the call and after it
  intro call id hid
  obtain ⟨parts, hperm⟩ := exists_ids_add_perm hid
  -- the ids after the call are distinct as well, so the returned one is not among the old ones
  have hnodup := hperm.nodup_iff.mp (hbuilt.add call).nodup_ids
  have hnew : id ∉ ((empty name).build calls).ids := by
    rw [List.cons_append, List.nodup_cons, List.mem_append, not_or] at hnodup
    exact hnodup.1.2
  have hmem : id ∈ (((empty name).build calls).add call).2.ids :=
    hperm.mem_iff.mpr List.mem_cons_self
  rw [containsId, containsId, List.contains_eq_mem, List.contains_eq_mem]
  exact ⟨decide_eq_false hnew, decide_eq_true hmem⟩

/-- A person with a favourite colour and friends. -/
def colourfulFriends : List Addition :=
  [.kind "Person", .enumeration "Colour" ["red", "green"],
    .attributeOf ⟨"class-1"⟩ "favourite" ⟨"class-2"⟩,
    .material "befriends" ⟨"class-1"⟩ ⟨"class-1"⟩]

/-- The next attribute gets the second number below its class, which is new. -/
theorem nodup_ids_build_colourfulFriends :
    ((empty "friends").build colourfulFriends).ids.Nodup ∧
    (((empty "friends").build colourfulFriends).add
      (.attributeOf ⟨"class-1"⟩ "wall" ⟨"class-2"⟩)).1 = some ⟨"class-1-attribute-2"⟩ ∧
    ((empty "friends").build colourfulFriends).containsId ⟨"class-1-attribute-2"⟩ = false := by
  have hreturned : (((empty "friends").build colourfulFriends).add
      (.attributeOf ⟨"class-1"⟩ "wall" ⟨"class-2"⟩)).1 = some ⟨"class-1-attribute-2"⟩ := by
    decide +kernel
  obtain ⟨hnodup, hnew⟩ := nodup_ids_build "friends" colourfulFriends
  exact ⟨hnodup, hreturned, (hnew _ _ hreturned).1⟩

end Model

end OntoWorlds
