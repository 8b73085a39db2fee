import OntoWorlds.Alloy.Module
import OntoWorlds.Identifier.Word

/-!
# OntoWorlds — the identifiers of a module

The identifiers that a module declares are the words of every module and those of its sections. The
sections are sorted from a list of fragments: only datatypes are gathered, the rest is copied, so
where each inline field follows a mention of its datatype, the module declares nothing that is not
declared by a fragment.

* `Sections.identifiers`, `Fragment.identifiers` — what is declared.
* `FieldsFollow` — inline fields come after their datatypes.
* `count_identifiers_le` — no identifier is declared more often than fragments declare it.
* `exists_declaredDatatype` — a mentioned signature that is not built in is declared.
-/

namespace OntoWorlds.Alloy

open Identifier (declaredWords isBuiltin)

/-- The `enum` and its literals. -/
def Enumeration.identifiers (e : Enumeration) : List String := e.name :: e.literals

/-- A built-in signature is not declared, and neither are its fields. -/
def Datatype.identifiers (d : Datatype) : List String :=
  if d.isDeclared then d.name :: d.fields.map (·.name) else []

/-- The identifiers that a module declares. -/
def Sections.identifiers (s : Sections) : List String :=
  declaredWords
    ++ s.worldFields.map (·.name)
    ++ s.enumerations.flatMap Enumeration.identifiers
    ++ s.datatypes.flatMap Datatype.identifiers
    ++ s.accessors.map (·.name)

/-- The identifiers that a fragment declares. -/
def Fragment.identifiers : Fragment → List String
  | .worldField f => [f.name]
  | .accessor a => [a.name]
  | .enumeration e => e.identifiers
  | .datatype name isDeclared => if isDeclared then [name] else []
  | .inlineField _ f => [f.name]
  | .covering _ | .fact _ | .immutability _ | .selector _ => []

/-! ## Gathering datatypes -/

/-- The name of each datatype, and whether the module declares it. -/
def headers (ds : List Datatype) : List (String × Bool) := ds.map fun d => (d.name, d.isDeclared)

variable {ds : List Datatype} {name : String}

/-- The search by name finds a datatype exactly if there is a header of the name. -/
theorem any_name_iff : ds.any (·.name == name) = true ↔ ∃ b, (name, b) ∈ headers ds := by
  simp only [List.any_eq_true, beq_iff_eq, headers, List.mem_map, Prod.mk.injEq]
  constructor
  · rintro ⟨d, hd, rfl⟩
    exact ⟨d.isDeclared, d, hd, rfl, rfl⟩
  · rintro ⟨b, d, hd, rfl, -⟩
    exact ⟨d, hd, rfl⟩

/-- A datatype that has been mentioned is not added again. -/
theorem mention_of_mem {b : Bool} (h : (name, b) ∈ headers ds) (isDeclared : Bool) :
    mention name isDeclared ds = ds :=
  if_pos (any_name_iff.mpr ⟨b, h⟩)

/-- A mention adds its own header at the end, or none. -/
theorem headers_mention (name : String) (isDeclared : Bool) (ds : List Datatype) :
    headers (mention name isDeclared ds) = headers ds ∨
      headers (mention name isDeclared ds) = headers ds ++ [(name, isDeclared)] := by
  unfold mention
  split
  · exact Or.inl rfl
  · right
    simp [headers]

/-- After a mention there is a header of the name. -/
theorem exists_mem_headers_mention (name : String) (isDeclared : Bool) (ds : List Datatype) :
    ∃ b, (name, b) ∈ headers (mention name isDeclared ds) := by
  unfold mention
  split
  · next h => exact any_name_iff.mp h
  · exact ⟨isDeclared, by simp [headers]⟩

/-- An added field changes no header. -/
theorem headers_addField (name : String) (f : InlineField) (ds : List Datatype) :
    headers (addField name f ds) = headers ds := by
  fun_induction addField name f ds with
  | case1 => rfl
  | case2 d ds h => rfl
  | case3 d ds h ih => exact congrArg ((d.name, d.isDeclared) :: ·) ih

theorem names_addField (w : String) (g : InlineField) (ds : List Datatype) :
    (addField w g ds).map (·.name) = ds.map (·.name) := by
  have hfst := congrArg (List.map Prod.fst) (headers_addField w g ds)
  rwa [headers, headers, List.map_map, List.map_map] at hfst

/-- An added field adds one identifier at most: none, if its datatype is not declared. -/
theorem count_addField_le (name : String) (f : InlineField) (ds : List Datatype) (w : String) :
    ((addField name f ds).flatMap Datatype.identifiers).count w ≤
      (ds.flatMap Datatype.identifiers).count w + [f.name].count w := by
  -- induction along the search for the datatype
  fun_induction addField name f ds with
  | case1 => exact Nat.zero_le _
  -- the datatype is found, and the field comes last in it
  | case2 d ds h =>
    have hd : (Datatype.identifiers { d with fields := d.fields ++ [f] }).count w ≤
        d.identifiers.count w + [f.name].count w := by
      unfold Datatype.identifiers
      dsimp only
      split
      · simp only [List.map_append, List.map_cons, List.map_nil, List.count_cons, List.count_append]
        omega
      · exact Nat.zero_le _
    rw [List.flatMap_cons, List.flatMap_cons, List.count_append, List.count_append]
    omega
  -- another datatype, which stays as it is
  | case3 d ds h ih =>
    rw [List.flatMap_cons, List.flatMap_cons, List.count_append, List.count_append]
    omega

/-- Each inline field comes after a mention of its datatype. -/
def FieldsFollow : List Datatype → List Fragment → Prop
  | _, [] => True
  | ds, f :: fs =>
    (∀ name g, f = .inlineField name g → ∃ b, (name, b) ∈ headers ds) ∧
      FieldsFollow (gather ds f) fs

/-- Datatypes once mentioned stay mentioned. -/
theorem headers_subset_gather (ds : List Datatype) (f : Fragment) :
    headers ds ⊆ headers (gather ds f) := by
  have hmention : ∀ name b, headers ds ⊆ headers (mention name b ds) := by
    intro name b
    rcases headers_mention name b ds with h | h <;> rw [h]
    · exact List.Subset.refl _
    · exact List.subset_append_left _ _
  cases f with
  | datatype name b => exact hmention name b
  | inlineField name g =>
    rw [gather, headers_addField]
    exact hmention name true
  | _ => exact List.Subset.refl _

/-- Neither the mentions nor the fields of a list take a header away. -/
theorem headers_subset_foldl (ds : List Datatype) (fs : List Fragment) :
    headers ds ⊆ headers (fs.foldl gather ds) := by
  induction fs generalizing ds with
  | nil => exact List.Subset.refl _
  | cons f fs ih => exact List.Subset.trans (headers_subset_gather ds f) (ih _)

/-- Fields whose datatypes have all been mentioned before may come in any order. -/
theorem fieldsFollow_of_forall {fs : List Fragment}
    (h : ∀ name g, .inlineField name g ∈ fs → ∃ b, (name, b) ∈ headers ds) :
    FieldsFollow ds fs := by
  induction fs generalizing ds with
  | nil => trivial
  | cons f fs ih =>
    refine ⟨fun name g hf => h name g (hf ▸ List.mem_cons_self), ih fun name g hg => ?_⟩
    obtain ⟨b, hb⟩ := h name g (List.mem_cons_of_mem _ hg)
    exact ⟨b, headers_subset_gather ds f hb⟩

/-- Fields follow in two lists together if they do in each, the second after what the first has
gathered. -/
theorem fieldsFollow_append {fs gs : List Fragment} :
    FieldsFollow ds (fs ++ gs) ↔ FieldsFollow ds fs ∧ FieldsFollow (fs.foldl gather ds) gs := by
  induction fs generalizing ds with
  | nil => simp [FieldsFollow]
  | cons f fs ih => simp only [List.cons_append, FieldsFollow, List.foldl_cons, ih, and_assoc]

/-- Where fields follow, datatypes are those mentioned. -/
theorem mem_headers_foldl {fs : List Fragment} (hfs : FieldsFollow ds fs) {b : Bool}
    (h : (name, b) ∈ headers (fs.foldl gather ds)) :
    (name, b) ∈ headers ds ∨ .datatype name b ∈ fs := by
  induction fs generalizing ds with
  | nil => exact Or.inl h
  | cons f fs ih =>
    -- the header is there after the first fragment, or comes from a mention among the rest
    rcases ih hfs.2 h with h | h
    · cases f with
      | datatype name' b' =>
        -- a mention adds its own header or none
        rcases headers_mention name' b' ds with hm | hm <;> rw [gather, hm] at h
        · exact Or.inl h
        · rcases List.mem_append.mp h with h | h
          · exact Or.inl h
          · obtain ⟨rfl, rfl⟩ := Prod.mk.inj (List.mem_singleton.mp h)
            exact Or.inr List.mem_cons_self
      | inlineField name' g =>
        obtain ⟨b', hb'⟩ := hfs.1 name' g rfl
        rw [gather, headers_addField, mention_of_mem hb'] at h
        exact Or.inl h
      | _ => exact Or.inl h
    · exact Or.inr (List.mem_cons_of_mem _ h)

/-- Whatever is mentioned has a header in the end. -/
theorem exists_mem_headers_foldl {fs : List Fragment} {b : Bool} (h : .datatype name b ∈ fs)
    (ds : List Datatype) : ∃ b', (name, b') ∈ headers (fs.foldl gather ds) := by
  induction fs generalizing ds with
  | nil => cases h
  | cons f fs ih =>
    rcases List.mem_cons.mp h with rfl | h
    · obtain ⟨b', hb'⟩ := exists_mem_headers_mention name b ds
      exact ⟨b', headers_subset_foldl _ fs hb'⟩
    · exact ih h _

/-! ## The sections of fragments -/

/-- The identifiers of the sections that fragments are sorted into, on top of some datatypes. -/
theorem count_sorted_le {fs : List Fragment} (hfs : FieldsFollow ds fs) (w : String) :
    ((fs.filterMap Fragment.worldField?).map (·.name)).count w
        + ((fs.filterMap Fragment.enumeration?).flatMap Enumeration.identifiers).count w
        + ((fs.foldl gather ds).flatMap Datatype.identifiers).count w
        + ((fs.filterMap Fragment.accessor?).map (·.name)).count w ≤
      (ds.flatMap Datatype.identifiers).count w + (fs.flatMap Fragment.identifiers).count w := by
  induction fs generalizing ds with
  | nil => simp
  -- induction on the fragments, for any datatypes gathered before
  | cons f fs ih =>
    have ih := ih hfs.2
    have hf := hfs.1
    rw [List.flatMap_cons, List.count_append, List.foldl_cons]
    cases f with
    | datatype name b =>
      have hmention : ((mention name b ds).flatMap Datatype.identifiers).count w ≤
          (ds.flatMap Datatype.identifiers).count w
            -- a mention adds its name, unless it is known or built in
            + (Fragment.identifiers (.datatype name b)).count w := by
        unfold mention
        split
        · exact Nat.le_add_right _ _
        · rw [List.flatMap_append, List.count_append]
          simp [Datatype.identifiers, Fragment.identifiers]
      rw [gather] at ih ⊢
      simp only [List.filterMap_cons, Fragment.worldField?, Fragment.enumeration?,
        Fragment.accessor?]
      omega
    | inlineField name g =>
      obtain ⟨b, hb⟩ := hf name g rfl
      -- the datatype is there already, so that only the field is added
      have hadd := count_addField_le name g ds w
      rw [gather, mention_of_mem hb] at ih ⊢
      simp only [List.filterMap_cons, Fragment.worldField?, Fragment.enumeration?,
        Fragment.accessor?, Fragment.identifiers]
      omega
    -- a fragment of any other kind is copied into its own section
    | worldField f =>
      simp only [gather, List.filterMap_cons, Fragment.worldField?, Fragment.enumeration?,
        Fragment.accessor?, Fragment.identifiers, List.map_cons, List.count_cons,
        List.count_nil] at ih ⊢
      omega
    | enumeration e =>
      simp only [gather, List.filterMap_cons, Fragment.worldField?, Fragment.enumeration?,
        Fragment.accessor?, Fragment.identifiers, List.flatMap_cons, List.count_append] at ih ⊢
      omega
    | accessor a =>
      simp only [gather, List.filterMap_cons, Fragment.worldField?, Fragment.enumeration?,
        Fragment.accessor?, Fragment.identifiers, List.map_cons, List.count_cons,
        List.count_nil] at ih ⊢
      omega
    | _ =>
      simp only [gather, List.filterMap_cons, Fragment.worldField?, Fragment.enumeration?,
        Fragment.accessor?, Fragment.identifiers, List.count_nil] at ih ⊢
      omega

/-- No identifier is declared more often than by the fragments, the words of every module apart. -/
theorem count_identifiers_le {fs : List Fragment} (hfs : FieldsFollow [] fs) (w : String) :
    (Sections.ofFragments fs).identifiers.count w ≤
      (declaredWords ++ fs.flatMap Fragment.identifiers).count w := by
  have hsorted := count_sorted_le hfs w
  simp only [Sections.identifiers, Sections.ofFragments, List.count_append, List.flatMap_nil,
    List.count_nil] at hsorted ⊢
  omega

/-! ## Declared elements -/

variable {fs : List Fragment}

/-- A section holds what it picks out of the fragments. -/
theorem mem_section_iff {α : Type} {pick : Fragment → Option α} {inject : α → Fragment}
    (h : ∀ f a, pick f = some a ↔ f = inject a) (a : α) :
    a ∈ fs.filterMap pick ↔ inject a ∈ fs := by
  simp only [List.mem_filterMap, h, exists_eq_right]

/-- The world fields of the sections are those of the fragments. -/
theorem mem_worldFields_iff {f : WorldField} :
    f ∈ (Sections.ofFragments fs).worldFields ↔ .worldField f ∈ fs :=
  mem_section_iff (fun g _ => by cases g <;> simp [Fragment.worldField?]) f

/-- The coverings are those of the fragments. -/
theorem mem_coverings_iff {c : Covering} :
    c ∈ (Sections.ofFragments fs).coverings ↔ .covering c ∈ fs :=
  mem_section_iff (fun g _ => by cases g <;> simp [Fragment.covering?]) c

/-- The facts are those of the fragments. -/
theorem mem_facts_iff {f : Fact} : f ∈ (Sections.ofFragments fs).facts ↔ .fact f ∈ fs :=
  mem_section_iff (fun g _ => by cases g <;> simp [Fragment.fact?]) f

theorem mem_immutabilities_iff {i : Immutability} :
    i ∈ (Sections.ofFragments fs).immutabilities ↔ .immutability i ∈ fs :=
  mem_section_iff (fun g _ => by cases g <;> simp [Fragment.immutability?]) i

/-- The accessors are those of the fragments. -/
theorem mem_accessors_iff {a : Accessor} :
    a ∈ (Sections.ofFragments fs).accessors ↔ .accessor a ∈ fs :=
  mem_section_iff (fun g _ => by cases g <;> simp [Fragment.accessor?]) a

theorem mem_selectors_iff {s : Selector} :
    s ∈ (Sections.ofFragments fs).selectors ↔ .selector s ∈ fs :=
  mem_section_iff (fun g _ => by cases g <;> simp [Fragment.selector?]) s

/-- The enumerations are those of the fragments. -/
theorem mem_enumerations_iff {e : Enumeration} :
    e ∈ (Sections.ofFragments fs).enumerations ↔ .enumeration e ∈ fs :=
  mem_section_iff (fun g _ => by cases g <;> simp [Fragment.enumeration?]) e

/-- Where a signature is declared unless it is built in, so is every signature mentioned. -/
theorem exists_declaredDatatype (hfs : FieldsFollow [] fs)
    (hbuiltin : ∀ name b, .datatype name b ∈ fs → b = !isBuiltin name) {b : Bool}
    (h : .datatype name b ∈ fs) (hname : isBuiltin name = false) :
    ∃ d ∈ (Sections.ofFragments fs).declaredDatatypes, d.name = name := by
  obtain ⟨b', hb'⟩ := exists_mem_headers_foldl h []
  -- all mentions of a name agree, since they depend on the name alone
  have hdeclared : b' = true := by
    rcases mem_headers_foldl hfs hb' with h' | h'
    · cases h'
    · rw [hbuiltin name b' h', hname, Bool.not_false]
  obtain ⟨d, hd, heq⟩ := List.mem_map.mp hb'
  obtain ⟨rfl, rfl⟩ := Prod.mk.inj heq
  exact ⟨d, List.mem_filter.mpr ⟨hd, hdeclared⟩, rfl⟩

end OntoWorlds.Alloy
