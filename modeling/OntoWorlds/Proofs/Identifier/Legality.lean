import OntoWorlds.Proofs.Identifier.Numbered

/-!
# OntoWorlds — legal identifiers

The identifier wanted for an element is legal, whatever its raw name: stripping leaves no forbidden
character, and the tag covers what would be a reserved word or a leading digit without making a new
one. A number behind a legal identifier keeps it legal too, with one exception, since one reserved
word ends in a digit.

* `isLegal_base`, `isLegal_declaredBase` — what an element wants is legal.
* `base_projection` — a legal raw name, and no other, is wanted as it is; so wanting what has been
  wanted changes nothing.
* `isLegal_numbered` — a numbered legal identifier is legal unless it spells `select13`.
* `IsIssuable` — legal, or that one word: what a registry hands out for legal bases.
-/

namespace OntoWorlds.Identifier

/-- Nonempty and without forbidden characters. -/
structure IsClean (w : String) : Prop where
  nonempty : w ≠ ""
  allowed : ∀ c ∈ w.toList, isForbidden c = false

/-- A word is legal if it is clean, starts with no digit and is not reserved. -/
theorem isLegal_iff (w : String) :
    isLegal w = true ↔ IsClean w ∧ startsWithDigit w = false ∧ isReserved w = false := by
  simp only [isLegal, Bool.and_eq_true, bne_iff_ne, Bool.not_eq_true', List.any_eq_false,
    Bool.not_eq_true]
  constructor
  · rintro ⟨⟨⟨hne, hdigit⟩, hallowed⟩, hreserved⟩
    exact ⟨⟨hne, hallowed⟩, hdigit, hreserved⟩
  · rintro ⟨⟨hne, hallowed⟩, hdigit, hreserved⟩
    exact ⟨⟨⟨hne, hdigit⟩, hallowed⟩, hreserved⟩

theorem isReserved_eq_true_iff (w : String) : isReserved w = true ↔ w ∈ reservedWords := by
  rw [isReserved, List.contains_iff_mem]

/-! ## The tables

What is needed of the reserved words and of the words that identifiers are repaired with is looked
up once, for all of them together. -/

theorem ElementKind.mem_all (kind : ElementKind) : kind ∈ ElementKind.all := by
  cases kind <;> decide

/-- No reserved word has a tag behind an underscore or in front of one, and one ends in a digit. -/
theorem reservedWords_spelling :
    ∀ r ∈ reservedWords, (endsInDigit r = true → r = "select13") ∧
      ∀ k ∈ ElementKind.all, ("_" ++ k.tag).toList.isSuffixOf r.toList = false ∧
        (k.tag ++ "_").toList.isPrefixOf r.toList = false := by
  decide +kernel

/-- The words that identifiers are made of, apart from raw names and numbers. -/
def pieces : List String := ["_", "select13", "String"] ++ ElementKind.all.map ElementKind.tag

/-- All pieces are clean, and none of them starts with a digit. -/
theorem pieces_spelling :
    ∀ w ∈ pieces, w ≠ "" ∧ (w.toList.all fun c => !isForbidden c) = true ∧
      startsWithDigit w = false := by
  decide +kernel

theorem tag_mem_pieces (kind : ElementKind) : kind.tag ∈ pieces :=
  List.mem_append_right _ (List.mem_map_of_mem (ElementKind.mem_all kind))

theorem select13_mem_reservedWords : "select13" ∈ reservedWords := by
  simp [reservedWords, libraryWords]

/-! ## Clean words -/

/-- So a piece is a clean word. -/
theorem isClean_of_mem_pieces {w : String} (h : w ∈ pieces) : IsClean w where
  nonempty := (pieces_spelling w h).1
  allowed := by
    intro c hc
    have hallowed := List.all_eq_true.mp (pieces_spelling w h).2.1 c hc
    rwa [Bool.not_eq_true'] at hallowed

/-- Clean words make clean words. -/
theorem IsClean.append {v w : String} (hv : IsClean v) (hw : IsClean w) : IsClean (v ++ w) where
  nonempty := fun h => hv.nonempty (String.append_eq_empty_iff.mp h).1
  allowed := by
    intro c hc
    rw [String.toList_append, List.mem_append] at hc
    exact hc.elim (hv.allowed c) (hw.allowed c)

theorem isClean_tag (kind : ElementKind) : IsClean kind.tag :=
  isClean_of_mem_pieces (tag_mem_pieces kind)

theorem isClean_underscore : IsClean "_" := isClean_of_mem_pieces List.mem_cons_self

/-- What is left of a raw name is clean, and so is the tag that stands in for nothing. -/
theorem isClean_stripped (name : Option String) (kind : ElementKind) :
    IsClean (stripped name kind.tag) := by
  simp only [stripped]
  split
  · exact isClean_tag kind
  · next hkept =>
    refine ⟨?_, ?_⟩
    · intro hempty
      have hlist := congrArg String.toList hempty
      rw [String.toList_ofList, String.toList_empty] at hlist
      exact hkept (List.isEmpty_iff.mpr hlist)
    · intro c hc
      rw [String.toList_ofList] at hc
      simpa using (List.mem_filter.mp hc).2

/-- The tag behind a reserved word keeps it clean. -/
theorem isClean_awayFromReserved {w : String} (hw : IsClean w) (kind : ElementKind) :
    IsClean (awayFromReserved w kind.tag) := by
  unfold awayFromReserved
  split
  · exact (hw.append isClean_underscore).append (isClean_tag kind)
  · exact hw

/-- The tag in front of a digit keeps the word clean. -/
theorem isClean_awayFromDigits {w : String} (hw : IsClean w) (kind : ElementKind) :
    IsClean (awayFromDigits w kind.tag) := by
  unfold awayFromDigits
  split
  · exact ((isClean_tag kind).append isClean_underscore).append hw
  · exact hw

/-! ## The repairs do not undo each other -/

/-- With a tag behind it, no word is reserved. -/
theorem isReserved_tagged (w : String) (kind : ElementKind) :
    isReserved (w ++ "_" ++ kind.tag) = false := by
  rw [Bool.eq_false_iff]
  intro hreserved
  obtain ⟨-, htags⟩ := reservedWords_spelling _ ((isReserved_eq_true_iff _).mp hreserved)
  -- the word ends in a tag behind an underscore, which no reserved word does
  have hsuffix := (htags kind (ElementKind.mem_all kind)).1
  rw [Bool.eq_false_iff] at hsuffix
  apply hsuffix
  rw [List.isSuffixOf_iff_suffix, String.append_assoc, String.toList_append (s := w)]
  exact List.suffix_append _ _

/-- With a tag in front of it, no word is reserved. -/
theorem isReserved_prefixed (w : String) (kind : ElementKind) :
    isReserved (kind.tag ++ "_" ++ w) = false := by
  rw [Bool.eq_false_iff]
  intro hreserved
  obtain ⟨-, htags⟩ := reservedWords_spelling _ ((isReserved_eq_true_iff _).mp hreserved)
  -- nor does a reserved word begin with a tag and an underscore
  have hprefix := (htags kind (ElementKind.mem_all kind)).2
  rw [Bool.eq_false_iff] at hprefix
  apply hprefix
  rw [List.isPrefixOf_iff_prefix, String.toList_append (t := w)]
  exact List.prefix_append _ _

/-- The first repair leaves no reserved word. -/
theorem isReserved_awayFromReserved (w : String) (kind : ElementKind) :
    isReserved (awayFromReserved w kind.tag) = false := by
  unfold awayFromReserved
  split
  · exact isReserved_tagged w kind
  · next h => exact Bool.eq_false_iff.mpr h

/-- The second repair makes no reserved word of one that is none. -/
theorem isReserved_awayFromDigits {w : String} (h : isReserved w = false) (kind : ElementKind) :
    isReserved (awayFromDigits w kind.tag) = false := by
  unfold awayFromDigits
  split
  · exact isReserved_prefixed w kind
  · exact h

/-- How a word starts depends on its first part. -/
theorem startsWithDigit_append {v : String} (hv : v ≠ "") (w : String) :
    startsWithDigit (v ++ w) = startsWithDigit v := by
  unfold startsWithDigit
  rw [String.toList_append]
  cases hlist : v.toList with
  | nil => exact absurd (String.toList_eq_nil_iff.mp hlist) hv
  | cons c cs => rfl

/-- The second repair leaves no leading digit. -/
theorem startsWithDigit_awayFromDigits (w : String) (kind : ElementKind) :
    startsWithDigit (awayFromDigits w kind.tag) = false := by
  unfold awayFromDigits
  split
  · rw [startsWithDigit_append ((isClean_tag kind).append isClean_underscore).nonempty,
      startsWithDigit_append (isClean_tag kind).nonempty]
    exact (pieces_spelling _ (tag_mem_pieces kind)).2.2
  · next h => exact Bool.eq_false_iff.mpr h

/-- **Legality.** The identifier wanted for an element is legal, whatever its raw name. -/
theorem isLegal_base (name : Option String) (kind : ElementKind) :
    isLegal (base name kind) = true := by
  rw [isLegal_iff]
  -- clean and not reserved: each repair keeps what the one before has reached
  refine ⟨?_, startsWithDigit_awayFromDigits _ kind, ?_⟩
  · exact isClean_awayFromDigits (isClean_awayFromReserved (isClean_stripped name kind) kind) kind
  · exact isReserved_awayFromDigits (isReserved_awayFromReserved _ kind) kind

/-- So is the identifier wanted for an element that the module declares. -/
theorem isLegal_declaredBase (name : Option String) (kind : ElementKind) :
    isLegal (declaredBase name kind) = true := by
  simp only [declaredBase]
  split
  · next h =>
    have hmem := List.contains_iff_mem.mp h
    rw [builtinSignatures, List.mem_singleton] at hmem
    -- `String` is the one built-in signature, and tagging it makes no reserved word either
    have hstring : "String" ∈ pieces := by simp [pieces]
    have hclean := isClean_of_mem_pieces hstring
    rw [hmem, isLegal_iff]
    refine ⟨(hclean.append isClean_underscore).append (isClean_tag kind), ?_,
      isReserved_tagged _ kind⟩
    rw [startsWithDigit_append (hclean.append isClean_underscore).nonempty,
      startsWithDigit_append hclean.nonempty]
    exact (pieces_spelling _ hstring).2.2
  · exact isLegal_base name kind

/-! ## Legal names stay as they are -/

/-- A clean name loses nothing, and needs no tag. -/
theorem stripped_of_isClean {w : String} (hw : IsClean w) (tag : String) :
    stripped (some w) tag = w := by
  have hkept : (w.toList.filter fun c => !isForbidden c) = w.toList := by
    rw [List.filter_eq_self]
    intro c hc
    rw [hw.allowed c hc, Bool.not_false]
  have hnonempty : ¬ w.toList.isEmpty = true := by
    rw [List.isEmpty_iff, String.toList_eq_nil_iff]
    exact hw.nonempty
  simp only [stripped, Option.getD_some, hkept]
  rw [if_neg hnonempty, String.ofList_toList]

/-- Nothing is dropped from a legal name, and neither repair has anything to do. -/
theorem base_of_isLegal {w : String} (h : isLegal w = true) (kind : ElementKind) :
    base (some w) kind = w := by
  obtain ⟨hclean, hdigit, hreserved⟩ := (isLegal_iff w).mp h
  have hword : awayFromReserved w kind.tag = w := if_neg (Bool.eq_false_iff.mp hreserved)
  have hstart : awayFromDigits w kind.tag = w := if_neg (Bool.eq_false_iff.mp hdigit)
  rw [base, stripped_of_isClean hclean, hword, hstart]

/-- **Projection.** Whatever the raw name and the kind, the identifier wanted is legal. The names
that are left as they are, are the legal ones. So the identifier wanted for an identifier that has
been wanted, by an element of this or of any other kind, is that identifier. -/
theorem base_projection (kind : ElementKind) :
    (∀ name, isLegal (base name kind) = true) ∧
    (∀ w, base (some w) kind = w ↔ isLegal w = true) ∧
    ∀ name kind', base (some (base name kind)) kind' = base name kind := by
  refine ⟨fun name => isLegal_base name kind, fun w => ⟨fun h => ?_, fun h => ?_⟩,
    fun name kind' => ?_⟩
  · -- what is left as it is has the form of an identifier that is wanted
    rw [← h]
    exact isLegal_base (some w) kind
  · exact base_of_isLegal h kind
  · exact base_of_isLegal (isLegal_base name kind) kind'

/-! ## Numbers behind a base -/

/-- Digits are allowed in identifiers. -/
theorem isForbidden_of_isDigit {c : Char} (h : c.isDigit = true) : isForbidden c = false := by
  -- digits are neither marks nor blanks
  have hmarks : (forbiddenMarks.all fun d => !d.isDigit) = true := by decide +kernel
  rw [isForbidden, Text.isBlank_eq_false_of_isDigit h, Bool.false_or, Bool.eq_false_iff]
  intro hmem
  have hc := List.all_eq_true.mp hmarks c (List.contains_iff_mem.mp hmem)
  rw [h] at hc
  exact Bool.false_ne_true hc

/-- A number behind a clean word keeps it clean. -/
theorem isClean_numbered {w : String} (hw : IsClean w) (n : Nat) : IsClean (w ++ toString n) := by
  refine ⟨fun h => hw.nonempty (String.append_eq_empty_iff.mp h).1, ?_⟩
  intro c hc
  rw [toList_numbered, List.mem_append] at hc
  -- the character is one of the word, or a digit
  rcases hc with hc | hc
  · exact hw.allowed c hc
  · exact isForbidden_of_isDigit (isDigit_of_mem_digits hc)

/-- Of the reserved words only one can be a numbered identifier. -/
theorem isReserved_numbered (w : String) (n : Nat) :
    isReserved (w ++ toString n) = true ↔ w ++ toString n = "select13" := by
  constructor
  · intro h
    have hspelling := reservedWords_spelling _ ((isReserved_eq_true_iff _).mp h)
    exact hspelling.1 (endsInDigit_numbered w n)
  · intro h
    rw [h, isReserved_eq_true_iff]
    exact select13_mem_reservedWords

/-- A number behind a legal word keeps it legal, unless it makes `select13`. -/
theorem isLegal_numbered {w : String} (hw : isLegal w = true) (n : Nat) :
    isLegal (w ++ toString n) = true ↔ w ++ toString n ≠ "select13" := by
  obtain ⟨hclean, hdigit, -⟩ := (isLegal_iff w).mp hw
  rw [isLegal_iff, startsWithDigit_append hclean.nonempty, ne_eq, ← isReserved_numbered,
    Bool.not_eq_true]
  exact ⟨fun h => h.2.2, fun h => ⟨isClean_numbered hclean n, hdigit, h⟩⟩

/-- Legal, or the one reserved word that can be a numbered identifier. -/
def IsIssuable (w : String) : Prop := isLegal w = true ∨ w = "select13"

/-- The word that can be reached by counting is not legal. -/
theorem not_isLegal_select13 : ¬ isLegal "select13" = true := by
  intro h
  have hreserved := ((isLegal_iff _).mp h).2.2
  rw [(isReserved_eq_true_iff _).mpr select13_mem_reservedWords] at hreserved
  cases hreserved

/-- Of the issuable words, only that one is not legal. -/
theorem isLegal_iff_of_isIssuable {w : String} (h : IsIssuable w) :
    isLegal w = true ↔ w ≠ "select13" := by
  constructor
  · rintro hlegal rfl
    exact not_isLegal_select13 hlegal
  · exact h.resolve_right

/-- A number behind an issuable word makes an issuable one. -/
theorem isIssuable_numbered {w : String} (h : IsIssuable w) (n : Nat) :
    IsIssuable (w ++ toString n) := by
  rcases h with hlegal | rfl
  · by_cases heq : w ++ toString n = "select13"
    · exact Or.inr heq
    · exact Or.inl ((isLegal_numbered hlegal n).mpr heq)
  · left
    -- with one more number, it is no reserved word any more
    have hpiece : "select13" ∈ pieces := by simp [pieces]
    have hclean := isClean_of_mem_pieces hpiece
    rw [isLegal_iff, startsWithDigit_append hclean.nonempty, ← Bool.not_eq_true (isReserved _),
      isReserved_numbered]
    exact ⟨isClean_numbered hclean n, (pieces_spelling _ hpiece).2.2,
      numbered_ne_self "select13" n⟩

/-- The words that every module declares are never issued. -/
theorem not_mem_declaredWords_of_isIssuable {w : String} (h : IsIssuable w) :
    w ∉ declaredWords := by
  intro hmem
  -- a legal word is not reserved, and `select13` is no declared word
  rcases h with hlegal | rfl
  · have hreserved : isReserved w = true := (isReserved_eq_true_iff w).mpr (by
      simp only [reservedWords, List.mem_append]
      exact Or.inl (Or.inr hmem))
    rw [isLegal_iff] at hlegal
    rw [hlegal.2.2] at hreserved
    exact Bool.false_ne_true hreserved
  · simp [declaredWords] at hmem

end OntoWorlds.Identifier
