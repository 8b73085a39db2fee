import Mathlib.Data.List.Induction
import Mathlib.Data.List.TakeWhile
import OntoWorlds.Proofs.Encoding.Outcomes

/-!
# OntoWorlds — the grammar of multiplicity expressions

What an expression may look like and which range it denotes, as relations between texts and ranges
that say nothing of how a text is read.

* `Text.Decimal`, `Text.IsNumeral` — a run of digits with its number; a numeral that fits in 32
  bits.
* `Multiplicity.Spelled`, `Multiplicity.Denotes` — the expressions without blanks at their ends, and
  those with blanks anywhere around a bound.
* `Multiplicity.parse_eq_some_iff` — an expression is read as a range exactly if it denotes it.
* `Multiplicity.multiplicity_iff_denotes` — the same of a property, with the defect of every
  expression that denotes nothing.
-/

namespace OntoWorlds

namespace Text

/-! ## Numerals -/

/-- A nonempty run of ASCII digits and the number it writes, the last digit being the ones. -/
inductive Decimal : List Char → Nat → Prop
  | digit {c : Char} : c.isDigit = true → Decimal [c] (c.toNat - '0'.toNat)
  | snoc {cs : List Char} {c : Char} {n : Nat} : Decimal cs n → c.isDigit = true →
      Decimal (cs ++ [c]) (10 * n + (c.toNat - '0'.toNat))

/-- A numeral may have a plus sign, and any number of zeros, in front; its number fits in 32 bits.
-/
inductive IsNumeral : List Char → Nat → Prop
  | plain {cs : List Char} {n : Nat} : Decimal cs n → n ≤ maxWord → IsNumeral cs n
  | plus {cs : List Char} {n : Nat} : Decimal cs n → n ≤ maxWord → IsNumeral ('+' :: cs) n

/-- A run of digits is not empty. -/
theorem Decimal.ne_nil {cs : List Char} {n : Nat} (h : Decimal cs n) : cs ≠ [] := by
  cases h with
  | digit => exact List.cons_ne_nil _ _
  | snoc => exact List.concat_ne_nil _ _

/-- It holds nothing but digits. -/
theorem Decimal.isDigit {cs : List Char} {n : Nat} (h : Decimal cs n) :
    ∀ c ∈ cs, c.isDigit = true := by
  induction h with
  | digit hc => exact List.forall_mem_singleton.mpr hc
  | snoc _ hc ih => exact List.forall_mem_append.mpr ⟨ih, List.forall_mem_singleton.mpr hc⟩

/-- Another digit at the end is ten times the number and the digit. -/
theorem ofDigitChars_concat (cs : List Char) (c : Char) :
    Nat.ofDigitChars 10 (cs ++ [c]) 0 = 10 * Nat.ofDigitChars 10 cs 0 + (c.toNat - '0'.toNat) := by
  rw [Nat.ofDigitChars_append, Nat.ofDigitChars_cons, Nat.ofDigitChars_nil]

/-- The number that a run of digits writes is its value in base ten. -/
theorem Decimal.ofDigitChars_eq {cs : List Char} {n : Nat} (h : Decimal cs n) :
    Nat.ofDigitChars 10 cs 0 = n := by
  induction h with
  | @digit c => exact (ofDigitChars_concat [] c).trans (by simp)
  | @snoc cs c n _ _ ih => rw [ofDigitChars_concat, ih]

/-- Every nonempty run of digits writes a number. -/
theorem decimal_ofDigitChars (cs : List Char) (hne : cs ≠ []) (hcs : ∀ c ∈ cs, c.isDigit = true) :
    Decimal cs (Nat.ofDigitChars 10 cs 0) := by
  -- induction from the end, where the ones are
  induction cs using List.reverseRecOn with
  | nil => exact absurd rfl hne
  | append_singleton cs c ih =>
    obtain ⟨hcs, hlast⟩ := List.forall_mem_append.mp hcs
    have hc : c.isDigit = true := hlast c List.mem_cons_self
    rw [ofDigitChars_concat]
    by_cases hempty : cs = []
    · subst hempty
      simpa using Decimal.digit hc
    · exact .snoc (ih hempty hcs) hc

/-- Digits are read as a number exactly if they write it. -/
theorem readDigits_eq_some_iff {cs : List Char} {n : Nat} :
    readDigits cs = some n ↔ Decimal cs n := by
  unfold readDigits
  constructor
  · intro h
    split at h
    · rename_i hcs
      rw [Bool.and_eq_true, Bool.not_eq_true', List.isEmpty_eq_false_iff, List.all_eq_true] at hcs
      cases h
      exact decimal_ofDigitChars cs hcs.1 hcs.2
    · cases h
  · intro h
    have hcs : (!cs.isEmpty && cs.all Char.isDigit) = true := by
      rw [Bool.and_eq_true, Bool.not_eq_true', List.isEmpty_eq_false_iff, List.all_eq_true]
      exact ⟨h.ne_nil, h.isDigit⟩
    rw [if_pos hcs, h.ofDigitChars_eq]

/-- A word is read as a number exactly if it is a numeral of the number. -/
theorem readWord_eq_some_iff {cs : List Char} {n : Nat} :
    readWord cs = some n ↔ IsNumeral cs n := by
  rw [readWord, Option.filter_eq_some_iff, readDigits_eq_some_iff, decide_eq_true_eq]
  constructor
  · rintro ⟨hn, hfits⟩
    -- what is left without the plus sign, if there was one, are digits
    unfold dropPlus at hn
    split at hn
    · exact .plus hn hfits
    · exact .plain hn hfits
  · intro h
    cases h with
    | plus hn hfits => exact ⟨hn, hfits⟩
    | plain hn hfits =>
      -- a run of digits has no plus sign to drop
      have hdrop : dropPlus cs = cs := by
        unfold dropPlus
        split
        · exact absurd (hn.isDigit '+' List.mem_cons_self) (by decide)
        · rfl
      exact ⟨by rwa [hdrop], hfits⟩

/-! ## Blanks -/

/-- Any number of blanks. -/
def AreBlank (cs : List Char) : Prop := ∀ c ∈ cs, isBlank c = true

theorem areBlank_nil : AreBlank [] := nofun

/-- Blanks and further blanks are blanks. -/
theorem AreBlank.append {cs ds : List Char} (hcs : AreBlank cs) (hds : AreBlank ds) :
    AreBlank (cs ++ ds) := List.forall_mem_append.mpr ⟨hcs, hds⟩

/-- Trimming takes nothing but blanks. -/
theorem exists_eq_append_trim (cs : List Char) :
    ∃ lead trail, AreBlank lead ∧ AreBlank trail ∧ cs = lead ++ trim cs ++ trail := by
  -- what the second pass drops stands at the end of what the first one leaves, in reverse
  let left := cs.dropWhile isBlank
  refine ⟨cs.takeWhile isBlank, (left.reverse.takeWhile isBlank).reverse,
    fun c hc => List.mem_takeWhile_imp hc,
    fun c hc => List.mem_takeWhile_imp (List.mem_reverse.mp hc), ?_⟩
  have hleft : trim cs ++ (left.reverse.takeWhile isBlank).reverse = left := by
    rw [trim, ← List.reverse_append, List.takeWhile_append_dropWhile, List.reverse_reverse]
  rw [List.append_assoc, hleft, List.takeWhile_append_dropWhile]

/-- There is something in the text, and no blank at either end of it. -/
structure IsFirm (cs : List Char) : Prop where
  ne_nil : cs ≠ []
  first : ∀ c ∈ cs.head?, isBlank c = false
  last : ∀ c ∈ cs.getLast?, isBlank c = false

/-- A text without any blank is firm, unless it is empty. -/
theorem isFirm_of_forall {cs : List Char} (hne : cs ≠ []) (h : ∀ c ∈ cs, isBlank c = false) :
    IsFirm cs where
  ne_nil := hne
  first c hc := h c (List.mem_of_mem_head? hc)
  last c hc := h c (List.mem_of_mem_getLast? hc)

/-- Between two firm texts anything may stand. -/
theorem IsFirm.append {low up : List Char} (hlow : IsFirm low) (hup : IsFirm up)
    (between : List Char) : IsFirm (low ++ (between ++ up)) where
  ne_nil := List.append_ne_nil_of_left_ne_nil hlow.ne_nil _
  first c hc := hlow.first c (List.head?_append_of_ne_nil _ hlow.ne_nil ▸ hc)
  last c hc := by
    rw [← List.append_assoc, List.getLast?_append_of_ne_nil _ hup.ne_nil] at hc
    exact hup.last c hc

/-- A firm text starts where its blanks would have ended. -/
theorem IsFirm.dropWhile_append {cs : List Char} (h : IsFirm cs) (trail : List Char) :
    (cs ++ trail).dropWhile isBlank = cs ++ trail := by
  obtain ⟨c, ds, rfl⟩ := List.exists_cons_of_ne_nil h.ne_nil
  have hc : ¬ isBlank c = true := by rw [h.first c rfl]; exact Bool.false_ne_true
  rw [List.cons_append, List.dropWhile_cons_of_neg hc]

/-- A firm text is firm from either end. -/
theorem IsFirm.reverse {cs : List Char} (h : IsFirm cs) : IsFirm cs.reverse where
  ne_nil := List.reverse_ne_nil_iff.mpr h.ne_nil
  first c hc := h.last c (List.head?_reverse ▸ hc)
  last c hc := h.first c (List.getLast?_reverse ▸ hc)

/-- Blanks before and after a firm text are all that trimming takes off. -/
theorem IsFirm.trim_append {lead cs trail : List Char} (h : IsFirm cs) (hlead : AreBlank lead)
    (htrail : AreBlank trail) : trim (lead ++ cs ++ trail) = cs := by
  have htrail : ∀ c ∈ trail.reverse, isBlank c = true :=
    fun c hc => htrail c (List.mem_reverse.mp hc)
  -- each pass drops the blanks at one end, and the second one works in reverse
  have hstart : (lead ++ cs ++ trail).dropWhile isBlank = cs ++ trail := by
    rw [List.append_assoc, List.dropWhile_append_of_pos hlead, h.dropWhile_append]
  have hend : (cs ++ trail).reverse.dropWhile isBlank = cs.reverse := by
    rw [List.reverse_append, List.dropWhile_append_of_pos htrail]
    simpa using h.reverse.dropWhile_append []
  rw [trim, hstart, hend, List.reverse_reverse]

end Text

open Text

namespace Multiplicity

/-! ## The grammar -/

/-- An upper bound: a numeral, or a star for none. -/
inductive IsBound : List Char → Option Nat → Prop
  | number {cs : List Char} {n : Nat} : IsNumeral cs n → IsBound cs (some n)
  | star : IsBound ['*'] none

/-- One number stands for the range with it at both ends, a star alone for every count. -/
inductive Spelled : List Char → Multiplicity → Prop
  | number {cs : List Char} {n : Nat} : IsNumeral cs n → Spelled cs ⟨n, some n⟩
  | any : Spelled ['*'] ⟨0, none⟩
  | range {low left right up : List Char} {lower : Nat} {upper : Option Nat} :
      IsNumeral low lower → AreBlank left → AreBlank right → IsBound up upper →
      Spelled (low ++ left ++ '.' :: '.' :: (right ++ up)) ⟨lower, upper⟩

/-- The expression, but for blanks at its two ends, is a spelling of the range. -/
def Denotes (expression : String) (k : Multiplicity) : Prop :=
  ∃ lead body trail, expression.toList = lead ++ body ++ trail ∧
    AreBlank lead ∧ AreBlank trail ∧ Spelled body k

/-! ## The words of an expression -/

/-- A bound has neither a blank nor a dot in it. -/
theorem IsBound.solid {cs : List Char} {u : Option Nat} (h : IsBound cs u) :
    cs ≠ [] ∧ ∀ c ∈ cs, isBlank c = false ∧ c ≠ '.' := by
  have hdigits {ds : List Char} {n : Nat} (hds : Decimal ds n) :
      ∀ c ∈ ds, isBlank c = false ∧ c ≠ '.' := by
    intro c hc
    have hdigit := hds.isDigit c hc
    refine ⟨isBlank_eq_false_of_isDigit hdigit, ?_⟩
    rintro rfl
    exact absurd hdigit (by decide)
  cases h with
  | star => exact ⟨List.cons_ne_nil _ _, List.forall_mem_singleton.mpr (by decide)⟩
  | number h =>
    cases h with
    | plain hn => exact ⟨hn.ne_nil, hdigits hn⟩
    | plus hn =>
      exact ⟨List.cons_ne_nil _ _, List.forall_mem_cons.mpr ⟨by decide, hdigits hn⟩⟩

/-- A bound is firm, as it has no blanks at all. -/
theorem IsBound.isFirm {cs : List Char} {u : Option Nat} (h : IsBound cs u) : IsFirm cs :=
  isFirm_of_forall h.solid.1 fun c hc => (h.solid.2 c hc).1

/-- There is no dot in a bound. -/
theorem IsBound.dot_not_mem {cs : List Char} {u : Option Nat} (h : IsBound cs u) : '.' ∉ cs :=
  fun hdot => (h.solid.2 '.' hdot).2 rfl

/-- A spelling is firm, whatever blanks it has around its dots. -/
theorem Spelled.isFirm {cs : List Char} {k : Multiplicity} (h : Spelled cs k) : IsFirm cs := by
  cases h with
  | number hn => exact (IsBound.number hn).isFirm
  | any => exact IsBound.star.isFirm
  | @range low left right up _ _ hlow _ _ hup =>
    have hfirm := (IsBound.number hlow).isFirm.append hup.isFirm (left ++ '.' :: '.' :: right)
    simpa only [List.append_assoc, List.cons_append] using hfirm

/-- The upper end of a range is read exactly from the bounds. -/
theorem readUpper_eq_some_iff {cs : List Char} {u : Option Nat} :
    readUpper cs = some u ↔ IsBound cs u := by
  unfold readUpper
  constructor
  · intro h
    split at h
    · rename_i hstar
      cases h
      exact beq_iff_eq.mp hstar ▸ .star
    · obtain ⟨n, hn, rfl⟩ := Option.map_eq_some_iff.mp h
      exact .number (readWord_eq_some_iff.mp hn)
  · intro h
    cases h with
    | star => rfl
    | number hn =>
      -- a star is no numeral
      have hstar : ¬ (cs == ['*']) = true := by
        intro hcs
        rw [beq_iff_eq] at hcs
        have hnone : readWord ['*'] = none := by decide
        rw [hcs, ← readWord_eq_some_iff, hnone] at hn
        cases hn
      rw [if_neg hstar, readWord_eq_some_iff.mpr hn, Option.map_some]

/-! ## The dots -/

/-- What is split at the first two dots is put together from the parts and the dots. -/
theorem eq_append_of_splitAtDots {cs before after : List Char}
    (h : splitAtDots cs = some (before, after)) : cs = before ++ '.' :: '.' :: after := by
  induction cs using splitAtDots.induct generalizing before with
  -- the text starts with the dots
  | case1 rest =>
    cases h
    rfl
  | case2 c rest hdots ih =>
    rw [splitAtDots] at h
    -- the first character is no start of the dots, which are in the rest
    · obtain ⟨⟨ds, es⟩, hrest, heq⟩ := Option.map_eq_some_iff.mp h
      cases heq
      rw [ih hrest, List.cons_append]
    · exact hdots
  | case3 => cases h

/-- A text without a dot in front is split off in front of the dots. -/
theorem splitAtDots_append {before : List Char} (h : '.' ∉ before) (after : List Char) :
    splitAtDots (before ++ '.' :: '.' :: after) = some (before, after) := by
  induction before with
  | nil => rfl
  | cons c rest ih =>
    rw [List.mem_cons, not_or] at h
    rw [List.cons_append, splitAtDots, ih h.2, Option.map_some]
    rintro ds rfl
    exact absurd rfl h.1

/-- A text without a dot is not split. -/
theorem splitAtDots_eq_none {cs : List Char} (h : '.' ∉ cs) : splitAtDots cs = none := by
  rw [Option.eq_none_iff_forall_ne_some]
  rintro ⟨before, after⟩ hsplit
  rw [eq_append_of_splitAtDots hsplit] at h
  exact h (List.mem_append_right _ List.mem_cons_self)

/-! ## Reading an expression -/

/-- An expression that denotes a range is read as the range. -/
theorem parse_eq_of_denotes {s : String} {k : Multiplicity} (h : Denotes s k) :
    parse s = some k := by
  obtain ⟨lead, body, trail, hs, hlead, htrail, hbody⟩ := h
  have htrim : trim s.toList = body := by rw [hs, hbody.isFirm.trim_append hlead htrail]
  unfold parse
  rw [htrim]
  cases hbody with
  -- one number, which is both bounds
  | number hn =>
    have hbound := IsBound.number hn
    simp only [splitAtDots_eq_none hbound.dot_not_mem, readUpper_eq_some_iff.mpr hbound]
  | any => rfl
  | @range low left right up lower upper hlow hleft hright hup =>
    have hbound := IsBound.number hlow
    -- the first two dots are the ones between the bounds, since neither bound nor blank has any
    have hdots : '.' ∉ low ++ left := by
      rw [List.mem_append, not_or]
      exact ⟨hbound.dot_not_mem, fun hdot => absurd (hleft '.' hdot) (by decide)⟩
    have hbefore : trim (low ++ left) = low := hbound.isFirm.trim_append areBlank_nil hleft
    have hafter : trim (right ++ up) = up := by
      simpa using hup.isFirm.trim_append hright areBlank_nil
    simp only [splitAtDots_append hdots, hbefore, hafter, readWord_eq_some_iff.mpr hlow,
      readUpper_eq_some_iff.mpr hup]

/-- What is read from an expression is denoted by it. -/
theorem denotes_of_parse_eq {s : String} {k : Multiplicity} (h : parse s = some k) :
    Denotes s k := by
  obtain ⟨lead, trail, hlead, htrail, hs⟩ := exists_eq_append_trim s.toList
  unfold parse at h
  generalize trim s.toList = cs at h hs
  cases hsplit : splitAtDots cs with
  -- without dots there is one number, or a star
  | none =>
    have hbody : Spelled cs k := by
      simp only [hsplit] at h
      split at h
      · rename_i n hn
        cases h
        cases readUpper_eq_some_iff.mp hn with
        | number hn => exact .number hn
      · rename_i hstar
        cases h
        cases readUpper_eq_some_iff.mp hstar with
        | star => exact .any
      · cases h
    exact ⟨lead, cs, trail, hs, hlead, htrail, hbody⟩
  | some parts =>
    -- with dots there are two bounds, each with blanks around it
    obtain ⟨before, after⟩ := parts
    obtain ⟨outerLead, left, houterLead, hleft, hbefore⟩ := exists_eq_append_trim before
    obtain ⟨right, outerTrail, hright, houterTrail, hafter⟩ := exists_eq_append_trim after
    simp only [hsplit] at h
    split at h
    · rename_i lower upper hlower hupper
      cases h
      have hbody := Spelled.range (readWord_eq_some_iff.mp hlower) hleft hright
        (readUpper_eq_some_iff.mp hupper)
      -- blanks at the outer side of a bound belong to the ends of the expression
      refine ⟨lead ++ outerLead, _, outerTrail ++ trail, ?_, hlead.append houterLead,
        houterTrail.append htrail, hbody⟩
      rw [hs, eq_append_of_splitAtDots hsplit]
      conv_lhs => rw [hbefore, hafter]
      simp only [List.append_assoc, List.cons_append]
    · cases h

/-- An expression is read as a range exactly if it denotes it. -/
theorem parse_eq_some_iff {s : String} {k : Multiplicity} : parse s = some k ↔ Denotes s k :=
  ⟨denotes_of_parse_eq, parse_eq_of_denotes⟩

example : parse " +01 ..*" = some ⟨1, none⟩ := by decide +kernel

/-- Reading accepts the grammar and nothing else, and two spellings of one range are read alike. A
property whose expression denotes nothing has the defect that quotes the expression as it stands,
with the blanks at its ends. -/
theorem multiplicity_iff_denotes (s : String) (p : Property) :
    (∀ k, parse s = some k ↔ Denotes s k) ∧
      (∀ k, ({ p with cardinality := s } : Property).multiplicity = .ok k ↔ Denotes s k) ∧
      ∀ d, ({ p with cardinality := s } : Property).multiplicity = .error d ↔
        d = .invalidCardinality s ∧ ∀ k, ¬ Denotes s k := by
  refine ⟨fun k => parse_eq_some_iff,
    fun k => Model.multiplicity_eq_ok_iff.trans parse_eq_some_iff, fun d => ?_⟩
  -- a reading of nothing is the only way to denote nothing
  have hnone : (∀ k, ¬ Denotes s k) ↔ parse s = none := by
    simp only [← parse_eq_some_iff, Option.eq_none_iff_forall_ne_some, ne_eq]
  rw [hnone]
  unfold Property.multiplicity
  cases parse s with
  | none => simp only [Except.error.injEq, eq_comm, and_true]
  | some k => simp only [reduceCtorEq, and_false]

end Multiplicity

end OntoWorlds
