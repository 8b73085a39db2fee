import OntoWorlds.Proofs.Json.Spelling
import OntoWorlds.Proofs.Module.Multiplicities
import OntoWorlds.Proofs.Multiplicity.Grammar

/-!
# OntoWorlds — what a multiplicity says of a count

A range is written in one of two ways: as the keyword of a declaration, with a constraint beside it
if no keyword means the range, or as a constraint alone. Both are texts, and what they say of a
count is said of the texts, with no reference to the range they were written for.

* `Alloy.KeywordAllows` — the counts that a keyword allows.
* `Alloy.ConstraintAllows` — the counts that a constraint allows, read as comparisons of a term.
* `Alloy.conjunction_injective` — a constraint can be read in one way only.
* `Multiplicity.inRange_iff_allowed` — an expression, the keyword with its constraint, and the
  constraint alone allow the same counts.
-/

namespace OntoWorlds

/-- The count is in the range. -/
def Multiplicity.Contains (k : Multiplicity) (n : Nat) : Prop :=
  k.lower ≤ n ∧ ∀ u ∈ k.upper, n ≤ u

namespace Alloy

/-! ## Keywords -/

/-- The counts that a declaration with the keyword allows. -/
def KeywordAllows (keyword : String) (n : Nat) : Prop :=
  match keyword with
  | "lone" => n ≤ 1
  | "one" => n = 1
  | "some" => 1 ≤ n
  | "set" => True
  | _ => False

/-- A keyword allows the counts of its range. -/
theorem keywordAllows_keyword_iff (q : Quantifier) (n : Nat) :
    KeywordAllows q.keyword n ↔ q.range.Contains n := by
  cases q with
  | lone => simp [KeywordAllows, Quantifier.keyword, Quantifier.range, Multiplicity.Contains]
  | one =>
    simp only [KeywordAllows, Quantifier.keyword, Quantifier.range, Multiplicity.Contains,
      Option.mem_some_iff, forall_eq']
    omega
  | set => simp [KeywordAllows, Quantifier.keyword, Quantifier.range, Multiplicity.Contains]
  | some => simp [KeywordAllows, Quantifier.keyword, Quantifier.range, Multiplicity.Contains]

/-! ## Constraints -/

/-- A comparison of a term with a number. -/
inductive Comparison
  | atLeast (bound : Nat)
  | atMost (bound : Nat)
deriving DecidableEq, Repr

namespace Comparison

/-- The word between the term and the number. -/
def sign : Comparison → String
  | atLeast _ => ">="
  | atMost _ => "<="

/-- The number that the term is compared with. -/
def bound : Comparison → Nat
  | atLeast b => b
  | atMost b => b

/-- The comparison of a term as it is written. -/
def text (term : String) (c : Comparison) : String := term ++ c.sign ++ toString c.bound

/-- Both signs have two characters. -/
theorem length_sign (c : Comparison) : c.sign.toList.length = 2 := by
  cases c <;> simp [sign]

/-- A comparison is settled by its sign and its number. -/
theorem eq_of_sign_eq {c d : Comparison} (hsign : c.sign = d.sign) (hbound : c.bound = d.bound) :
    c = d := by
  -- the two signs are different words
  have hsigns : ">=" ≠ "<=" := by decide
  cases c with
  | atLeast b =>
    cases d with
    | atLeast e => exact congrArg atLeast hbound
    | atMost e => exact absurd hsign hsigns
  | atMost b =>
    cases d with
    | atLeast e => exact absurd hsign.symm hsigns
    | atMost e => exact congrArg atMost hbound

/-- The comparison is true of a term with the value `n`. -/
def IsTrueOf (n : Nat) : Comparison → Prop
  | atLeast b => b ≤ n
  | atMost b => n ≤ b

end Comparison

/-- Comparisons of one term, all of them to hold. -/
def conjunction (term : String) (cs : List Comparison) : String :=
  String.intercalate " and " (cs.map (Comparison.text term))

/-- The constraint is a conjunction of comparisons of the term, and they are true if the term has
the value `n`. -/
def ConstraintAllows (term constraint : String) (n : Nat) : Prop :=
  ∃ cs : List Comparison, constraint = conjunction term cs ∧ ∀ c ∈ cs, c.IsTrueOf n

/-! ## Reading a constraint -/

/-- What stands behind the first comparison. -/
def further (term : String) : List Comparison → String
  | [] => ""
  | c :: cs => " and " ++ conjunction term (c :: cs)

/-- A conjunction is its first comparison and what stands behind that. -/
theorem conjunction_cons (term : String) (c : Comparison) (cs : List Comparison) :
    conjunction term (c :: cs) = c.text term ++ further term cs := by
  cases cs with
  | nil => simp [conjunction, further]
  | cons d ds => simp [conjunction, further, String.append_assoc]

/-- The conjunction as characters: the term, the sign, the digits and the rest. -/
theorem toList_conjunction_cons (term : String) (c : Comparison) (cs : List Comparison) :
    (conjunction term (c :: cs)).toList = term.toList ++ (c.sign.toList ++
      (Nat.toDigits 10 c.bound ++ (further term cs).toList)) := by
  rw [conjunction_cons, Comparison.text, String.toList_append, Identifier.toList_numbered,
    String.toList_append]
  simp only [List.append_assoc]

/-- No digit follows a comparison immediately. -/
theorem noDigit_further (term : String) (cs : List Comparison) :
    Json.NoDigit (further term cs).toList := by
  cases cs with
  | nil => exact fun c hc => absurd hc (by simp [further])
  | cons d ds =>
    -- the next comparison comes behind an `and`, which begins with a blank
    intro c hc
    simp only [further, String.toList_append] at hc
    obtain rfl : ' ' = c := by simpa using hc
    rfl

/-- The numeral in front of a text without a digit at its start. -/
theorem eq_of_toDigits_append_eq {a b : Nat} {x y : List Char} (hx : Json.NoDigit x)
    (hy : Json.NoDigit y) (h : Nat.toDigits 10 a ++ x = Nat.toDigits 10 b ++ y) :
    a = b ∧ x = y := by
  have hdigits (n : Nat) : Json.IsDigits (Nat.toDigits 10 n) :=
    ⟨Nat.toDigits_ne_nil, fun _ hc => Identifier.isDigit_of_mem_digits hc⟩
  obtain ⟨hatake, hadrop⟩ := Json.takeWhile_digits (hdigits a) hx
  obtain ⟨hbtake, hbdrop⟩ := Json.takeWhile_digits (hdigits b) hy
  rw [h] at hatake hadrop
  exact ⟨Identifier.digits_injective (hatake.symm.trans hbtake), hadrop.symm.trans hbdrop⟩

/-- The first comparison can be told from what stands behind it. -/
theorem eq_of_conjunction_cons_eq {term : String} {c d : Comparison} {cs ds : List Comparison}
    (h : conjunction term (c :: cs) = conjunction term (d :: ds)) :
    c = d ∧ further term cs = further term ds := by
  -- the term is the same, the signs have one length, and the digits end by themselves
  have hlist := congrArg String.toList h
  rw [toList_conjunction_cons, toList_conjunction_cons, List.append_right_inj] at hlist
  obtain ⟨hsign, hrest⟩ := List.append_inj hlist (c.length_sign.trans d.length_sign.symm)
  obtain ⟨hbound, hfurther⟩ :=
    eq_of_toDigits_append_eq (noDigit_further term cs) (noDigit_further term ds) hrest
  exact ⟨Comparison.eq_of_sign_eq (String.toList_inj.mp hsign) hbound,
    String.toList_inj.mp hfurther⟩

/-- A conjunction with a comparison in it is not empty. -/
theorem conjunction_cons_ne_empty (term : String) (c : Comparison) (cs : List Comparison) :
    conjunction term (c :: cs) ≠ "" := by
  intro h
  have hlist := congrArg String.toList h
  rw [toList_conjunction_cons] at hlist
  -- a comparison has at least the digits of its number
  simp [Nat.toDigits_ne_nil] at hlist

/-- What stands behind is nothing, or an `and` with the rest of the constraint. -/
theorem conjunction_eq_of_further_eq {term : String} {cs ds : List Comparison}
    (h : further term cs = further term ds) : conjunction term cs = conjunction term ds := by
  cases cs with
  | nil =>
    cases ds with
    | nil => rfl
    | cons d ds => exact absurd h (by simp [further])
  | cons c cs =>
    cases ds with
    | nil => exact absurd h (by simp [further])
    | cons d ds => simpa [further] using h

/-- A constraint can be read in one way only. -/
theorem conjunction_injective (term : String) : Function.Injective (conjunction term) := by
  intro cs
  -- by induction on the comparisons, since the first one can be cut off
  induction cs with
  | nil =>
    intro ds h
    cases ds with
    | nil => rfl
    | cons d ds => exact absurd h.symm (conjunction_cons_ne_empty term d ds)
  | cons c cs ih =>
    intro ds h
    cases ds with
    | nil => exact absurd h (conjunction_cons_ne_empty term c cs)
    | cons d ds =>
      obtain ⟨rfl, hfurther⟩ := eq_of_conjunction_cons_eq h
      rw [ih (conjunction_eq_of_further_eq hfurther)]

/-- Read in its one way, a conjunction allows the counts that all its comparisons are true of. -/
theorem constraintAllows_conjunction_iff {term : String} {cs : List Comparison} {n : Nat} :
    ConstraintAllows term (conjunction term cs) n ↔ ∀ c ∈ cs, c.IsTrueOf n := by
  constructor
  · -- whatever comparisons the text is read as, they are these
    rintro ⟨ds, hds, htrue⟩
    rwa [conjunction_injective term hds]
  · exact fun htrue => ⟨cs, rfl, htrue⟩

/-! ## Bounds as constraints -/

/-- The comparisons that state the bounds. -/
def Bounds.comparisons : Bounds → List Comparison
  | .atLeast lower => [.atLeast lower]
  | .atMost upper => [.atMost upper]
  | .between lower upper => [.atLeast lower, .atMost upper]

/-- Bounds are written as the conjunction of their comparisons. -/
theorem Bounds.text_eq_conjunction (b : Bounds) (term : String) :
    b.text term = conjunction term b.comparisons := by
  cases b <;> simp [Bounds.text, Bounds.comparisons, conjunction, Comparison.text, Comparison.sign,
    Comparison.bound, String.append_assoc]

/-- A text with bounds allows the counts between them. -/
theorem Bounds.constraintAllows_text_iff {b : Bounds} {term : String} {n : Nat} :
    ConstraintAllows term (b.text term) n ↔ b.range.Contains n := by
  rw [b.text_eq_conjunction, constraintAllows_conjunction_iff]
  cases b <;> simp [Bounds.comparisons, Comparison.IsTrueOf, Bounds.range, Multiplicity.Contains]

end Alloy

open Alloy

namespace Multiplicity

/-! ## Ranges as constraints -/

/-- The constraint on a term that states the bounds of a range, if it has any to state. -/
def constraint? (k : Multiplicity) (term : String) : Option String :=
  (Bounds.of? k).map (Bounds.text term)

variable {k : Multiplicity} {term : String} {n : Nat}

/-- Only the range of all counts has no bounds to state. -/
theorem bounds_eq_none_iff : Bounds.of? k = none ↔ k = ⟨0, none⟩ := by
  constructor
  · intro hnone
    by_contra hne
    obtain ⟨b, hb, -⟩ := exists_bounds hne
    rw [hnone] at hb
    cases hb
  · rintro rfl
    rfl

/-- The bounds that are stated mean the range. -/
theorem range_bounds {b : Bounds} (hb : Bounds.of? k = some b) : b.range = k := by
  have hne : k ≠ ⟨0, none⟩ := fun hk => by
    rw [bounds_eq_none_iff.mpr hk] at hb
    cases hb
  obtain ⟨b', hb', hrange⟩ := exists_bounds hne
  obtain rfl : b' = b := Option.some.inj (hb'.symm.trans hb)
  exact hrange

/-- So only this range has no constraint. -/
theorem constraint?_eq_none_iff : k.constraint? term = none ↔ k = ⟨0, none⟩ := by
  rw [constraint?, Option.map_eq_none_iff, bounds_eq_none_iff]

/-- The constraint alone states the range. -/
theorem contains_iff_constraint : k.Contains n ↔
    ∀ constraint ∈ k.constraint? term, ConstraintAllows term constraint n := by
  cases hb : Bounds.of? k with
  | none =>
    -- every count is in the range of all counts, and nothing is stated of it
    obtain rfl := bounds_eq_none_iff.mp hb
    refine iff_of_true ⟨Nat.zero_le n, nofun⟩ fun constraint hconstraint => ?_
    rw [constraint?, hb] at hconstraint
    cases hconstraint
  | some b =>
    rw [constraint?, hb, Option.map_some, ← range_bounds hb]
    simp only [Option.mem_some_iff, forall_eq', Bounds.constraintAllows_text_iff]

/-- So does the keyword, with the constraint beside it if the range is custom. -/
theorem contains_iff_keyword_and_constraint : k.Contains n ↔
    KeywordAllows k.quantifier.keyword n ∧ (k.isCustom = true →
      ∀ constraint ∈ k.constraint? term, ConstraintAllows term constraint n) := by
  rw [keywordAllows_keyword_iff, ← contains_iff_constraint]
  by_cases hcustom : k.isCustom = true
  · -- a custom range is declared with the keyword for all counts
    rw [quantifier_of_isCustom hcustom]
    exact ⟨fun hn => ⟨⟨Nat.zero_le n, nofun⟩, fun _ => hn⟩, fun hn => hn.2 hcustom⟩
  · -- any other keyword means the range that it was chosen for
    rw [range_quantifier (Bool.eq_false_iff.mpr hcustom)]
    exact ⟨fun hn => ⟨hn, fun h => absurd h hcustom⟩, fun hn => hn.1⟩

/-- **Two ways to write a range.** An expression that denotes the range from `lower` to `upper` is
read. The counts of the range are those that the keyword allows, together with the constraint if the
range is custom; they are also those that the constraint alone allows, for every range, custom or
not. Only the range of all counts has no constraint. -/
theorem inRange_iff_allowed {s : String} {lower : Nat} {upper : Option Nat}
    (h : Denotes s ⟨lower, upper⟩) :
    ∃ k, parse s = some k ∧ ∀ (term : String) (n : Nat),
      ((lower ≤ n ∧ ∀ u ∈ upper, n ≤ u) ↔
        KeywordAllows k.quantifier.keyword n ∧
          (k.isCustom = true →
            ∀ constraint ∈ k.constraint? term, ConstraintAllows term constraint n)) ∧
      ((lower ≤ n ∧ ∀ u ∈ upper, n ≤ u) ↔
        ∀ constraint ∈ k.constraint? term, ConstraintAllows term constraint n) ∧
      (k.constraint? term = none ↔ lower = 0 ∧ upper = none) := by
  refine ⟨_, parse_eq_of_denotes h, fun term n => ?_⟩
  refine ⟨contains_iff_keyword_and_constraint (k := ⟨lower, upper⟩),
    contains_iff_constraint (k := ⟨lower, upper⟩), ?_⟩
  rw [constraint?_eq_none_iff, Multiplicity.mk.injEq]

/-- Two to five telephones, with blanks and a sign in the expression. -/
theorem telephones_inRange_iff_allowed : Denotes " +02.. 5" ⟨2, some 5⟩ ∧
    ∃ k, parse " +02.. 5" = some k ∧ k.isCustom = true ∧
      k.constraint? "#phones1[x,w]" = some "#phones1[x,w]>=2 and #phones1[x,w]<=5" ∧
      ConstraintAllows "#phones1[x,w]" "#phones1[x,w]>=2 and #phones1[x,w]<=5" 5 ∧
      ¬ ConstraintAllows "#phones1[x,w]" "#phones1[x,w]>=2 and #phones1[x,w]<=5" 6 := by
  have hread : parse " +02.. 5" = some ⟨2, some 5⟩ := by decide +kernel
  have hdenotes := parse_eq_some_iff.mp hread
  obtain ⟨k, hk, hallowed⟩ := inRange_iff_allowed hdenotes
  obtain rfl : ⟨2, some 5⟩ = k := Option.some.inj (hread.symm.trans hk)
  have hconstraint : (⟨2, some 5⟩ : Multiplicity).constraint? "#phones1[x,w]" =
      some "#phones1[x,w]>=2 and #phones1[x,w]<=5" := by decide +kernel
  have hfive := (hallowed "#phones1[x,w]" 5).2.1.mp (by simp)
  have hsix := mt (hallowed "#phones1[x,w]" 6).2.1.mpr (by simp)
  rw [hconstraint] at hfive hsix
  refine ⟨hdenotes, _, hread, rfl, hconstraint, hfive _ rfl, fun hallows => hsix ?_⟩
  rintro constraint ⟨⟩
  exact hallows

end Multiplicity

end OntoWorlds
