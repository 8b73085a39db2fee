import OntoWorlds.Text.Blank
import OntoWorlds.Text.Numeral

/-!
# OntoWorlds — multiplicities

A multiplicity expression is `n`, `*`, `n..m` or `n..*`, with blanks allowed around each number.
It denotes a range of counts; four ranges have a keyword in the target language, every other one is
*custom* and declared as `set`, its bounds being stated by a fact.

* `Multiplicity.parse` reads an expression.
* `Multiplicity.quantifier?` is the keyword that means exactly the range, if there is one.
* `Multiplicity.lower?`, `Multiplicity.upper?` are the bounds that need stating.
-/

namespace OntoWorlds

/-- The multiplicity keywords. -/
inductive Quantifier
  | lone | one | set | some
deriving DecidableEq, Repr, Inhabited

/-- The quantifier as it is written in a column. -/
def Quantifier.keyword : Quantifier → String
  | .lone => "lone"
  | .one => "one"
  | .set => "set"
  | .some => "some"

/-- The counts from `lower` to `upper`, without end if `upper` is absent. -/
structure Multiplicity where
  lower : Nat
  upper : Option Nat
deriving DecidableEq, Repr, Inhabited

namespace Multiplicity

/-- The text before and after the first `..`. -/
def splitAtDots : List Char → Option (List Char × List Char)
  | '.' :: '.' :: rest => some ([], rest)
  | c :: rest => (splitAtDots rest).map fun (before, after) => (c :: before, after)
  | [] => none

/-- An upper bound: a number, or `*` for none. -/
def readUpper (cs : List Char) : Option (Option Nat) :=
  if cs == ['*'] then some none else (Text.readWord cs).map some

/-- Reads `lower..upper`, or an upper bound alone; blanks around either are dropped. -/
def parse (expression : String) : Option Multiplicity :=
  let cs := Text.trim expression.toList
  match splitAtDots cs with
  | some (before, after) =>
    match Text.readWord (Text.trim before), readUpper (Text.trim after) with
    | some lower, some upper => some ⟨lower, upper⟩
    | _, _ => none
  | none =>
    match readUpper cs with
    | some (some n) => some ⟨n, some n⟩
    | some none => some ⟨0, none⟩
    | none => none

/-- The keyword that means exactly this range. -/
def quantifier? (m : Multiplicity) : Option Quantifier :=
  match m.lower, m.upper with
  | 0, some 1 => some .lone
  | 1, some 1 => some .one
  | 0, none => some .set
  | 1, none => some .some
  | _, _ => none

/-- The keyword of a declaration; a custom range is declared as `set`. -/
def quantifier (m : Multiplicity) : Quantifier := m.quantifier?.getD .set

/-- No quantifier says exactly what the multiplicity says. -/
def isCustom (m : Multiplicity) : Bool := m.quantifier?.isNone

/-- The lower bound, unless every count satisfies it. -/
def lower? (m : Multiplicity) : Option Nat := if m.lower > 0 then some m.lower else none

/-- The upper bound, if there is one. -/
def upper? (m : Multiplicity) : Option Nat := m.upper

/-- A range without a quantifier of its own is written with `set`. -/
theorem quantifier_of_isCustom {m : Multiplicity} (h : m.isCustom = true) :
    m.quantifier = .set := by
  rw [isCustom, Option.isNone_iff_eq_none] at h
  rw [quantifier, h, Option.getD_none]

end Multiplicity

end OntoWorlds
