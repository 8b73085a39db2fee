import Mathlib.Data.List.Nodup
import Mathlib.Data.List.Perm.Subperm
import Mathlib.Tactic.IntervalCases
import OntoWorlds.Identifier.Registry

/-!
# OntoWorlds — numbered identifiers

A base that is used already is told apart by the number behind it. Numbers are told apart by their
decimal form, so a base has as many candidates as there are numbers, and finitely many used
identifiers leave one of them free.

* `numbered_injective` — different numbers give different identifiers.
* `exists_unused_number` — among as many candidates as there are used identifiers, one is unused.
* `numbered_eq_select13` — the two ways to number a base into the reserved word that ends in a
  digit.
-/

namespace OntoWorlds.Identifier

/-- The last character is an ASCII digit. -/
def endsInDigit (w : String) : Bool :=
  match w.toList.getLast? with
  | some c => c.isDigit
  | none => false

/-- The characters of a numbered identifier: those of the base, then the digits. -/
theorem toList_numbered (base : String) (n : Nat) :
    (base ++ toString n).toList = base.toList ++ Nat.toDigits 10 n := by
  rw [String.toList_append, Nat.toString_eq_ofList_toDigits, String.toList_ofList]

theorem isDigit_of_mem_digits {n : Nat} {c : Char} (h : c ∈ Nat.toDigits 10 n) :
    c.isDigit = true :=
  Nat.isDigit_of_mem_toDigits (by decide) (by decide) h

/-- Numbers are told apart by their digits. -/
theorem digits_injective {m n : Nat} (h : Nat.toDigits 10 m = Nat.toDigits 10 n) : m = n := by
  -- reading the digits back is a left inverse
  have hm := Nat.ofDigitChars_toDigits (n := m) (b := 10) (by decide) (by decide)
  rw [h, Nat.ofDigitChars_toDigits (by decide) (by decide)] at hm
  exact hm.symm

/-- **Numbering.** Different numbers behind one base make different identifiers. -/
theorem numbered_injective (base : String) :
    Function.Injective fun n : Nat => base ++ toString n := by
  intro m n h
  have hlist := congrArg String.toList h
  simp only [toList_numbered, List.append_right_inj] at hlist
  exact digits_injective hlist

/-- A number behind a base makes another word. -/
theorem numbered_ne_self (base : String) (n : Nat) : base ++ toString n ≠ base := by
  intro h
  have hlist := congrArg String.toList h
  rw [toList_numbered, List.append_right_eq_self] at hlist
  exact Nat.toDigits_ne_nil hlist

/-- Every numbered identifier ends in a digit. -/
theorem endsInDigit_numbered (base : String) (n : Nat) :
    endsInDigit (base ++ toString n) = true := by
  have hlast := List.getLast?_eq_some_getLast (Nat.toDigits_ne_nil (n := n) (b := 10))
  unfold endsInDigit
  rw [toList_numbered, List.getLast?_append_of_ne_nil _ Nat.toDigits_ne_nil, hlast]
  exact isDigit_of_mem_digits (List.getLast_mem _)

/-! ## A free number -/

/-- Among one more candidate than there are used values, one is unused. -/
theorem exists_not_mem_of_injective {α : Type} {f : Nat → α} (hf : Function.Injective f)
    (used : List α) (n : Nat) : ∃ k, n ≤ k ∧ k ≤ n + used.length ∧ f k ∉ used := by
  by_contra hall
  push Not at hall
  -- otherwise the candidates are all used, one more than there is room for
  have hnodup : ((List.range' n (used.length + 1)).map f).Nodup := (List.nodup_range' _).map hf
  have hsubset : (List.range' n (used.length + 1)).map f ⊆ used := by
    intro w hw
    obtain ⟨k, hk, rfl⟩ := List.mem_map.mp hw
    have hrange := List.mem_range'_1.mp hk
    exact hall k hrange.1 (by omega)
  have hlength := (hnodup.subperm hsubset).length_le
  rw [List.length_map, List.length_range'] at hlength
  omega

/-- The base itself is used, so one of the used identifiers is no candidate. -/
theorem exists_unused_number {base : String} {used : List String} (h : base ∈ used) (n : Nat) :
    ∃ k, n ≤ k ∧ k < n + used.length ∧ base ++ toString k ∉ used := by
  obtain ⟨k, hle, hk, hfree⟩ :=
    exists_not_mem_of_injective (numbered_injective base) (used.erase base) n
  have hpos : 0 < used.length := List.length_pos_of_mem h
  rw [List.length_erase_of_mem h] at hk
  refine ⟨k, hle, by omega, ?_⟩
  intro hmem
  exact hfree ((List.mem_erase_of_ne (numbered_ne_self base k)).mpr hmem)

/-! ## The reserved word that ends in a digit -/

/-- The reserved word that ends in a digit is a numbered identifier in two ways. -/
theorem numbered_eq_select13 (base : String) (n : Nat) :
    base ++ toString n = "select13" ↔ base = "select1" ∧ n = 3 ∨ base = "select" ∧ n = 13 := by
  constructor
  · intro h
    have hlist := congrArg String.toList h
    rw [toList_numbered] at hlist
    have hdigit : (Nat.toDigits 10 n).all (·.isDigit) = true :=
      List.all_eq_true.mpr fun c hc => isDigit_of_mem_digits hc
    have hn : n = Nat.ofDigitChars 10 (Nat.toDigits 10 n) 0 :=
      (Nat.ofDigitChars_toDigits (by decide) (by decide)).symm
    have hbase : base = String.ofList ("select13".toList.take base.toList.length) := by
      rw [← hlist, List.take_left, String.ofList_toList]
    have hrest : Nat.toDigits 10 n = "select13".toList.drop base.toList.length := by
      rw [← hlist, List.drop_left]
    -- the number has at least one digit
    have hle : base.toList.length < 8 := by
      have hlength := congrArg List.length hlist
      rw [List.length_append] at hlength
      have := List.length_pos_iff.mpr (Nat.toDigits_ne_nil (n := n) (b := 10))
      have : "select13".toList.length = 8 := by decide +kernel
      omega
    -- where the digits begin: any place before the last two leaves a letter among them
    generalize base.toList.length = k at hbase hrest hle
    rw [hrest] at hdigit hn
    subst hbase hn
    clear h hlist hrest
    interval_cases k <;> revert hdigit <;> decide +kernel
  · rintro (⟨rfl, rfl⟩ | ⟨rfl, rfl⟩) <;> decide +kernel

end OntoWorlds.Identifier
