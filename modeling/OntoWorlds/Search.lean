/-!
# OntoWorlds — searching for a free number

Fresh identifiers are found by trying numbers upwards. A search is given as many tries as there
are taken values: among one more candidate than that, one is free.

* `taken_of_lt_firstFree`, `not_taken_firstFree` — the search passes taken numbers only and, given
  tries enough, stops at a free one.
-/

namespace OntoWorlds

/-- The first number from `n` on that is not taken, after at most `tries` taken ones. -/
def firstFree (taken : Nat → Bool) : (tries n : Nat) → Nat
  | 0, n => n
  | tries + 1, n => if taken n then firstFree taken tries (n + 1) else n

/-- The search goes upwards from where it starts. -/
theorem le_firstFree (taken : Nat → Bool) (tries n : Nat) : n ≤ firstFree taken tries n := by
  fun_induction firstFree taken tries n with
  | case1 => exact Nat.le_refl _
  | case2 _ _ _ ih => exact Nat.le_of_succ_le ih
  | case3 => exact Nat.le_refl _

/-- Every number that the search passes is taken. -/
theorem taken_of_lt_firstFree {taken : Nat → Bool} {tries n k : Nat} (hn : n ≤ k)
    (hk : k < firstFree taken tries n) : taken k = true := by
  fun_induction firstFree taken tries n with
  | case1 => omega
  | case2 _ _ h ih =>
    rcases Nat.eq_or_lt_of_le hn with rfl | hlt
    · exact h
    · exact ih hlt hk
  | case3 => omega

/-- A free number within the tries ends the search at a free number. -/
theorem not_taken_firstFree {taken : Nat → Bool} {tries n k : Nat} (hn : n ≤ k)
    (hk : k ≤ n + tries) (hfree : taken k = false) :
    taken (firstFree taken tries n) = false := by
  fun_induction firstFree taken tries n with
  | case1 n =>
    obtain rfl : n = k := by omega
    exact hfree
  | case2 _ _ h ih =>
    rcases Nat.eq_or_lt_of_le hn with rfl | hlt
    · rw [hfree] at h
      contradiction
    · exact ih hlt (by omega)
  | case3 _ _ h => exact Bool.eq_false_iff.mpr h

end OntoWorlds
