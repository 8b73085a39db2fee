import OntoWorlds.Proofs.Identifier.Legality

/-!
# OntoWorlds — the registry invariant

Names and aliases are recorded apart but share the used identifiers and the remembered numbers. A
`Key` names the record and the id together, so that both kinds of request are one operation, `give`.

* `Registry.Sound` — the used identifiers are those given, no two keys have the same one, and every
  number below a remembered one is used.
* `Sound.give` — giving keeps the registry sound; hence so does any run of requests.
* `Sound.reserve_fst` — what is reserved is the base, or the base and its smallest free number.
* `Sound.isIssuable_give` — from issuable bases come issuable identifiers.
* `Extends` — later registries have given everything that earlier ones have.
-/

namespace OntoWorlds

/-- What an identifier is given for: an id, as its name or as its alias. -/
inductive Key
  | own (id : ElementId)
  | byname (id : ElementId)
deriving DecidableEq, Repr

namespace Registry

/-- The identifier that a key has been given. -/
def given? (r : Registry) : Key → Option String
  | .own id => r.nameOf? id
  | .byname id => r.aliasOf? id

/-- The identifier of a key, reserved from the base if it has none. -/
def give (r : Registry) : Key → String → String × Registry
  | .own id, base => r.name id base
  | .byname id, base => r.alias id base

/-! ## What giving does -/

/-- A key that has its identifier is given that one, and nothing is recorded. -/
theorem give_of_given? {r : Registry} {k : Key} {w : String} (h : r.given? k = some w)
    (base : String) : r.give k base = (w, r) := by
  cases k with
  | own id => exact name_of_nameOf? h base
  | byname id => exact alias_of_aliasOf? h base

/-- A new key is given what is reserved. -/
theorem give_fst_of_new {r : Registry} {k : Key} (h : r.given? k = none) (base : String) :
    (r.give k base).1 = (r.reserve base).1 := by
  cases k with
  | own id => rw [give, name, show r.nameOf? id = none from h]
  | byname id => rw [give, Registry.alias, show r.aliasOf? id = none from h]

/-- Its identifier is used from then on. -/
theorem used_give_of_new {r : Registry} {k : Key} (h : r.given? k = none) (base : String) :
    (r.give k base).2.used = (r.reserve base).1 :: r.used := by
  rw [← used_reserve]
  cases k with
  | own id => rw [give, name, show r.nameOf? id = none from h]
  | byname id => rw [give, Registry.alias, show r.aliasOf? id = none from h]

/-- Only the reservation moves the remembered numbers. -/
theorem startNumber_give_of_new {r : Registry} {k : Key} (h : r.given? k = none)
    (base b : String) : (r.give k base).2.startNumber b = (r.reserve base).2.startNumber b := by
  cases k with
  | own id => rw [give, name, show r.nameOf? id = none from h]; rfl
  | byname id => rw [give, Registry.alias, show r.aliasOf? id = none from h]; rfl

private theorem lookup_cons_eq (id l : ElementId) (w : String) (es : List (ElementId × String)) :
    ((id, w) :: es).lookup l = if l = id then some w else es.lookup l := by
  rw [List.lookup_cons]
  by_cases h : l = id
  · simp [h]
  · simp [h, beq_eq_false_iff_ne.mpr h]

/-- Giving settles its key and touches no other. -/
theorem given?_give (r : Registry) (k l : Key) (base : String) :
    (r.give k base).2.given? l = if l = k then some (r.give k base).1 else r.given? l := by
  cases hk : r.given? k with
  | some w =>
    -- a key that has its identifier leaves the registry as it is
    rw [give_of_given? hk]
    by_cases hl : l = k
    · rw [if_pos hl, hl, hk]
    · rw [if_neg hl]
  | none =>
    -- a new key: names and aliases are recorded in lists of their own
    cases k with
    | own id =>
      have hid : r.nameOf? id = none := hk
      cases l with
      | own id' =>
        rw [give, name, hid]
        simp only [given?, nameOf?, lookup_cons_eq, Key.own.injEq, names_reserve]
      | byname id' =>
        rw [give, name, hid]
        simp only [given?, aliasOf?, aliases_reserve, reduceCtorEq, if_false]
    | byname id =>
      have hid : r.aliasOf? id = none := hk
      cases l with
      | own id' =>
        rw [give, Registry.alias, hid]
        simp only [given?, nameOf?, names_reserve, reduceCtorEq, if_false]
      | byname id' =>
        rw [give, Registry.alias, hid]
        simp only [given?, aliasOf?, lookup_cons_eq, Key.byname.injEq, aliases_reserve]

/-- A key has what it has just been given. -/
theorem given?_give_self (r : Registry) (k : Key) (base : String) :
    (r.give k base).2.given? k = some (r.give k base).1 := by
  rw [given?_give, if_pos rfl]

/-! ## The free number -/

theorem isUsed_iff (r : Registry) (w : String) : r.isUsed w = true ↔ w ∈ r.used := by
  rw [isUsed, List.contains_iff_mem]

/-- The number that the search finds makes an unused identifier. -/
theorem not_mem_used_freeNumber {r : Registry} {base : String} (h : base ∈ r.used) :
    base ++ toString (r.freeNumber base) ∉ r.used := by
  obtain ⟨k, hle, hlt, hfree⟩ := Identifier.exists_unused_number h (r.startNumber base)
  -- among as many candidates as there are used identifiers, one is free
  have hk : r.isUsed (base ++ toString k) = false := by
    rw [Bool.eq_false_iff, ne_eq, isUsed_iff]
    exact hfree
  -- so the search ends before its bound
  have hnumber : r.isUsed (base ++ toString (r.freeNumber base)) = false :=
    @not_taken_firstFree (fun n => r.isUsed (base ++ toString n)) _ _ _ hle hlt.le hk
  rw [← isUsed_iff, hnumber]
  exact Bool.false_ne_true

/-- All numbers that the search passes are used. -/
theorem mem_used_of_lt_freeNumber {r : Registry} {base : String} {k : Nat}
    (hle : r.startNumber base ≤ k) (hlt : k < r.freeNumber base) :
    base ++ toString k ∈ r.used := by
  have htaken : r.isUsed (base ++ toString k) = true :=
    @taken_of_lt_firstFree (fun n => r.isUsed (base ++ toString n)) _ _ _ hle hlt
  exact (isUsed_iff r _).mp htaken

/-- The smallest number from one on that makes the base an unused identifier. -/
structure IsSmallestFree (used : List String) (base : String) (n : Nat) : Prop where
  one_le : 1 ≤ n
  free : base ++ toString n ∉ used
  smallest : ∀ k, 1 ≤ k → k < n → base ++ toString k ∈ used

/-- There is at most one smallest free number. -/
theorem IsSmallestFree.unique {used : List String} {base : String} {n k : Nat}
    (hn : IsSmallestFree used base n) (hk : IsSmallestFree used base k) : n = k := by
  rcases Nat.lt_trichotomy n k with hlt | heq | hgt
  · exact absurd (hk.smallest n hn.one_le hlt) hn.free
  · exact heq
  · exact absurd (hn.smallest k hk.one_le hgt) hk.free

/-- A number that stays free stays the smallest one, whatever else is used. -/
theorem IsSmallestFree.of_subset {used used' : List String} {base : String} {n : Nat}
    (hn : IsSmallestFree used base n) (hsub : used ⊆ used') (hfree : base ++ toString n ∉ used') :
    IsSmallestFree used' base n where
  one_le := hn.one_le
  free := hfree
  smallest k hone hlt := hsub (hn.smallest k hone hlt)

/-! ## The invariant -/

/-- The invariant of a registry. -/
structure Sound (r : Registry) : Prop where
  mem_used_iff : ∀ w, w ∈ r.used ↔ ∃ k, r.given? k = some w
  injective : ∀ {k l : Key} {w : String}, r.given? k = some w → r.given? l = some w → k = l
  one_le_start : ∀ base, 1 ≤ r.startNumber base
  used_below_start : ∀ base n, 1 ≤ n → n < r.startNumber base → base ++ toString n ∈ r.used

/-- A registry that has given nothing is sound. -/
theorem sound_empty : ({} : Registry).Sound where
  mem_used_iff := by
    intro w
    constructor
    · intro h
      simp at h
    · rintro ⟨_ | _, h⟩ <;> simp [given?, nameOf?, aliasOf?] at h
  injective := by
    rintro (_ | _) l w h <;> simp [given?, nameOf?, aliasOf?] at h
  one_le_start := fun _ => Nat.le_refl 1
  used_below_start := by
    intro base n hone hlt
    have : n < 1 := hlt
    omega

/-- In a sound registry the search finds the smallest free number, though it starts later. -/
theorem Sound.isSmallestFree {r : Registry} (h : r.Sound) {base : String} (hbase : base ∈ r.used) :
    IsSmallestFree r.used base (r.freeNumber base) where
  one_le := Nat.le_trans (h.one_le_start base) (le_firstFree _ _ _)
  free := not_mem_used_freeNumber hbase
  smallest := by
    intro k hone hlt
    -- numbers below the start are used by the invariant, the others have been passed by the search
    by_cases hstart : k < r.startNumber base
    · exact h.used_below_start base k hone hstart
    · exact mem_used_of_lt_freeNumber (by omega) hlt

/-- What is reserved is the base if it is free, and else the base with its smallest free number. -/
theorem Sound.reserve_fst {r : Registry} (h : r.Sound) (base : String) :
    base ∉ r.used ∧ (r.reserve base).1 = base ∨
      base ∈ r.used ∧ ∃ n, IsSmallestFree r.used base n ∧
        (r.reserve base).1 = base ++ toString n := by
  by_cases hbase : base ∈ r.used
  · right
    refine ⟨hbase, r.freeNumber base, h.isSmallestFree hbase, ?_⟩
    rw [reserve, if_pos ((isUsed_iff r base).mpr hbase)]
  · left
    refine ⟨hbase, ?_⟩
    rw [reserve, if_neg (mt (isUsed_iff r base).mp hbase)]

/-- What is reserved has not been used. -/
theorem Sound.reserve_fresh {r : Registry} (h : r.Sound) (base : String) :
    (r.reserve base).1 ∉ r.used := by
  rcases h.reserve_fst base with ⟨hfree, heq⟩ | ⟨-, n, hn, heq⟩
  · rw [heq]
    exact hfree
  · rw [heq]
    exact hn.free

/-- A registry that has used more reserves the same, unless it has used what would be reserved. -/
theorem Sound.reserve_fst_eq_of_subset {r r' : Registry} (h : r.Sound) (h' : r'.Sound)
    (hsub : r.used ⊆ r'.used) {base : String} (hfree : (r.reserve base).1 ∉ r'.used) :
    (r'.reserve base).1 = (r.reserve base).1 := by
  rcases h.reserve_fst base with ⟨-, heq⟩ | ⟨hbase, n, hn, heq⟩
  -- the base is free in both registries
  · rw [heq] at hfree ⊢
    rcases h'.reserve_fst base with ⟨-, heq'⟩ | ⟨hbase', -⟩
    · exact heq'
    · exact absurd hbase' hfree
  -- the base is used in both, and its number stays the smallest free one
  · rw [heq] at hfree ⊢
    rcases h'.reserve_fst base with ⟨hbase', -⟩ | ⟨-, n', hn', heq'⟩
    · exact absurd (hsub hbase) hbase'
    · rw [heq', hn'.unique (hn.of_subset hsub hfree)]

/-- A reservation moves the remembered number of its base at most, to the one after the number
found. -/
theorem startNumber_reserve (r : Registry) (base b : String) :
    (r.reserve base).2.startNumber b = r.startNumber b ∨
      b = base ∧ base ∈ r.used ∧ (r.reserve base).1 = base ++ toString (r.freeNumber base) ∧
        (r.reserve base).2.startNumber b = r.freeNumber base + 1 := by
  by_cases hbase : r.isUsed base = true
  · by_cases hb : b = base
    · right
      refine ⟨hb, (isUsed_iff r base).mp hbase, ?_, ?_⟩
      · rw [reserve, if_pos hbase]
      · rw [reserve, if_pos hbase, hb]
        simp [startNumber]
    · left
      rw [reserve, if_pos hbase]
      simp [startNumber, List.lookup_cons, beq_eq_false_iff_ne.mpr hb]
  · left
    rw [reserve, if_neg hbase]
    rfl

/-- **Invariant.** Giving an identifier to any key keeps a registry sound. -/
theorem Sound.give {r : Registry} (h : r.Sound) (k : Key) (base : String) :
    (r.give k base).2.Sound := by
  cases hk : r.given? k with
  | some w =>
    rw [give_of_given? hk]
    exact h
  | none =>
    have hfst := give_fst_of_new hk base
    have hused := used_give_of_new hk base
    -- what is given to a new key has been given to no key before
    have hfresh : ∀ l, r.given? l ≠ some (r.give k base).1 := by
      intro l hl
      rw [hfst] at hl
      exact h.reserve_fresh base ((h.mem_used_iff _).mpr ⟨l, hl⟩)
    refine ⟨?_, ?_, ?_, ?_⟩
    · -- the new identifier is the only new one on both sides
      intro w
      rw [hused, List.mem_cons, h.mem_used_iff, ← hfst]
      constructor
      · rintro (rfl | ⟨l, hl⟩)
        · exact ⟨k, given?_give_self r k base⟩
        · refine ⟨l, ?_⟩
          have hne : l ≠ k := by
            rintro rfl
            rw [hk] at hl
            exact Option.some_ne_none w hl.symm
          rw [given?_give, if_neg hne, hl]
      · rintro ⟨l, hl⟩
        rw [given?_give] at hl
        split at hl
        · exact Or.inl (Option.some.inj hl).symm
        · exact Or.inr ⟨l, hl⟩
    -- two keys with one identifier: neither of them, one of them or both are the new one
    · intro l l' w hl hl'
      rw [given?_give] at hl hl'
      split at hl <;> split at hl'
      · next h₁ h₂ => rw [h₁, h₂]
      · rw [← Option.some.inj hl] at hl'
        exact absurd hl' (hfresh l')
      · rw [← Option.some.inj hl'] at hl
        exact absurd hl (hfresh l)
      · exact h.injective hl hl'
    -- the search starts at one or later
    · intro b
      rw [startNumber_give_of_new hk]
      rcases startNumber_reserve r base b with heq | ⟨-, -, -, heq⟩
      · rw [heq]
        exact h.one_le_start b
      · rw [heq]
        omega
    · -- only the number just used lies below a start that has moved
      intro b n hone hlt
      rw [startNumber_give_of_new hk] at hlt
      rw [hused]
      rcases startNumber_reserve r base b with heq | ⟨rfl, hb, hid, heq⟩
      · rw [heq] at hlt
        exact List.mem_cons_of_mem _ (h.used_below_start b n hone hlt)
      · rw [heq] at hlt
        rcases Nat.lt_succ_iff_lt_or_eq.mp hlt with hlt | rfl
        · exact List.mem_cons_of_mem _ ((h.isSmallestFree hb).smallest n hone hlt)
        · rw [hid]
          exact List.mem_cons_self

/-- Giving uses up the identifier given, which may have been used before. -/
theorem Sound.mem_used_give {r : Registry} (h : r.Sound) (k : Key) (base w : String) :
    w ∈ (r.give k base).2.used ↔ w = (r.give k base).1 ∨ w ∈ r.used := by
  -- the key has the identifier already, or it is given a new one
  cases hk : r.given? k with
  | some v =>
    rw [give_of_given? hk]
    constructor
    · exact Or.inr
    · rintro (rfl | hw)
      · exact (h.mem_used_iff w).mpr ⟨k, hk⟩
      · exact hw
  | none => rw [used_give_of_new hk, List.mem_cons, give_fst_of_new hk]

/-- For issuable bases a sound registry hands out issuable identifiers only. -/
theorem Sound.isIssuable_give {r : Registry} (h : r.Sound)
    (hused : ∀ w ∈ r.used, Identifier.IsIssuable w) (k : Key) {base : String}
    (hbase : Identifier.IsIssuable base) : Identifier.IsIssuable (r.give k base).1 := by
  cases hk : r.given? k with
  | some w =>
    rw [give_of_given? hk]
    exact hused w ((h.mem_used_iff w).mpr ⟨k, hk⟩)
  | none =>
    rw [give_fst_of_new hk]
    rcases h.reserve_fst base with ⟨-, heq⟩ | ⟨-, n, -, heq⟩
    · rw [heq]
      exact hbase
    · rw [heq]
      exact Identifier.isIssuable_numbered hbase n

/-! ## Later registries -/

/-- Everything that `r` has given, `r'` has given for the same key. -/
def Extends (r r' : Registry) : Prop :=
  ∀ (k : Key) (w : String), r.given? k = some w → r'.given? k = some w

theorem Extends.refl (r : Registry) : Extends r r := fun _ _ h => h

/-- Extension goes on from registry to registry. -/
theorem Extends.trans {r r' r'' : Registry} (h : Extends r r') (h' : Extends r' r'') :
    Extends r r'' := fun k w hk => h' k w (h k w hk)

/-- Giving loses nothing that has been given. -/
theorem extends_give (r : Registry) (k : Key) (base : String) : Extends r (r.give k base).2 := by
  intro l w hl
  by_cases hlk : l = k
  · subst hlk
    rw [give_of_given? hl]
    exact hl
  · rw [given?_give, if_neg hlk, hl]

end Registry

end OntoWorlds
