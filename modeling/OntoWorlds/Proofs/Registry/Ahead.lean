import OntoWorlds.Proofs.Registry.Sound

/-!
# OntoWorlds — registries that are ahead by one identifier

A key that is served before its turn gets the identifier that it would get anyway, unless another
key is served in between that wants the same identifier. Two registries that differ in this one
reservation give the same answers for as long as the first one spares the identifier for the key.

* `Registry.Spares` — the registry gives an identifier to one key if to any, and the key no other.
* `Registry.Ahead` — the second registry has given an identifier that the first one spares.
* `Registry.Ahead.give` — both give alike, as long as the identifier is spared.
-/

namespace OntoWorlds

namespace Registry

/-- The identifier goes to the key or to none, and the key gets the identifier or nothing. -/
def Spares (r : Registry) (k : Key) (w : String) : Prop :=
  ∀ l v, r.given? l = some v → (l = k ↔ v = w)

/-- What a later registry spares has been spared before. -/
theorem Spares.of_extends {r r' : Registry} {k : Key} {w : String} (h : r'.Spares k w)
    (hextends : Extends r r') : r.Spares k w :=
  fun l v hl => h l v (hextends l v hl)

/-- A sound registry spares what it has given. -/
theorem Sound.spares_of_given? {r : Registry} (h : r.Sound) {k : Key} {w : String}
    (hk : r.given? k = some w) : r.Spares k w := by
  intro l v hl
  constructor
  · rintro rfl
    exact Option.some.inj (hl.symm.trans hk)
  · rintro rfl
    exact h.injective hl hk

/-- A sound registry spares what it would give next. -/
theorem Sound.spares_give {r : Registry} (h : r.Sound) (k : Key) (base : String) :
    r.Spares k (r.give k base).1 := by
  cases hk : r.given? k with
  | some w =>
    rw [give_of_given? hk]
    exact h.spares_of_given? hk
  | none =>
    rw [give_fst_of_new hk]
    intro l v hl
    constructor
    · rintro rfl
      rw [hk] at hl
      cases hl
    · rintro rfl
      -- what is reserved has not been used, so no key has it
      exact absurd ((h.mem_used_iff _).mpr ⟨l, hl⟩) (h.reserve_fresh base)

/-- The second registry has given the identifier to the key, where the first one may have given
neither; to all other keys both have given the same. -/
structure Ahead (k : Key) (w : String) (r r' : Registry) : Prop where
  sound : r.Sound
  sound' : r'.Sound
  given : ∀ l, l ≠ k → r'.given? l = r.given? l
  early : r'.given? k = some w
  spares : r.Spares k w

namespace Ahead

variable {k : Key} {w : String} {r r' : Registry}

/-- Serving a key of a sound registry brings it ahead. -/
theorem of_give (h : r.Sound) (k : Key) (base : String) :
    Ahead k (r.give k base).1 r (r.give k base).2 where
  sound := h
  sound' := h.give k base
  given := by
    intro l hl
    rw [given?_give, if_neg hl]
  early := given?_give_self r k base
  spares := h.spares_give k base

/-- The registry that is ahead has given everything that the other one has. -/
theorem toExtends (h : Ahead k w r r') : Extends r r' := by
  intro l v hl
  by_cases hlk : l = k
  · obtain rfl := (h.spares l v hl).mp hlk
    rw [hlk, h.early]
  · rw [h.given l hlk, hl]

/-- It has used one more identifier at most. -/
theorem mem_used_iff (h : Ahead k w r r') (u : String) : u ∈ r'.used ↔ u ∈ r.used ∨ u = w := by
  rw [h.sound'.mem_used_iff, h.sound.mem_used_iff]
  constructor
  -- the key itself has the identifier; any other key has what it has in the first registry
  · rintro ⟨l, hl⟩
    by_cases hlk : l = k
    · rw [hlk, h.early] at hl
      exact Or.inr (Option.some.inj hl).symm
    · exact Or.inl ⟨l, by rw [← h.given l hlk, hl]⟩
  · rintro (⟨l, hl⟩ | rfl)
    · exact ⟨l, h.toExtends l u hl⟩
    · exact ⟨k, h.early⟩

/-- One more used identifier changes a reservation only if it is the one that is reserved. -/
theorem reserve_eq (h : Ahead k w r r') {base : String} (hne : (r.reserve base).1 ≠ w) :
    (r'.reserve base).1 = (r.reserve base).1 := by
  apply h.sound.reserve_fst_eq_of_subset h.sound'
  · intro u hu
    exact (h.mem_used_iff u).mpr (Or.inl hu)
  · rw [h.mem_used_iff, not_or]
    exact ⟨h.sound.reserve_fresh base, hne⟩

/-- A key other than that one is given the same in both. -/
theorem give_fst_eq (h : Ahead k w r r') {l : Key} (hlk : l ≠ k) {base : String}
    (hspares : (r.give l base).2.Spares k w) : (r'.give l base).1 = (r.give l base).1 := by
  cases hl : r.given? l with
  | some v => rw [give_of_given? hl, give_of_given? (h.toExtends l v hl)]
  | none =>
    have hl' : r'.given? l = none := by rw [h.given l hlk, hl]
    rw [give_fst_of_new hl, give_fst_of_new hl']
    apply h.reserve_eq
    -- the identifier would go to another key than the one it is spared for
    rw [← give_fst_of_new hl]
    intro hw
    exact hlk ((hspares l _ (given?_give_self r l base)).mpr hw)

/-- Giving a key its identifier in both registries keeps the second one ahead, as long as the first
one spares the identifier. -/
theorem give (h : Ahead k w r r') {l : Key} {base : String}
    (hspares : (r.give l base).2.Spares k w) :
    Ahead k w (r.give l base).2 (r'.give l base).2 where
  sound := h.sound.give l base
  sound' := h.sound'.give l base
  given := by
    intro i hi
    rw [given?_give, given?_give, h.given i hi]
    -- the key that is given now has the same identifier in both, all others have what they had
    by_cases hil : i = l
    · subst hil
      rw [if_pos rfl, if_pos rfl, h.give_fst_eq hi hspares]
    · rw [if_neg hil, if_neg hil]
  early := extends_give r' l base k w h.early
  spares := hspares

end Ahead

end Registry

end OntoWorlds
