import Mathlib.Order.Bounds.Basic
import OntoWorlds.Proofs.Ontology.Building

/-!
# OntoWorlds — the search for a fresh id

The numbers of a kind are tried one after the other, and nothing in the loop says that it ends. It
does, in every model: ids may repeat and may have any text, but there are only finitely many of
them, and no two numbers make the same id.

* `SearchEnds` — trying from a number on, up to one that is not taken, without a limit of tries.
* `SearchEnds.isLeast` — a search that ends has found the smallest number that is free.
* `Model.Stores` — the places where a model keeps an id, and `Model.containsId_iff_stores`.
* `Model.freshId_isLeast` — the search for a fresh id ends, and what it returns.
-/

namespace OntoWorlds

/-! ## Searching without a limit -/

/-- Trying numbers from `n` on comes to its end at `k`. -/
inductive SearchEnds (taken : Nat → Bool) : (n k : Nat) → Prop
  | stop {n : Nat} (hfree : taken n = false) : SearchEnds taken n n
  | next {n k : Nat} (htaken : taken n = true) (hrest : SearchEnds taken (n + 1) k) :
      SearchEnds taken n k

section

variable {taken : Nat → Bool} {n k : Nat}

/-- A search that ends has found the smallest free number. -/
theorem SearchEnds.isLeast (h : SearchEnds taken n k) :
    IsLeast {i | n ≤ i ∧ taken i = false} k := by
  induction h with
  | stop hfree => exact ⟨⟨Nat.le_refl _, hfree⟩, fun i hi => hi.1⟩
  | next htaken hrest ih =>
    obtain ⟨⟨hle, hfree⟩, hleast⟩ := ih
    refine ⟨⟨by omega, hfree⟩, ?_⟩
    rintro i ⟨hni, hi⟩
    -- the number tried first is taken, so a free one comes after it
    rcases Nat.eq_or_lt_of_le hni with rfl | hlt
    · rw [htaken] at hi
      contradiction
    · exact hleast ⟨hlt, hi⟩

/-- There is one number that a search can end at. -/
theorem SearchEnds.iff_eq (h : SearchEnds taken n k) (j : Nat) : SearchEnds taken n j ↔ j = k := by
  constructor
  · intro hj
    exact hj.isLeast.unique h.isLeast
  · rintro rfl
    exact h

/-- A free number within the tries is reason enough for the search to end by itself. -/
theorem searchEnds_firstFree {tries : Nat} (hn : n ≤ k) (hk : k ≤ n + tries)
    (hfree : taken k = false) : SearchEnds taken n (firstFree taken tries n) := by
  fun_induction firstFree taken tries n with
  | case1 n =>
    -- no try is left, but then `n` is the free number
    obtain rfl : n = k := by omega
    exact .stop hfree
  | case2 tries n htaken ih =>
    rcases Nat.eq_or_lt_of_le hn with rfl | hlt
    · rw [hfree] at htaken
      contradiction
    · exact .next htaken (ih hlt (by omega))
  | case3 tries n hstop => exact .stop (Bool.eq_false_iff.mpr hstop)

end

/-! ## Where ids are kept -/

namespace Model

variable {m : Model}

/-- An id is that of an element of its own, or that of an attribute or a literal of a class or of
an end of a relation. -/
inductive Stores (m : Model) : ElementId → Prop
  | ofClass {c : Class} (hc : c ∈ m.classes) : Stores m c.id
  | ofAttribute {c : Class} {p : Property} (hc : c ∈ m.classes) (hp : p ∈ c.attributes) :
      Stores m p.id
  | ofLiteral {c : Class} {l : Literal} (hc : c ∈ m.classes) (hl : l ∈ c.literals) : Stores m l.id
  | ofRelation {r : Relation} (hr : r ∈ m.relations) : Stores m r.id
  | ofEnd {r : Relation} {p : Property} (hr : r ∈ m.relations) (hp : p ∈ r.ends) : Stores m p.id
  | ofGeneralization {g : Generalization} (hg : g ∈ m.generalizations) : Stores m g.id
  | ofGeneralizationSet {s : GeneralizationSet} (hs : s ∈ m.generalizationSets) : Stores m s.id

/-- No place is left out, and nothing else is looked at. -/
theorem containsId_iff_stores (m : Model) (id : ElementId) :
    m.containsId id = true ↔ m.Stores id := by
  rw [containsId, List.contains_iff_mem]
  simp only [ids, List.mem_append, List.mem_flatMap, List.mem_cons, List.mem_map]
  constructor
  · rintro (((⟨c, hc, (rfl | ⟨p, hp, rfl⟩) | ⟨l, hl, rfl⟩⟩ | ⟨r, hr, rfl | ⟨p, hp, rfl⟩⟩)
      | ⟨g, hg, rfl⟩) | ⟨s, hs, rfl⟩)
    · exact .ofClass hc
    · exact .ofAttribute hc hp
    · exact .ofLiteral hc hl
    · exact .ofRelation hr
    · exact .ofEnd hr hp
    · exact .ofGeneralization hg
    · exact .ofGeneralizationSet hs
  · intro h
    cases h with
    | @ofClass c hc => exact .inl (.inl (.inl ⟨c, hc, .inl (.inl rfl)⟩))
    | @ofAttribute c p hc hp => exact .inl (.inl (.inl ⟨c, hc, .inl (.inr ⟨p, hp, rfl⟩)⟩))
    | @ofLiteral c l hc hl => exact .inl (.inl (.inl ⟨c, hc, .inr ⟨l, hl, rfl⟩⟩))
    | @ofRelation r hr => exact .inl (.inl (.inr ⟨r, hr, .inl rfl⟩))
    | @ofEnd r p hr hp => exact .inl (.inl (.inr ⟨r, hr, .inr ⟨p, hp, rfl⟩⟩))
    | @ofGeneralization g hg => exact .inl (.inr ⟨g, hg, rfl⟩)
    | @ofGeneralizationSet s hs => exact .inr ⟨s, hs, rfl⟩

/-! ## Fresh ids -/

/-- **Fresh ids.** In every model and for every kind the search ends, at one number: the smallest
from one more than the number of classes, relations, generalizations and generalization sets on
whose id is kept nowhere in the model. The number of ids bounds the tries. -/
theorem freshId_isLeast (m : Model) (kind : ElementKind) :
    (∀ id, m.containsId id = true ↔ m.Stores id) ∧
    ∃ n, m.freshId kind = ⟨kind.tag ++ "-" ++ toString n⟩ ∧
      (∀ k, SearchEnds (fun i => m.containsId (numberedId kind i)) m.firstNumber k ↔ k = n) ∧
      IsLeast {i | m.classes.length + m.relations.length + m.generalizations.length
            + m.generalizationSets.length + 1 ≤ i
          ∧ m.containsId ⟨kind.tag ++ "-" ++ toString i⟩ = false} n ∧
      n ≤ m.firstNumber + m.ids.length := by
  -- one of the numbers tried is free, since the ids cannot block one more number than there are ids
  obtain ⟨k, hle, hk, hfree⟩ := m.exists_free_number kind
  have hends := @searchEnds_firstFree (fun i => m.containsId (numberedId kind i)) _ _ _ hle hk hfree
  have hleast := hends.isLeast
  refine ⟨m.containsId_iff_stores, _, rfl, hends.iff_eq, hleast, ?_⟩
  exact (hleast.2 ⟨hle, hfree⟩).trans hk

/-- An attribute has the id that comes first, so the class gets the next one. -/
example :
    ({ classes := [{ id := ⟨"person"⟩, attributes := [{ id := ⟨"class-2"⟩ }] }] } : Model).freshId
      .klass = ⟨"class-3"⟩ := by
  decide +kernel

end Model

end OntoWorlds
