import OntoWorlds.Proofs.Registry.Legality

/-!
# OntoWorlds — the answers of a registry and their keys

A registry is called in any order, with ids that recur and bases that already look numbered. What a
call is answered depends on the history, but never on more of the call than its key once that key
has been asked for: every answer is what its key has in the end.

* `getElem?_answers` — the answer to a call is the identifier its key has after the whole run.
* `answers_eq_iff_keys_eq` — the used identifiers are the answers, and two answers are the same
  exactly if their calls have the same key.
-/

namespace OntoWorlds.Registry

/-- A call loses nothing that has been given. -/
theorem extends_answer (r : Registry) (c : Call) : Extends r (r.answer c).2 := by
  rw [answer_eq_give]
  exact extends_give r c.key c.base

theorem extends_after (r : Registry) (cs : List Call) : Extends r (r.after cs) := by
  induction cs generalizing r with
  | nil => exact Extends.refl r
  | cons c cs ih => exact (extends_answer r c).trans (ih (r.answer c).2)

/-- The answer to a call is recorded for its key. -/
theorem given?_answer_self (r : Registry) (c : Call) :
    (r.answer c).2.given? c.key = some (r.answer c).1 := by
  rw [answer_eq_give]
  exact given?_give_self r c.key c.base

theorem length_answers (r : Registry) (cs : List Call) : (r.answers cs).length = cs.length := by
  induction cs generalizing r with
  | nil => rfl
  | cons c cs ih => exact congrArg (· + 1) (ih (r.answer c).2)

/-- The answer to a call is what its key has been given when the run is over. -/
theorem getElem?_answers {r : Registry} {cs : List Call} {i : Nat} {c : Call}
    (h : cs[i]? = some c) : (r.answers cs)[i]? = (r.after cs).given? c.key := by
  induction cs generalizing r i with
  | nil => simp at h
  | cons d cs ih =>
    show ((r.answer d).1 :: (r.answer d).2.answers cs)[i]? = ((r.answer d).2.after cs).given? c.key
    cases i with
    | zero =>
      -- the first answer is kept by all later calls
      obtain rfl := Option.some.inj h
      exact (extends_after _ cs _ _ (given?_answer_self r d)).symm
    | succ i => exact ih h

/-- A key that has been asked for has an identifier in the end. -/
theorem isSome_given?_after {r : Registry} {cs : List Call} {c : Call} (h : c ∈ cs) :
    ∃ w, (r.after cs).given? c.key = some w := by
  rw [← Option.ne_none_iff_exists']
  intro hnone
  exact ((given?_after_eq_none_iff r cs c.key).mp hnone).2 c h rfl

/-- **The registry over a whole run of calls.** The used identifiers are exactly those answered.
Two calls are answered alike exactly if they are for the same key: a new key gets an identifier
that no other key has, as its name or as its alias, and a key asked for again gets its first answer
whatever base and name it comes with. -/
theorem answers_eq_iff_keys_eq (calls : List Call) :
    (∀ w, (({} : Registry).after calls).isUsed w = true ↔ w ∈ ({} : Registry).answers calls) ∧
    (({} : Registry).answers calls).length = calls.length ∧
    ∀ (i j : Nat) (c d : Call), calls[i]? = some c → calls[j]? = some d →
      ((({} : Registry).answers calls)[i]? = (({} : Registry).answers calls)[j]? ↔
        c.key = d.key) := by
  refine ⟨?_, length_answers {} calls, ?_⟩
  · intro w
    rw [isUsed_iff]
    exact mem_used_after calls w
  · intro i j c d hc hd
    rw [getElem?_answers hc, getElem?_answers hd]
    constructor
    · intro heq
      -- no two keys have been given the same identifier
      obtain ⟨w, hw⟩ := isSome_given?_after (r := {}) (List.mem_of_getElem? hc)
      exact (sound_empty.after calls).injective hw (heq ▸ hw)
    · intro hkey
      rw [hkey]

/-- A class by name and by alias, then by another name and kind, and a class whose name looks like
the first alias. -/
def recurringCalls : List Call :=
  [.name ⟨⟨"a"⟩, .klass, some "Person"⟩, .byname ⟨"a"⟩ "Person",
    .name ⟨⟨"b"⟩, .klass, some "Person1"⟩, .declaredName ⟨⟨"a"⟩, .property, some "String"⟩]

theorem recurringCalls_answers_eq_iff_keys_eq :
    recurringCalls[0]? = some (.name ⟨⟨"a"⟩, .klass, some "Person"⟩) ∧
    recurringCalls[2]? = some (.name ⟨⟨"b"⟩, .klass, some "Person1"⟩) ∧
    recurringCalls[3]? = some (.declaredName ⟨⟨"a"⟩, .property, some "String"⟩) ∧
    (({} : Registry).answers recurringCalls)[0]? = (({} : Registry).answers recurringCalls)[3]? ∧
    (({} : Registry).answers recurringCalls)[0]? ≠ (({} : Registry).answers recurringCalls)[2]? ∧
    ({} : Registry).answers recurringCalls = ["Person", "Person1", "Person11", "Person"] := by
  have hkeys := (answers_eq_iff_keys_eq recurringCalls).2.2
  refine ⟨rfl, rfl, rfl, ?_, ?_, by decide +kernel⟩
  · exact (hkeys 0 3 _ _ rfl rfl).mpr rfl
  · rw [ne_eq, hkeys 0 2 _ _ rfl rfl]
    decide

end OntoWorlds.Registry
