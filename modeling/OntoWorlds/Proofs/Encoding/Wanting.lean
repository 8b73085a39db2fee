import OntoWorlds.Proofs.Encoding.Claims

/-!
# OntoWorlds — who gets a plain word as its name

An element may be asked for by two words, since declared elements avoid the built-in ones. Of a word
that no element avoids, all requests for the name of one id agree whether they want it. So the first
element that wants such a word is the first to claim it, and is given it.

* `Request.firstWanting` — the first id whose name is wanted from the word.
* `Request.firstClaim_eq_firstWanting` — it is the first to claim the word.
* `Model.of_eq_iff` — in a run, only the first element that wants the word is called by it.
-/

namespace OntoWorlds

open Identifier (endsInDigit)

namespace Request

/-- The id whose name is wanted from the base `v`. -/
def wants? (v : String) : Request → Option ElementId
  | .name id base => if base = v then some id else none
  | _ => none

/-- The id of the first request for a name from the base `v`. -/
def firstWanting (qs : List Request) (v : String) : Option ElementId := qs.findSome? (wants? v)

/-- One more request is the first to want the word only if none before it does. -/
theorem firstWanting_append (before : List Request) (q : Request) (v : String) :
    firstWanting (before ++ [q]) v = (firstWanting before v).or (q.wants? v) := by
  rw [firstWanting, List.findSome?_append, List.findSome?_singleton]
  rfl

/-- If a name is wanted from the word, some request is the first. -/
theorem exists_firstWanting {qs : List Request} {id : ElementId} {v : String}
    (h : .name id v ∈ qs) : ∃ id', firstWanting qs v = some id' := by
  refine Option.isSome_iff_exists.mp (List.findSome?_isSome_iff.mpr ⟨_, h, ?_⟩)
  rw [wants?, if_pos rfl, Option.isSome_some]

theorem eq_name_of_wants? {q : Request} {v : String} {id : ElementId}
    (h : q.wants? v = some id) : q = .name id v := by
  unfold wants? at h
  split at h
  · split at h
    · next hbase =>
      obtain rfl := Option.some.inj h
      rw [hbase]
    · cases h
  · cases h

/-- The first id that wants the word asks for it. -/
theorem mem_of_firstWanting {qs : List Request} {id : ElementId} {v : String}
    (h : firstWanting qs v = some id) : .name id v ∈ qs := by
  obtain ⟨q, hq, heq⟩ := List.exists_of_findSome?_eq_some h
  obtain rfl := eq_name_of_wants? heq
  exact hq

/-- Whoever claims the word wants it. -/
theorem wants?_of_claims? {q : Request} {v : String} {before : List Request} {id : ElementId}
    (h : q.claims? v before = some id) : q.wants? v = some id := by
  obtain ⟨rfl, -⟩ := eq_name_of_claims? h
  exact if_pos rfl

/-- All requests for the name of one id agree on whether they want the word. -/
def AgreeOnWanting (qs : List Request) (v : String) : Prop :=
  ∀ id base base', .name id base ∈ qs → .name id base' ∈ qs → base = v → base' = v

/-- While nobody has wanted the word, a request claims it exactly if it wants it. -/
theorem claims?_eq_wants? {q : Request} {v : String} {before : List Request}
    (hagree : AgreeOnWanting (before ++ [q]) v) (hfree : firstWanting before v = none) :
    q.claims? v before = q.wants? v := by
  cases hwants : q.wants? v with
  | none =>
    rw [Option.eq_none_iff_forall_ne_some]
    intro id hclaims
    rw [wants?_of_claims? hclaims] at hwants
    cases hwants
  | some id =>
    obtain rfl := eq_name_of_wants? hwants
    -- an earlier request for the name would have wanted the word as well
    have hfresh : before.any (isNameOf id) = false := by
      rw [Bool.eq_false_iff, ne_eq, any_isNameOf_iff]
      rintro ⟨base, hbase⟩
      have hmem : .name id v ∈ before ++ [.name id v] :=
        List.mem_append_right _ List.mem_cons_self
      obtain rfl := hagree id v base hmem (List.mem_append_left _ hbase) rfl
      obtain ⟨id', hfirst⟩ := exists_firstWanting hbase
      rw [hfree] at hfirst
      cases hfirst
    rw [claims?, if_pos ⟨rfl, hfresh⟩]

/-- The first to want the word is the first to claim it. -/
theorem firstClaim_eq_firstWanting {v : String} {before qs : List Request}
    (hagree : AgreeOnWanting (before ++ qs) v) (hfree : firstWanting before v = none) :
    firstClaim v before qs = firstWanting qs v := by
  induction qs generalizing before with
  | nil => rfl
  | cons q qs ih =>
    have happend : before ++ q :: qs = before ++ [q] ++ qs := by
      rw [List.append_assoc, List.singleton_append]
    -- the requests up to this one agree among themselves
    have hnow : AgreeOnWanting (before ++ [q]) v := by
      intro id base base' hb hb' heq
      refine hagree id base base' ?_ ?_ heq <;> rw [happend] <;> exact List.mem_append_left _ ‹_›
    rw [firstClaim, claims?_eq_wants? hnow hfree, firstWanting, List.findSome?_cons]
    cases hwants : q.wants? v with
    | some id => rfl
    -- this request does not want the word, so the search goes on behind it
    | none =>
      rw [happend] at hagree
      refine ih hagree ?_
      rw [firstWanting_append, hfree, hwants, Option.none_or]

end Request

/-- A word that is only given as it stands: no number makes it, it is not what nameless relations
are called by, and declared elements do not avoid it. -/
structure Identifier.IsPlain (v : String) : Prop where
  unnumbered : endsInDigit v = false
  ne_relation : v ≠ "relation"
  declared_iff : ∀ l : Label, l.declaredBase = v ↔ l.base = v

theorem Identifier.IsPlain.isUnnumbered {v : String} (hv : IsPlain v) : IsUnnumbered v :=
  ⟨hv.unnumbered, hv.ne_relation⟩

/-! ## Runs -/

namespace Model

variable {m : Model} {v : String}

/-- The id of the first element in a run whose name is wanted from the word. -/
def firstWanting (m : Model) (v : String) : Option ElementId := Request.firstWanting m.requests v

/-- A request for a name wants the plain word if the label does. -/
theorem wants_iff_of_mem_requests (hid : m.ids.Nodup) (hv : Identifier.IsPlain v) {l : Label}
    (hl : l ∈ m.labels) {base : String} (h : .name l.id base ∈ m.requests) :
    base = v ↔ l.base = v := by
  obtain ⟨l', hl', heq, hbase⟩ := isLabelled_of_mem_requests h
  -- the label that the request was made by has the same id, so it is the same
  obtain rfl := eq_of_mem_labels hid hl' hl heq
  rcases hbase with rfl | rfl
  · exact Iff.rfl
  · exact hv.declared_iff l'

/-- In a run with distinct ids, the requests for one name agree on a plain word. -/
theorem agreeOnWanting_requests (hid : m.ids.Nodup) (hv : Identifier.IsPlain v) :
    Request.AgreeOnWanting m.requests v := by
  intro id base base' h h' hbase
  obtain ⟨l, hl, rfl, -⟩ := isLabelled_of_mem_requests h
  rw [wants_iff_of_mem_requests hid hv hl h] at hbase
  exact (wants_iff_of_mem_requests hid hv hl h').mpr hbase

/-- So the first element that wants a plain word is the first to claim it. -/
theorem firstClaim_eq_firstWanting (hid : m.ids.Nodup) (hv : Identifier.IsPlain v) :
    m.firstClaim v = m.firstWanting v := by
  have hagree : Request.AgreeOnWanting ([] ++ m.requests) v := agreeOnWanting_requests hid hv
  exact Request.firstClaim_eq_firstWanting hagree rfl

/-- A requested key is called by a plain word exactly if it is the name of the first element that
wants it. -/
theorem of_eq_iff (hid : m.ids.Nodup) (hv : Identifier.IsPlain v) {q : Request}
    (hq : q ∈ m.requests) :
    m.names.of q.key = v ↔ ∃ id, q.key = .own id ∧ m.firstWanting v = some id := by
  rw [← given?_iff_of_mem_requests hq, given?_iff_firstClaim hv.isUnnumbered,
    firstClaim_eq_firstWanting hid hv]

/-- That element is called by the word. -/
theorem own_of_firstWanting (hid : m.ids.Nodup) (hv : Identifier.IsPlain v) {id : ElementId}
    (h : m.firstWanting v = some id) : m.names.own id = v :=
  (of_eq_iff hid hv (Request.mem_of_firstWanting h)).mpr ⟨id, rfl, h⟩

/-- The first element that wants a plain word is one of the model. -/
theorem exists_label_of_firstWanting (hid : m.ids.Nodup) (hv : Identifier.IsPlain v)
    {id : ElementId} (h : m.firstWanting v = some id) : ∃ l ∈ m.labels, l.id = id ∧ l.base = v := by
  have hmem := Request.mem_of_firstWanting h
  obtain ⟨l, hl, rfl, -⟩ := isLabelled_of_mem_requests hmem
  exact ⟨l, hl, rfl, (wants_iff_of_mem_requests hid hv hl hmem).mp rfl⟩

end Model

end OntoWorlds
