import OntoWorlds.Proofs.Encoding.Names

/-!
# OntoWorlds — who claims a word

The first request for the name of an id settles it, and whatever is requested for the id later is
answered from the record. So an id claims the word that its first request asks for, and no other.
Identifiers with a number are told apart from the words asked for, so a word that does not end in a
digit is given as it stands or not at all. It is given to the first id that claims it, and to no
alias, since an alias is made from a name that is used already.

* `Request.firstClaim` — the first id that claims a word.
* `Registry.Follows` — the word has been given to that id, and to no other key; `Follows.serve`
  keeps this, hence so does a run of requests.
* `Model.given?_iff_firstClaim` — in a run, only the first claim of a word is met with it.
-/

namespace OntoWorlds

open Identifier (endsInDigit endsInDigit_numbered)

namespace Request

/-- The request is for the name of the id. -/
def isNameOf (id : ElementId) : Request → Bool
  | .name id' _ => id' == id
  | .alias .. | .aliasLike .. => false

/-- The id that claims the word `v` by a request that comes after others: the name is asked for from
this base, and has not been asked for before. -/
def claims? (v : String) (before : List Request) : Request → Option ElementId
  | .name id base => if base = v ∧ before.any (isNameOf id) = false then some id else none
  | .alias .. | .aliasLike .. => none

/-- The first id that claims the word, in requests that come after others. -/
def firstClaim (v : String) : (before qs : List Request) → Option ElementId
  | _, [] => none
  | before, q :: qs => (q.claims? v before).or (firstClaim v (before ++ [q]) qs)

variable {v : String} {id : ElementId} {before qs rs : List Request}

/-- The first claim among two portions is the one of the first portion, or else the one of the
second. -/
theorem firstClaim_append : firstClaim v before (qs ++ rs)
    = (firstClaim v before qs).or (firstClaim v (before ++ qs) rs) := by
  induction qs generalizing before with
  | nil => rw [List.nil_append, firstClaim, Option.none_or, List.append_nil]
  -- the second portion comes after one request more
  | cons q qs ih =>
    rw [List.cons_append, firstClaim, firstClaim, ih, Option.or_assoc, List.append_assoc,
      List.singleton_append]

/-- One more request matters only if nobody has claimed the word yet. -/
theorem firstClaim_concat (q : Request) : firstClaim v [] (before ++ [q])
    = (firstClaim v [] before).or (q.claims? v before) := by
  rw [firstClaim_append, firstClaim, firstClaim, Option.or_none, List.nil_append]

/-- Only a request for the name of an id that has not been named claims a word. -/
theorem eq_name_of_claims? {q : Request} (h : q.claims? v before = some id) :
    q = .name id v ∧ before.any (isNameOf id) = false := by
  cases q with
  | name id' base =>
    rw [claims?] at h
    split at h
    · next hclaims =>
      obtain ⟨rfl, hfresh⟩ := hclaims
      obtain rfl := Option.some.inj h
      exact ⟨rfl, hfresh⟩
    · cases h
  | «alias» => cases h
  | aliasLike => cases h

/-- Whoever claims a word asks for it, and has not been named before. -/
theorem mem_of_firstClaim (h : firstClaim v before qs = some id) :
    .name id v ∈ qs ∧ before.any (isNameOf id) = false := by
  induction qs generalizing before with
  | nil => cases h
  | cons q qs ih =>
    rw [firstClaim, Option.or_eq_some_iff] at h
    rcases h with h | ⟨-, h⟩
    · obtain ⟨rfl, hfresh⟩ := eq_name_of_claims? h
      exact ⟨List.mem_cons_self, hfresh⟩
    · obtain ⟨hmem, hfresh⟩ := ih h
      rw [List.any_append, Bool.or_eq_false_iff] at hfresh
      exact ⟨List.mem_cons_of_mem _ hmem, hfresh.1⟩

/-- An id is named among the requests if its name is asked for from some base. -/
theorem any_isNameOf_iff : qs.any (isNameOf id) = true ↔ ∃ base, .name id base ∈ qs := by
  rw [List.any_eq_true]
  constructor
  · rintro ⟨q, hq, hname⟩
    cases q with
    | name id' base =>
      obtain rfl : id' = id := eq_of_beq hname
      exact ⟨base, hq⟩
    | «alias» => cases hname
    | aliasLike => cases hname
  · rintro ⟨base, hmem⟩
    exact ⟨_, hmem, beq_self_eq_true id⟩

/-- An id that is named among the first requests claims its word there. -/
theorem mem_of_firstClaim_append (h : firstClaim v [] (qs ++ rs) = some id) {base : String}
    (hnamed : .name id base ∈ qs) : .name id v ∈ qs := by
  rw [firstClaim_append, Option.or_eq_some_iff] at h
  rcases h with h | ⟨-, h⟩
  · exact (mem_of_firstClaim h).1
  -- a claim among the later requests would be by an id that has not been named
  · have hfresh := (mem_of_firstClaim h).2
    rw [List.nil_append, any_isNameOf_iff.mpr ⟨base, hnamed⟩] at hfresh
    cases hfresh

end Request

/-- A word that is only given as it stands: no number makes it, and it is not what nameless
relations are called by. -/
structure Identifier.IsUnnumbered (v : String) : Prop where
  unnumbered : endsInDigit v = false
  ne_relation : v ≠ "relation"

namespace Registry

variable {v : String} {r : Registry} {before : List Request}

/-- Such a word is reserved only as it stands, while it is free. -/
theorem Sound.reserve_eq_iff (h : r.Sound) (hv : Identifier.IsUnnumbered v) (base : String) :
    (r.reserve base).1 = v ↔ base = v ∧ v ∉ r.used := by
  rcases h.reserve_fst base with ⟨hfree, heq⟩ | ⟨hused, n, -, heq⟩
  · rw [heq]
    constructor
    · rintro rfl
      exact ⟨rfl, hfree⟩
    · exact And.left
  · rw [heq]
    constructor
    · rintro rfl
      -- a number would be the end of the word
      have hnumbered := endsInDigit_numbered base n
      rw [hv.unnumbered] at hnumbered
      cases hnumbered
    · rintro ⟨rfl, hfree⟩
      exact absurd hused hfree

/-- The word has been given to the first id that claimed it, and to no alias. -/
structure Follows (v : String) (r : Registry) (before : List Request) : Prop where
  own_iff : ∀ id, r.given? (.own id) = some v ↔ Request.firstClaim v [] before = some id
  byname_ne : ∀ id, r.given? (.byname id) ≠ some v
  named_iff : ∀ id, (∃ w, r.given? (.own id) = some w) ↔
    before.any (Request.isNameOf id) = true

/-- Before the first request nothing is given and nothing claimed. -/
theorem follows_empty (v : String) : Follows v {} [] where
  own_iff := fun _ => ⟨nofun, nofun⟩
  byname_ne := fun _ => nofun
  named_iff := fun _ => ⟨nofun, nofun⟩

/-- The word is used up once somebody has claimed it. -/
theorem Follows.mem_used_iff (h : Follows v r before) (hr : r.Sound) :
    v ∈ r.used ↔ ∃ id, Request.firstClaim v [] before = some id := by
  rw [hr.mem_used_iff]
  constructor
  · rintro ⟨id | id, hk⟩
    · exact ⟨id, (h.own_iff id).mp hk⟩
    · exact absurd hk (h.byname_ne id)
  · rintro ⟨id, hid⟩
    exact ⟨.own id, (h.own_iff id).mpr hid⟩

/-- An id that is named for the first time is given the word if it claims it before all others. -/
theorem Follows.reserve_eq_iff (h : Follows v r before) (hr : r.Sound)
    (hv : Identifier.IsUnnumbered v) {id : ElementId} (hnew : r.given? (.own id) = none)
    (base : String) : (r.reserve base).1 = v ↔
      (Request.firstClaim v [] before).or (if base = v then some id else none) = some id := by
  rw [hr.reserve_eq_iff hv, h.mem_used_iff hr]
  cases hfirst : Request.firstClaim v [] before with
  | some id₀ =>
    -- the word is gone, and not to this id, which has no name yet
    have hne : id₀ ≠ id := by
      rintro rfl
      rw [(h.own_iff id₀).mpr hfirst] at hnew
      cases hnew
    simp [hne]
  | none => simp

/-- A request for a name keeps the record of claims. -/
theorem Follows.serve_name (h : Follows v r before) (hr : r.Sound)
    (hv : Identifier.IsUnnumbered v) (id : ElementId) (base : String) :
    Follows v (r.serve (.name id base)) (before ++ [.name id base]) := by
  have hserve : r.serve (.name id base) = (r.give (.own id) base).2 := serve_eq_give r _
  rw [hserve]
  refine ⟨fun id' => ?_, fun id' => ?_, fun id' => ?_⟩
  · rw [Request.firstClaim_concat, Request.claims?]
    cases hk : r.given? (.own id) with
    | some u =>
      -- the id has been named before, so it claims nothing now
      have hbefore := (h.named_iff id).mp ⟨u, hk⟩
      rw [give_of_given? hk, hbefore, if_neg (fun hclaims => nomatch hclaims.2), Option.or_none]
      exact h.own_iff id'
    | none =>
      have hfresh : before.any (Request.isNameOf id) = false := by
        rw [Bool.eq_false_iff, ne_eq, ← h.named_iff, hk]
        exact nofun
      simp only [hfresh, and_true]
      rw [given?_give, give_fst_of_new hk]
      split
      · next heq =>
        -- this is the id: it is given the word if it claims it first
        cases heq
        rw [Option.some.injEq]
        exact h.reserve_eq_iff hr hv hk base
      · next hne =>
        -- another id is given the word now only if it had it before
        have hid : id ≠ id' := fun heq => hne (heq ▸ rfl)
        rw [h.own_iff]
        cases Request.firstClaim v [] before with
        | some id₀ => rw [Option.some_or]
        | none =>
          rw [Option.none_or]
          split <;> simp [hid]
  · rw [given?_give, if_neg nofun]
    exact h.byname_ne id'
  · rw [given?_give, List.any_append, Bool.or_eq_true, ← h.named_iff, List.any_cons, List.any_nil,
      Bool.or_false, Request.isNameOf, beq_iff_eq]
    split
    · next heq => simp [Key.own.inj heq]
    · next hne =>
      have hid : id ≠ id' := fun heq => hne (heq ▸ rfl)
      simp [hid]

/-- A request for an alias gives no such word away. -/
theorem Follows.serve_byname (h : Follows v r before) (hr : r.Sound)
    (hv : Identifier.IsUnnumbered v) {q : Request} (id : ElementId) (hkey : q.key = .byname id)
    (hbase : r.baseOf q = v → v ∈ r.used) : Follows v (r.serve q) (before ++ [q]) := by
  -- only requests for names count as claims
  have hclaims : q.claims? v before = none ∧ ∀ id', q.isNameOf id' = false := by
    match q, hkey with
    | .alias _ _, _ => exact ⟨rfl, fun _ => rfl⟩
    | .aliasLike _ _, _ => exact ⟨rfl, fun _ => rfl⟩
  rw [serve_eq_give]
  refine ⟨fun id' => ?_, fun id' => ?_, fun id' => ?_⟩
  · rw [Request.firstClaim_concat, hclaims.1, Option.or_none, given?_give, hkey, if_neg nofun]
    exact h.own_iff id'
  · rw [given?_give]
    split
    · next heq =>
      rw [ne_eq, Option.some.injEq]
      cases hk : r.given? q.key with
      | some u =>
        rw [give_of_given? hk]
        rintro rfl
        rw [hkey] at hk
        exact h.byname_ne id hk
      | none =>
        rw [give_fst_of_new hk, hr.reserve_eq_iff hv]
        rintro ⟨hb, hfree⟩
        exact hfree (hbase hb)
    · exact h.byname_ne id'
  · rw [given?_give, hkey, if_neg nofun, List.any_append, List.any_cons, hclaims.2, List.any_nil,
      Bool.or_false, Bool.or_false]
    exact h.named_iff id'

/-- Every request keeps the record, if it is labelled and its seed has been named. -/
theorem Follows.serve (h : Follows v r before) (hr : r.Sound) (hv : Identifier.IsUnnumbered v)
    {ls : List Label} {q : Request} (hlabelled : q.IsLabelled ls) (hseeded : q.IsSeeded before) :
    Follows v (r.serve q) (before ++ [q]) := by
  match q, hlabelled, hseeded with
  -- a name is claimed or not, an alias is made from a base other than the word
  | .name id base, _, _ => exact h.serve_name hr hv id base
  | .alias id _, rfl, _ =>
    exact h.serve_byname hr hv id rfl fun hb => absurd hb.symm hv.ne_relation
  | .aliasLike id other, _, hother =>
    -- the base of the alias is a name, which is used
    obtain ⟨w, hw⟩ := (h.named_iff other).mpr (Request.any_isNameOf_iff.mpr hother)
    have hview : r.view.own other = w := view_of (k := .own other) hw
    refine h.serve_byname hr hv id rfl fun hb => ?_
    rw [← hb]
    show r.view.own other ∈ r.used
    rw [hview]
    exact (hr.mem_used_iff w).mpr ⟨.own other, hw⟩

/-- A run of requests keeps the record, by induction on the requests. -/
theorem Follows.serveAll (h : Follows v r before) (hr : r.Sound) (hv : Identifier.IsUnnumbered v)
    {ls : List Label} {qs : List Request} (hlabelled : ∀ q ∈ qs, q.IsLabelled ls)
    (hseeded : Request.Seeded before qs) : Follows v (r.serveAll qs) (before ++ qs) := by
  induction qs generalizing r before with
  | nil =>
    rw [List.append_nil]
    exact h
  | cons q qs ih =>
    have hserve := h.serve hr hv (hlabelled q List.mem_cons_self) hseeded.1
    rw [← List.singleton_append, ← List.append_assoc]
    exact ih hserve (hr.serve q) (fun q' hq' => hlabelled q' (List.mem_cons_of_mem _ hq'))
      hseeded.2

end Registry

/-! ## Runs -/

namespace Model

variable {m : Model} {v : String}

/-- The id of the first element in a run that claims the word. -/
def firstClaim (m : Model) (v : String) : Option ElementId := Request.firstClaim v [] m.requests

/-- **Claims.** A word without a number is given to the first element that claims it as its name,
and to nothing else. -/
theorem given?_iff_firstClaim (hv : Identifier.IsUnnumbered v) (k : Key) :
    m.registry.given? k = some v ↔ ∃ id, k = .own id ∧ m.firstClaim v = some id := by
  -- the record holds before the first request, so it holds at the end of the run
  have hfollows : m.registry.Follows v m.requests :=
    (Registry.follows_empty v).serveAll Registry.sound_empty hv
      (fun _ hq => isLabelled_of_mem_requests hq) (seeded_requests m)
  cases k with
  | own id =>
    rw [hfollows.own_iff]
    constructor
    · intro h
      exact ⟨id, rfl, h⟩
    · rintro ⟨id', heq, h⟩
      cases heq
      exact h
  | byname id =>
    constructor
    · intro h
      exact absurd h (hfollows.byname_ne id)
    · rintro ⟨id', heq, -⟩
      cases heq

/-- What a requested key is called by. -/
theorem given?_iff_of_mem_requests {q : Request} (hq : q ∈ m.requests) (w : String) :
    m.registry.given? q.key = some w ↔ m.names.of q.key = w := by
  obtain ⟨u, hu, hof⟩ := given?_of_mem_requests hq
  rw [hu, hof, Option.some.injEq]

end Model

end OntoWorlds
