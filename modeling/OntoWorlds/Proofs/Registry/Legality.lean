import OntoWorlds.Proofs.Registry.Sound

/-!
# OntoWorlds — what a registry hands out

A registry answers calls in any order: for the name of an element, for the name of an element that
the module declares itself, and for an alias from some base. The reserved words are looked at when
the base is formed, and the number comes later; so the one reserved word that ends in a digit can
be reached by counting.

* `mem_used_after` — the used identifiers are exactly the answers given.
* `isIssuable_answers` — every answer is legal or `select13`, if all bases are legal.
* `answers_legal_up_to_select13` — and `select13` is answered exactly when a new key wants `select1`
  or `select` after all smaller numbers are gone.
-/

namespace OntoWorlds

open Identifier

/-- A call of the registry. -/
inductive Call
  | name (l : Label)
  | declaredName (l : Label)
  | byname (id : ElementId) (base : String)
deriving DecidableEq, Repr

namespace Call

/-- What the call wants an identifier for. -/
def key : Call → Key
  | name l => .own l.id
  | declaredName l => .own l.id
  | byname id _ => .byname id

/-- The identifier that the call would like to have. -/
def base : Call → String
  | name l => l.base
  | declaredName l => l.declaredBase
  | byname _ base => base

end Call

namespace Registry

/-- The answer to a call, and the registry after it. -/
def answer (r : Registry) : Call → String × Registry
  | .name l => r.name l.id l.base
  | .declaredName l => r.name l.id l.declaredBase
  | .byname id base => r.alias id base

/-- Every call is one of giving: a key asks for an identifier from a base. -/
theorem answer_eq_give (r : Registry) (c : Call) : r.answer c = r.give c.key c.base := by
  cases c <;> rfl

/-- The registry after a list of calls. -/
def after (r : Registry) : List Call → Registry
  | [] => r
  | c :: cs => (r.answer c).2.after cs

/-- The answers to a list of calls. -/
def answers (r : Registry) : List Call → List String
  | [] => []
  | c :: cs => (r.answer c).1 :: (r.answer c).2.answers cs

/-! ## Runs of calls -/

/-- Calls can be made in two portions. -/
theorem answers_append (r : Registry) (cs ds : List Call) :
    r.answers (cs ++ ds) = r.answers cs ++ (r.after cs).answers ds := by
  induction cs generalizing r with
  | nil => rfl
  | cons c cs ih =>
    show (r.answer c).1 :: (r.answer c).2.answers (cs ++ ds) = _
    rw [ih]
    rfl

/-- A call keeps the registry sound. -/
theorem Sound.answer {r : Registry} (h : r.Sound) (c : Call) : (r.answer c).2.Sound := by
  rw [answer_eq_give]
  exact h.give c.key c.base

theorem Sound.after {r : Registry} (h : r.Sound) (cs : List Call) : (r.after cs).Sound := by
  induction cs generalizing r with
  | nil => exact h
  | cons c cs ih => exact ih (h.answer c)

/-- A call uses up its answer, which may have been used before. -/
theorem Sound.mem_used_answer {r : Registry} (h : r.Sound) (c : Call) (w : String) :
    w ∈ (r.answer c).2.used ↔ w = (r.answer c).1 ∨ w ∈ r.used := by
  rw [answer_eq_give]
  exact h.mem_used_give c.key c.base w

/-- The used identifiers are exactly those handed out. -/
theorem Sound.mem_used_after {r : Registry} (h : r.Sound) (cs : List Call) (w : String) :
    w ∈ (r.after cs).used ↔ w ∈ r.answers cs ∨ w ∈ r.used := by
  induction cs generalizing r with
  | nil => simp [Registry.after, answers]
  | cons c cs ih =>
    show w ∈ ((r.answer c).2.after cs).used ↔ w ∈ (r.answer c).1 :: (r.answer c).2.answers cs ∨ _
    rw [ih (h.answer c), h.mem_used_answer, List.mem_cons]
    tauto

/-- In a registry that began with nothing, the used identifiers are the answers. -/
theorem mem_used_after (cs : List Call) (w : String) :
    w ∈ (({} : Registry).after cs).used ↔ w ∈ ({} : Registry).answers cs := by
  rw [sound_empty.mem_used_after]
  exact or_iff_left (List.not_mem_nil)

/-- A key has an identifier exactly if a call has asked for it. -/
theorem given?_after_eq_none_iff (r : Registry) (cs : List Call) (k : Key) :
    (r.after cs).given? k = none ↔ r.given? k = none ∧ ∀ c ∈ cs, c.key ≠ k := by
  induction cs generalizing r with
  | nil => simp [Registry.after]
  | cons c cs ih =>
    show ((r.answer c).2.after cs).given? k = none ↔ _
    rw [ih, answer_eq_give, given?_give, List.forall_mem_cons]
    -- the first call settles its own key and no other
    by_cases hk : k = c.key
    · simp [hk]
    · rw [if_neg hk]
      have : c.key ≠ k := fun h => hk h.symm
      tauto

/-- The call at which an identifier is answered for the first time. -/
theorem exists_first_answer {r : Registry} {cs : List Call} {w : String} (h : w ∈ r.answers cs) :
    ∃ before c rest, cs = before ++ c :: rest ∧ w ∉ r.answers before ∧
      ((r.after before).answer c).1 = w := by
  induction cs generalizing r with
  | nil => simp [answers] at h
  | cons c cs ih =>
    by_cases hc : (r.answer c).1 = w
    · exact ⟨[], c, cs, rfl, List.not_mem_nil, hc⟩
    · have htail : w ∈ (r.answer c).2.answers cs :=
        (List.mem_cons.mp h).resolve_left (fun heq => hc heq.symm)
      obtain ⟨before, d, rest, rfl, hnot, hd⟩ := ih htail
      refine ⟨c :: before, d, rest, rfl, ?_, hd⟩
      intro hmem
      rcases List.mem_cons.mp hmem with heq | hmem
      · exact hc heq.symm
      · exact hnot hmem

/-! ## Legal answers -/

/-- All bases of labels are legal, so only the bases of aliases have to be asked for. -/
theorem isLegal_callBase {c : Call} (h : ∀ id base, c = .byname id base → isLegal base = true) :
    isLegal c.base = true := by
  cases c with
  | name l => exact isLegal_base l.name l.kind
  | declaredName l => exact isLegal_declaredBase l.name l.kind
  | byname id base => exact h id base rfl

/-- The answers to calls with legal bases are issuable, by induction on the calls. -/
theorem isIssuable_answers {r : Registry} (h : r.Sound) (hused : ∀ w ∈ r.used, IsIssuable w)
    {cs : List Call} (hcs : ∀ c ∈ cs, isLegal c.base = true) :
    ∀ w ∈ r.answers cs, IsIssuable w := by
  induction cs generalizing r with
  | nil => simp [answers]
  | cons c cs ih =>
    have hanswer : IsIssuable (r.answer c).1 := by
      rw [answer_eq_give]
      exact h.isIssuable_give hused c.key (Or.inl (hcs c List.mem_cons_self))
    -- after the call, the used identifiers are issuable again
    have hused' : ∀ w ∈ (r.answer c).2.used, IsIssuable w := by
      intro w hw
      rcases (h.mem_used_answer c w).mp hw with rfl | hw
      · exact hanswer
      · exact hused w hw
    intro w hw
    rcases List.mem_cons.mp hw with rfl | hw
    · exact hanswer
    · exact ih (h.answer c) hused' (fun d hd => hcs d (List.mem_cons_of_mem _ hd)) w hw

/-! ## The word that can be reached by counting -/

/-- The base is gone, and so are its numbers below `n`. -/
structure CountedUpTo (gone : List String) (base : String) (n : Nat) : Prop where
  base_gone : base ∈ gone
  numbers_gone : ∀ k, 1 ≤ k → k < n → base ++ toString k ∈ gone

/-- A new key gets the number that it is counted up to, if nobody else has. -/
theorem answer_of_countedUpTo {before : List Call} {c : Call} {n : Nat} (hone : 1 ≤ n)
    (hnew : ∀ d ∈ before, d.key ≠ c.key)
    (hcounted : CountedUpTo (({} : Registry).answers before) c.base n)
    (hfree : c.base ++ toString n ∉ ({} : Registry).answers before) :
    ((({} : Registry).after before).answer c).1 = c.base ++ toString n := by
  have hsound := sound_empty.after before
  have hkey : (({} : Registry).after before).given? c.key = none := by
    rw [given?_after_eq_none_iff]
    exact ⟨by cases c <;> rfl, hnew⟩
  rw [answer_eq_give, give_fst_of_new hkey]
  rcases hsound.reserve_fst c.base with ⟨hbase, -⟩ | ⟨-, m, hm, heq⟩
  · exact absurd ((mem_used_after before _).mpr hcounted.base_gone) hbase
  · have hn : IsSmallestFree (({} : Registry).after before).used c.base n :=
      { one_le := hone
        free := mt (mem_used_after before _).mp hfree
        smallest := fun k hk hlt => (mem_used_after before _).mpr (hcounted.numbers_gone k hk hlt) }
    rw [heq, hm.unique hn]

/-- A legal base becomes `select13` only by counting up to it. -/
theorem countedUpTo_of_answer {before : List Call} {c : Call} (hlegal : isLegal c.base = true)
    (hfirst : "select13" ∉ ({} : Registry).answers before)
    (hanswer : ((({} : Registry).after before).answer c).1 = "select13") :
    (∀ d ∈ before, d.key ≠ c.key) ∧
      (c.base = "select1" ∧ CountedUpTo (({} : Registry).answers before) "select1" 3 ∨
        c.base = "select" ∧ CountedUpTo (({} : Registry).answers before) "select" 13) := by
  have hsound := sound_empty.after before
  have hunused : "select13" ∉ (({} : Registry).after before).used :=
    mt (mem_used_after before _).mp hfirst
  rw [answer_eq_give] at hanswer
  -- a key that has an identifier would be answered with a used one
  have hkey : (({} : Registry).after before).given? c.key = none := by
    cases hk : (({} : Registry).after before).given? c.key with
    | none => rfl
    | some w =>
      rw [give_of_given? hk] at hanswer
      subst hanswer
      exact absurd ((hsound.mem_used_iff _).mpr ⟨c.key, hk⟩) hunused
  refine ⟨((given?_after_eq_none_iff {} before c.key).mp hkey).2, ?_⟩
  rw [give_fst_of_new hkey] at hanswer
  rcases hsound.reserve_fst c.base with ⟨-, heq⟩ | ⟨hbase, n, hn, heq⟩
  · rw [← heq, hanswer] at hlegal
    exact absurd hlegal not_isLegal_select13
  · -- so the base was used, and the answer has its smallest free number
    have hcounted : CountedUpTo (({} : Registry).answers before) c.base n :=
      ⟨(mem_used_after before _).mp hbase,
        fun k hone hlt => (mem_used_after before _).mp (hn.smallest k hone hlt)⟩
    rw [heq, numbered_eq_select13] at hanswer
    rcases hanswer with ⟨hb, rfl⟩ | ⟨hb, rfl⟩
    · rw [hb] at hcounted
      exact Or.inl ⟨hb, hcounted⟩
    · rw [hb] at hcounted
      exact Or.inr ⟨hb, hcounted⟩

/-- **Legality of what a run of calls hands out.** If all aliases are wanted from legal bases, every
answer is legal but for `select13`, and `select13` is answered exactly if some new key wants
`select1` when its numbers below three are gone, or `select` when those below thirteen are. -/
theorem answers_legal_up_to_select13 {calls : List Call}
    (h : ∀ id base, Call.byname id base ∈ calls → isLegal base = true) :
    (∀ w ∈ ({} : Registry).answers calls, isLegal w = true ↔ w ≠ "select13") ∧
    ("select13" ∈ ({} : Registry).answers calls ↔
      ∃ before c rest, calls = before ++ c :: rest ∧ (∀ d ∈ before, d.key ≠ c.key) ∧
        (c.base = "select1" ∧ CountedUpTo (({} : Registry).answers before) "select1" 3 ∨
          c.base = "select" ∧ CountedUpTo (({} : Registry).answers before) "select" 13)) := by
  have hlegal : ∀ c ∈ calls, isLegal c.base = true := by
    intro c hc
    apply isLegal_callBase
    rintro id base rfl
    exact h id base hc
  refine ⟨?_, ?_, ?_⟩
  · intro w hw
    -- issuable identifiers only, and one of these is not legal
    have hempty : ∀ w ∈ ({} : Registry).used, IsIssuable w := fun w hw =>
      absurd hw List.not_mem_nil
    exact isLegal_iff_of_isIssuable (isIssuable_answers sound_empty hempty hlegal w hw)
  · intro hmem
    -- only the call that is the first to get the word has to be looked at
    obtain ⟨before, c, rest, rfl, hfirst, hanswer⟩ := exists_first_answer hmem
    exact ⟨before, c, rest, rfl, countedUpTo_of_answer (hlegal c (by simp)) hfirst hanswer⟩
  · rintro ⟨before, c, rest, rfl, hnew, hcase⟩
    rw [answers_append, List.mem_append]
    -- unless the word is gone already, the call gets it
    by_cases hfirst : "select13" ∈ ({} : Registry).answers before
    · exact Or.inl hfirst
    · right
      have hanswer : ((({} : Registry).after before).answer c).1 = "select13" := by
        rcases hcase with ⟨hb, hcounted⟩ | ⟨hb, hcounted⟩
        · have hspell : c.base ++ toString 3 = "select13" :=
            (numbered_eq_select13 c.base 3).mpr (Or.inl ⟨hb, rfl⟩)
          rw [← hb] at hcounted
          rw [← hspell] at hfirst ⊢
          exact answer_of_countedUpTo (by decide) hnew hcounted hfirst
        · have hspell : c.base ++ toString 13 = "select13" :=
            (numbered_eq_select13 c.base 13).mpr (Or.inr ⟨hb, rfl⟩)
          rw [← hb] at hcounted
          rw [← hspell] at hfirst ⊢
          exact answer_of_countedUpTo (by decide) hnew hcounted hfirst
      show "select13" ∈ (({} : Registry).after before).answers (c :: rest)
      rw [← hanswer]
      exact List.mem_cons_self

/-- Two classes and an attribute, each with a name and with an alias. -/
def countingCalls : List Call :=
  [.name ⟨⟨"a"⟩, .klass, some "select1"⟩, .declaredName ⟨⟨"b"⟩, .klass, some "select 1"⟩,
    .byname ⟨"a"⟩ "select1", .name ⟨⟨"p"⟩, .property, some "select1!"⟩, .byname ⟨"p"⟩ "relation"]

/-- The fifth call wants `select1` when its numbers below three are gone. -/
theorem countingCalls_legal_up_to_select13 :
    (∀ id base, Call.byname id base ∈ countingCalls → isLegal base = true) ∧
    (∀ w ∈ ({} : Registry).answers countingCalls, isLegal w = true ↔ w ≠ "select13") ∧
    "select13" ∈ ({} : Registry).answers countingCalls := by
  have h : ∀ id base, Call.byname id base ∈ countingCalls → isLegal base = true := by
    intro id base hmem
    simp only [countingCalls, List.mem_cons, Call.byname.injEq, reduceCtorEq, false_or,
      List.not_mem_nil, or_false] at hmem
    rcases hmem with ⟨-, rfl⟩ | ⟨-, rfl⟩ <;> decide +kernel
  refine ⟨h, (answers_legal_up_to_select13 h).1, (answers_legal_up_to_select13 h).2.mpr ?_⟩
  refine ⟨countingCalls.take 3, .name ⟨⟨"p"⟩, .property, some "select1!"⟩, countingCalls.drop 4,
    rfl, by decide +kernel, Or.inl ⟨by decide +kernel, by decide +kernel, ?_⟩⟩
  -- the numbers below three are gone to the second class and to the alias
  intro k hone hlt
  have hk : k = 1 ∨ k = 2 := by omega
  rcases hk with rfl | rfl <;> decide +kernel

/-- So not every answer is legal, though every base is. -/
theorem not_all_answers_legal :
    ¬ ∀ calls : List Call, (∀ id base, Call.byname id base ∈ calls → isLegal base = true) →
      ∀ w ∈ ({} : Registry).answers calls, isLegal w = true := by
  intro h
  have hbad := h (["a", "b", "c", "d"].map fun id => .name ⟨⟨id⟩, .klass, some "select1"⟩)
    (by simp) "select13" (by decide +kernel)
  exact not_isLegal_select13 hbad

end Registry

end OntoWorlds
