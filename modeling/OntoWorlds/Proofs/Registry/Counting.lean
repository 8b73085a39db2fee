import OntoWorlds.Proofs.Registry.Legality
import OntoWorlds.Text.Numeral

/-!
# OntoWorlds — the remembered numbers of a registry

A registry remembers for each base where to go on counting, and counts with a word of 32 bits. What
it remembers is never beyond a free number, although other bases and raw names take numbered
identifiers as well; so it finds what counting from one would find.

* `Registry.Counts` — counting from a number on, up to one that is not taken, within the word.
* `Sound.counts_iff` — counting from any start with taken numbers only below it ends, and it ends
  at the smallest free number.
* `Registry.plainAnswers` — the answers of a registry that forgets its numbers before every call.
* `reserve_eq_smallestFree` — reservations after any calls, and the answers to the calls.
-/

namespace OntoWorlds.Registry

/-! ## Counting -/

/-- Counting from `n` comes to its end at `k`: all numbers on the way are taken, and the next one
always fits in the word. -/
inductive Counts (taken : Nat → Prop) : (n k : Nat) → Prop
  | stop {n : Nat} (hfree : ¬ taken n) : Counts taken n n
  | next {n k : Nat} (htaken : taken n) (hword : n < Text.maxWord)
      (hrest : Counts taken (n + 1) k) : Counts taken n k

/-- The end of a count, without the counting. -/
theorem counts_iff {taken : Nat → Prop} {n k : Nat} (hn : n ≤ Text.maxWord) :
    Counts taken n k ↔
      n ≤ k ∧ k ≤ Text.maxWord ∧ ¬ taken k ∧ ∀ i, n ≤ i → i < k → taken i := by
  constructor
  · intro h
    -- by induction on the count: all numbers on the way have been passed
    induction h with
    | stop hfree => exact ⟨Nat.le_refl _, hn, hfree, by omega⟩
    | next htaken hword hrest ih =>
      obtain ⟨hle, hlast, hfree, hpassed⟩ := ih hword
      refine ⟨by omega, hlast, hfree, fun i hi hik => ?_⟩
      rcases Nat.eq_or_lt_of_le hi with rfl | hlt
      · exact htaken
      · exact hpassed i hlt hik
  · rintro ⟨hle, hlast, hfree, hpassed⟩
    obtain ⟨d, rfl⟩ := Nat.exists_eq_add_of_le hle
    -- by induction on the numbers that are passed
    induction d generalizing n with
    | zero => exact .stop hfree
    | succ d ih =>
      have hend : n + (d + 1) = n + 1 + d := by omega
      rw [hend] at hle hlast hfree hpassed ⊢
      refine .next (hpassed n (Nat.le_refl _) (by omega)) (by omega) ?_
      exact ih (by omega) (by omega) hlast hfree fun i hi hik => hpassed i (by omega) hik

/-! ## The smallest free number -/

variable {used : List String} {base : String} {n k : Nat}

/-- The base and the numbers below the free one are all used. -/
theorem IsSmallestFree.le_length (hn : IsSmallestFree used base n) (hbase : base ∈ used) :
    n ≤ used.length := by
  obtain ⟨k, hone, hlt, hfree⟩ := Identifier.exists_unused_number hbase 1
  by_contra hlong
  exact hfree (hn.smallest k hone (by omega))

variable {r r' : Registry}

/-- Counting ends at the smallest free number, wherever below it the counting starts. -/
theorem Sound.counts_iff (h : r.Sound) (hbase : base ∈ r.used)
    (hword : r.used.length < Text.maxWord) {start : Nat} (hone : 1 ≤ start)
    (hbelow : ∀ i, 1 ≤ i → i < start → base ++ toString i ∈ r.used) :
    Counts (fun i => base ++ toString i ∈ r.used) start k ↔ k = r.freeNumber base := by
  have hnumber := h.isSmallestFree hbase
  have hlength := hnumber.le_length hbase
  have hstart : start ≤ r.freeNumber base := by
    by_contra hlate
    exact hnumber.free (hbelow _ hnumber.one_le (by omega))
  rw [Registry.counts_iff (by omega)]
  constructor
  · rintro ⟨hle, -, hfree, hpassed⟩
    refine IsSmallestFree.unique ⟨by omega, hfree, fun i hi hik => ?_⟩ hnumber
    -- the numbers before the start are used, and those after it have been passed
    by_cases hi' : i < start
    · exact hbelow i hi hi'
    · exact hpassed i (by omega) hik
  · rintro rfl
    exact ⟨hstart, by omega, hnumber.free, fun i hi hik => hnumber.smallest i (by omega) hik⟩

/-! ## Registries that forget -/

/-- The registry without its remembered numbers. -/
def forget (r : Registry) : Registry := { r with nextNumber := [] }

/-- The answers to a list of calls if no number is remembered from one call to the next. -/
def plainAnswers (r : Registry) : List Call → List String
  | [] => []
  | c :: cs => (r.forget.answer c).1 :: (r.forget.answer c).2.plainAnswers cs

/-- Forgetting the numbers forgets no identifier. -/
theorem given?_forget (r : Registry) (k : Key) : r.forget.given? k = r.given? k := by
  cases k <;> rfl

/-- Counting from one needs nothing to be known. -/
theorem Sound.forget (h : r.Sound) : r.forget.Sound where
  mem_used_iff := by
    intro w
    simp only [given?_forget]
    exact h.mem_used_iff w
  injective := by
    intro k l w hk hl
    rw [given?_forget] at hk hl
    exact h.injective hk hl
  one_le_start := fun _ => Nat.le_refl 1
  used_below_start := by
    intro base n hone hlt
    have : n < 1 := hlt
    omega

/-- Sound registries that have given the same identifiers have used the same ones. -/
theorem Sound.mem_used_iff_of_given?_eq (h : r.Sound) (h' : r'.Sound)
    (hsame : ∀ k, r'.given? k = r.given? k) (w : String) : w ∈ r'.used ↔ w ∈ r.used := by
  rw [h.mem_used_iff, h'.mem_used_iff]
  simp only [hsame]

/-- What a sound registry reserves depends on the identifiers that it has given, and not on what it
remembers. -/
theorem Sound.reserve_fst_eq (h : r.Sound) (h' : r'.Sound) (hsame : ∀ k, r'.given? k = r.given? k)
    (base : String) : (r'.reserve base).1 = (r.reserve base).1 := by
  have hused := h.mem_used_iff_of_given?_eq h' hsame
  exact h.reserve_fst_eq_of_subset h' (fun w hw => (hused w).mpr hw)
    (mt (hused _).mp (h.reserve_fresh base))

/-- So giving keeps two such registries alike. -/
theorem Sound.give_eq (h : r.Sound) (h' : r'.Sound) (hsame : ∀ k, r'.given? k = r.given? k)
    (k : Key) (base : String) : (r'.give k base).1 = (r.give k base).1 ∧
      ∀ l, (r'.give k base).2.given? l = (r.give k base).2.given? l := by
  have hfst : (r'.give k base).1 = (r.give k base).1 := by
    cases hk : r.given? k with
    | some w => rw [give_of_given? hk, give_of_given? ((hsame k).trans hk)]
    | none =>
      rw [give_fst_of_new hk, give_fst_of_new ((hsame k).trans hk)]
      exact h.reserve_fst_eq h' hsame base
  refine ⟨hfst, fun l => ?_⟩
  rw [given?_give, given?_give, hfst, hsame]

/-- Sound registries that have given the same answer alike, with and without remembered numbers. -/
theorem Sound.plainAnswers_eq (h : r.Sound) (h' : r'.Sound)
    (hsame : ∀ k, r'.given? k = r.given? k) (calls : List Call) :
    r'.plainAnswers calls = r.answers calls := by
  induction calls generalizing r r' with
  | nil => rfl
  | cons c calls ih =>
    -- forgetting changes nothing that has been given
    have hsame' : ∀ k, r'.forget.given? k = r.given? k := fun k => by rw [given?_forget, hsame]
    obtain ⟨hfst, hrest⟩ := h.give_eq h'.forget hsame' c.key c.base
    rw [plainAnswers, answers, answer_eq_give, answer_eq_give, hfst,
      ih (h.give c.key c.base) (h'.forget.give c.key c.base) hrest]

/-! ## Reservations -/

/-- **Reservations.** After any calls, as long as the identifiers can be numbered with the word, a
base that is unused is reserved as it is. Any other base gets its smallest free number from one on:
this is where counting from the remembered number ends, and where counting from one would end. The
number after it, to be remembered next, still fits in the word. All answers are those of a registry
that remembers no number. -/
theorem reserve_eq_smallestFree (calls : List Call)
    (hword : (({} : Registry).after calls).used.length < Text.maxWord) (base : String) :
    let r := ({} : Registry).after calls
    (r.isUsed base = false → (r.reserve base).1 = base) ∧
    (r.isUsed base = true → ∃ n, IsSmallestFree r.used base n ∧ n < Text.maxWord ∧
      (r.reserve base).1 = base ++ toString n ∧
      (∀ k, Counts (fun i => base ++ toString i ∈ r.used) (r.startNumber base) k ↔ k = n) ∧
      (∀ k, Counts (fun i => base ++ toString i ∈ r.used) 1 k ↔ k = n)) ∧
    ({} : Registry).plainAnswers calls = ({} : Registry).answers calls := by
  intro r
  have hsound : r.Sound := sound_empty.after calls
  refine ⟨fun hfree => ?_, fun hused => ?_, ?_⟩
  -- an unused base is reserved as it stands
  · rw [reserve, hfree, if_neg Bool.false_ne_true]
  -- a used one gets the free number, which the word can hold
  · have hbase : base ∈ r.used := (isUsed_iff r base).mp hused
    have hnumber := hsound.isSmallestFree hbase
    have hfits : r.freeNumber base < Text.maxWord := (hnumber.le_length hbase).trans_lt hword
    refine ⟨r.freeNumber base, hnumber, hfits, ?_, fun k => ?_, fun k => ?_⟩
    · rw [reserve, if_pos hused]
    · exact hsound.counts_iff hbase hword (hsound.one_le_start base) (hsound.used_below_start base)
    · exact hsound.counts_iff hbase hword (Nat.le_refl 1) (by omega)
  · exact sound_empty.plainAnswers_eq sound_empty (fun _ => rfl) calls

/-- Two persons, and a third one whose name looks like a number that has not been given yet. -/
def numberedPersons : List Call :=
  [.name ⟨⟨"a"⟩, .klass, some "Person"⟩, .name ⟨⟨"b"⟩, .klass, some "Person"⟩,
    .name ⟨⟨"c"⟩, .klass, some "Person2"⟩]

/-- The registry goes on at two and finds that it is gone. -/
theorem numberedPersons_reserve_eq_smallestFree :
    (({} : Registry).after numberedPersons).used.length < Text.maxWord ∧
    (({} : Registry).after numberedPersons).startNumber "Person" = 2 ∧
    (({} : Registry).after numberedPersons).isUsed "Person" = true ∧
    ∃ n, IsSmallestFree (({} : Registry).after numberedPersons).used "Person" n ∧
      ((({} : Registry).after numberedPersons).reserve "Person").1 = "Person" ++ toString n ∧
      ((({} : Registry).after numberedPersons).reserve "Person").1 = "Person3" := by
  have hword : (({} : Registry).after numberedPersons).used.length < Text.maxWord := by
    decide +kernel
  have hused : (({} : Registry).after numberedPersons).isUsed "Person" = true := by decide +kernel
  obtain ⟨n, hn, -, heq, -, -⟩ :=
    (reserve_eq_smallestFree numberedPersons hword "Person").2.1 hused
  exact ⟨hword, by decide +kernel, hused, n, hn, heq, by decide +kernel⟩

end OntoWorlds.Registry
