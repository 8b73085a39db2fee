import OntoWorlds.Proofs.Encoding.Members
import OntoWorlds.Proofs.Module.Subsumption
import Mathlib.Data.List.Count
import Mathlib.Data.List.Nodup
import Mathlib.Data.Nat.Choose.Basic

/-!
# OntoWorlds — what generalization sets state

A disjoint set states a line for every two of its members, wherever they stand in the list. Two
members with the same specific element make it exclude itself, and a third one with another makes
the two elements exclude each other twice. So a set keeps its specific elements apart, each from
each other once, exactly if no two members share theirs. A complete set states that the specific
elements of all members make up one general element. This is the one of the first member; the
general elements of the others are not compared with it.

* `count_pairs_self`, `count_pairs_add` — how often two elements are paired, by how often they are
  in the list.
* `RequestsField.eq_of_fieldName` — elements whose fields have been requested have fields of
  different names.
* `KeepsApart`, `Covers` — what the lines of a disjoint and of a complete set should say.
* `keepsApart_iff`, `covers_iff` — when they do.
-/

namespace OntoWorlds

open Alloy

/-! ## Pairs -/

section

variable {α : Type} [DecidableEq α]

/-- Pairs with a common first element count what stands second. -/
theorem count_map_mk (a b c : α) (l : List α) :
    (l.map fun d => (c, d)).count (a, b) = if c = a then l.count b else 0 := by
  split
  · next h =>
    subst h
    exact List.count_map_of_injective l _ (Prod.mk_right_injective c) b
  · next h =>
    refine List.count_eq_zero_of_not_mem fun hmem => h ?_
    obtain ⟨d, -, heq⟩ := List.mem_map.mp hmem
    exact (Prod.mk.inj heq).1

/-- An element is paired with itself for every two of its places. -/
theorem count_pairs_self (a : α) (l : List α) :
    (pairs l).count (a, a) = (l.count a).choose 2 := by
  induction l with
  | nil => rfl
  | cons c l ih =>
    -- the head is paired with the elements behind it
    rw [pairs, List.count_append, count_map_mk, ih]
    by_cases h : c = a
    · subst h
      rw [if_pos rfl, List.count_cons_self, Nat.choose_succ_succ, Nat.choose_one_right]
    · rw [if_neg h, List.count_cons_of_ne h, Nat.zero_add]

/-- Two elements are paired, in either order, for every place of the one and every one of the
other. -/
theorem count_pairs_add {a b : α} (h : a ≠ b) (l : List α) :
    (pairs l).count (a, b) + (pairs l).count (b, a) = l.count a * l.count b := by
  induction l with
  | nil => rfl
  | cons c l ih =>
    rw [pairs, List.count_append, List.count_append, count_map_mk, count_map_mk]
    -- the head is one of the two or neither, and is paired with the elements behind it
    by_cases ha : c = a
    · subst ha
      rw [if_pos rfl, if_neg h, List.count_cons_self, List.count_cons_of_ne h, Nat.add_mul,
        Nat.one_mul, ← ih]
      omega
    · by_cases hb : c = b
      · subst hb
        rw [if_neg ha, if_pos rfl, List.count_cons_self, List.count_cons_of_ne ha, Nat.mul_add,
          Nat.mul_one, ← ih]
        omega
      · rw [if_neg ha, if_neg hb, List.count_cons_of_ne ha, List.count_cons_of_ne hb, ← ih]
        omega

/-- Counts are kept by a function that is injective on the list. -/
theorem count_map_of_injOn {β : Type} [DecidableEq β] {f : α → β} {l : List α}
    (hf : ∀ a ∈ l, ∀ b ∈ l, f a = f b → a = b) {a : α} (ha : a ∈ l) :
    (l.map f).count (f a) = l.count a := by
  rw [List.count_eq_countP, List.count_eq_countP, List.countP_map]
  refine List.countP_congr fun b hb => ?_
  simp only [Function.comp_apply, beq_iff_eq]
  exact ⟨hf b hb a ha, congrArg f⟩

end

/-! ## Lines of a set -/

/-- Each two of the elements exclude each other, by one line. No line excludes anything from itself,
or is about other elements. -/
structure KeepsApart (n : Names) (xs : List Classifier) (lines : List SetLine) : Prop where
  once : ∀ x ∈ xs, ∀ y ∈ xs, x ≠ y →
    lines.count (.disjoint (x.fieldName n) (y.fieldName n))
      + lines.count (.disjoint (y.fieldName n) (x.fieldName n)) = 1
  never : ∀ w, .disjoint w w ∉ lines
  only : ∀ a b, .disjoint a b ∈ lines →
    ∃ x ∈ xs, ∃ y ∈ xs, a = x.fieldName n ∧ b = y.fieldName n

/-- The specific fields are those of all members, and the general one is that of every member. -/
structure Covers (n : Names) (fields : List (Classifier × Classifier)) (general : String)
    (specifics : List String) : Prop where
  general : ∀ f ∈ fields, general = f.1.fieldName n
  specifics : specifics = fields.map fun f => f.2.fieldName n

namespace GeneralizationSet

variable {g : GeneralizationSet} {fields : List (Classifier × Classifier)} {n : Names}

/-- The lines of a disjoint set are those for its pairs, and then one that sums up, if it is
complete. -/
theorem lines_of_isDisjoint (hdisjoint : g.isDisjoint = true)
    (fields : List (Classifier × Classifier)) (n : Names) :
    ∃ rest, g.lines fields n = (pairs ((fields.map Prod.snd).map (·.fieldName n))).map
        (fun p => .disjoint p.1 p.2) ++ rest ∧ ∀ line ∈ rest, ∃ w ws, line = .covered w ws := by
  simp only [lines, if_pos hdisjoint, List.map_map]
  split
  · exact ⟨[_], rfl, fun _ hline => ⟨_, _, List.mem_singleton.mp hline⟩⟩
  · exact ⟨[], rfl, fun _ hline => absurd hline List.not_mem_nil⟩

/-- A pair of names has as many lines as it is among the pairs of specific fields. -/
theorem count_disjoint_lines (hdisjoint : g.isDisjoint = true) (a b : String) :
    (g.lines fields n).count (.disjoint a b)
      = (pairs ((fields.map Prod.snd).map (·.fieldName n))).count (a, b) := by
  have hinjective : Function.Injective fun p : String × String => SetLine.disjoint p.1 p.2 := by
    rintro ⟨a, b⟩ ⟨c, d⟩ h
    obtain ⟨rfl, rfl⟩ := SetLine.disjoint.inj h
    rfl
  obtain ⟨rest, hlines, hrest⟩ := lines_of_isDisjoint hdisjoint fields n
  -- what sums up is no line about a pair
  have hnone : .disjoint a b ∉ rest := by
    intro hmem
    obtain ⟨w, ws, h⟩ := hrest _ hmem
    cases h
  rw [hlines, List.count_append, List.count_eq_zero_of_not_mem hnone, Nat.add_zero]
  exact List.count_map_of_injective _ _ hinjective (a, b)

/-- A set emits one fact, with all its lines, unless it has no lines. -/
theorem fact_mem_fragments_iff {lines : List SetLine} :
    .fact (.generalizationSet lines) ∈ g.fragments fields n ↔
      lines = g.lines fields n ∧ lines ≠ [] := by
  simp only [fragments, List.isEmpty_iff]
  split
  · next hempty =>
    rw [hempty]
    exact iff_of_false List.not_mem_nil fun h => h.2 h.1
  · next hlines =>
    simp only [List.mem_singleton, Fragment.fact.injEq, Fact.generalizationSet.injEq]
    exact ⟨fun h => ⟨h, h ▸ hlines⟩, And.left⟩

section

variable (hdisjoint : g.isDisjoint = true)
  (hinj : ∀ x ∈ fields.map Prod.snd, ∀ y ∈ fields.map Prod.snd,
    x.fieldName n = y.fieldName n → x = y)
include hdisjoint hinj

/-- A line excludes an element from itself for every two members about it. -/
theorem count_disjoint_self {x : Classifier} (hx : x ∈ fields.map Prod.snd) :
    (g.lines fields n).count (.disjoint (x.fieldName n) (x.fieldName n))
      = ((fields.map Prod.snd).count x).choose 2 := by
  rw [count_disjoint_lines hdisjoint, count_pairs_self, count_map_of_injOn hinj hx]

/-- Two elements exclude each other for every two members about them. -/
theorem count_disjoint_add {x y : Classifier} (hx : x ∈ fields.map Prod.snd)
    (hy : y ∈ fields.map Prod.snd) (hne : x ≠ y) :
    (g.lines fields n).count (.disjoint (x.fieldName n) (y.fieldName n))
        + (g.lines fields n).count (.disjoint (y.fieldName n) (x.fieldName n))
      = (fields.map Prod.snd).count x * (fields.map Prod.snd).count y := by
  have hname : x.fieldName n ≠ y.fieldName n := fun h => hne (hinj x hx y hy h)
  rw [count_disjoint_lines hdisjoint, count_disjoint_lines hdisjoint, count_pairs_add hname,
    count_map_of_injOn hinj hx, count_map_of_injOn hinj hy]

/-- The lines keep the elements apart exactly if no element is there twice. -/
theorem keepsApart_lines_iff :
    KeepsApart n (fields.map Prod.snd) (g.lines fields n) ↔ (fields.map Prod.snd).Nodup := by
  constructor
  · intro h
    refine List.nodup_iff_count_le_one.mpr fun x => ?_
    -- an element that is there twice would be excluded from itself
    by_cases hx : x ∈ fields.map Prod.snd
    · have hzero := List.count_eq_zero_of_not_mem (h.never (x.fieldName n))
      rw [count_disjoint_self hdisjoint hinj hx, Nat.choose_eq_zero_iff] at hzero
      exact Nat.lt_succ_iff.mp hzero
    · rw [List.count_eq_zero_of_not_mem hx]
      exact Nat.zero_le 1
  · intro h
    refine ⟨fun x hx y hy hne => ?_, fun w hw => ?_, fun _ _ => mem_disjoint_lines⟩
    · -- each of two elements is there once, so one line is about them
      rw [count_disjoint_add hdisjoint hinj hx hy hne, List.count_eq_one_of_mem h hx,
        List.count_eq_one_of_mem h hy]
    · -- the line would be about two places of one element
      obtain ⟨x, hx, y, hy, rfl, hname⟩ := mem_disjoint_lines hw
      have hcount := count_disjoint_self hdisjoint hinj hx
      rw [List.count_eq_one_of_mem h hx] at hcount
      exact List.count_eq_zero.mp hcount hw

end

end GeneralizationSet

/-! ## Names of fields -/

namespace Model

variable {m : Model}

/-- Elements whose fields have been requested have fields of different names. -/
theorem RequestsField.eq_of_fieldName (hid : m.ids.Nodup) {r : Registry} (hr : r.Sound)
    {qs : List Request} {x y : Classifier} (hx : m.RequestsField qs x)
    (hy : m.RequestsField qs y)
    (h : x.fieldName (r.serveAll qs).view = y.fieldName (r.serveAll qs).view) : x = y := by
  rw [x.fieldName_eq, y.fieldName_eq] at h
  have hkey := (hr.serveAll qs).eq_of_view (Registry.given?_serveAll hx.requested)
    (Registry.given?_serveAll hy.requested) h
  refine eq_of_has hid hx.mem hy.mem ?_
  rw [← x.id_fieldRequest_key, hkey, y.id_fieldRequest_key]

/-- Represented members relate the fields that they are represented by. -/
theorem members_of_represents {ids : List ElementId} {fields : List (Classifier × Classifier)}
    (h : List.Forall₂ m.Represents ids fields) : m.Members ids (fieldRequests fields) fields := by
  induction h with
  | nil => exact .nil
  | cons hid _ ih =>
    -- a represented member is found, and brings the requests of its two fields
    obtain ⟨hg, hgeneral, hspecific⟩ := hid.relates
    refine .cons hg ?_ ih
    rw [subsumptionOf_eq hgeneral hspecific, hid.comparable.subsumption_eq]

/-- The fields of represented members are requested. -/
theorem requestsField_of_represents {ids : List ElementId}
    {fields : List (Classifier × Classifier)} (h : List.Forall₂ m.Represents ids fields)
    {f : Classifier × Classifier} (hf : f ∈ fields) :
    m.RequestsField (fieldRequests fields) f.1 ∧ m.RequestsField (fieldRequests fields) f.2 :=
  (members_of_represents h).requestsField hf

end Model

/-! ## Generalization sets in sessions -/

namespace Session

variable {m : Model} {s s' : Session} {g : GeneralizationSet} {d : Option Defect}

/-- A set of represented members requests their fields and states its lines. -/
theorem perform_generalizationSet (hstates : (g.isDisjoint || g.isComplete) = true)
    {fields : List (Classifier × Classifier)}
    (hfields : List.Forall₂ m.Represents g.members fields) :
    s.perform m (.generalizationSet g) =
      ({ s with
          registry := s.registry.serveAll (fieldRequests fields)
          emitted := s.emitted
            ++ g.fragments fields (s.registry.serveAll (fieldRequests fields)).view }, none) := by
  rw [perform_of_turn_none rfl, Model.stepOf, Model.generalizationSetStep_eq hstates hfields]
  rfl

/-- A step of the set emits its fragments, under the names of the new registry. -/
theorem emitted_eq_fragments (hstates : (g.isDisjoint || g.isComplete) = true)
    {fields : List (Classifier × Classifier)}
    (hfields : List.Forall₂ m.Represents g.members fields)
    (hperform : s.perform m (.generalizationSet g) = (s', d)) {fs : List Fragment}
    (hemitted : s'.emitted = s.emitted ++ fs) :
    s'.registry = s.registry.serveAll (fieldRequests fields) ∧
      fs = g.fragments fields s'.registry.view := by
  -- the step is determined, so what was emitted is what it emits
  rw [perform_generalizationSet hstates hfields] at hperform
  obtain ⟨rfl, rfl⟩ := Prod.mk.inj hperform
  exact ⟨rfl, (List.append_cancel_left hemitted).symm⟩

/-- What is stated, is stated of a set of represented members. -/
theorem exists_represents_of_emitted (hperform : s.perform m (.generalizationSet g) = (s', d))
    {fs : List Fragment} (hemitted : s'.emitted = s.emitted ++ fs) {f : Fragment} (hf : f ∈ fs) :
    (g.isDisjoint || g.isComplete) = true ∧
      ∃ fields, List.Forall₂ m.Represents g.members fields := by
  rw [perform_of_turn_none rfl, Model.stepOf] at hperform
  obtain ⟨rfl, rfl⟩ := Prod.mk.inj hperform
  obtain rfl := List.append_cancel_left hemitted
  exact Model.exists_of_fragments_generalizationSetStep hf

/-- A line that sums up is stated by a complete set, about its first general element. -/
theorem exists_represents_of_covered (hperform : s.perform m (.generalizationSet g) = (s', d))
    {fs : List Fragment} (hemitted : s'.emitted = s.emitted ++ fs) {lines : List SetLine}
    (hfact : .fact (.generalizationSet lines) ∈ fs) {general : String} {specifics : List String}
    (hline : .covered general specifics ∈ lines) :
    g.isComplete = true ∧ ∃ fields, List.Forall₂ m.Represents g.members fields ∧
      s'.registry = s.registry.serveAll (fieldRequests fields) ∧
      specifics = fields.map (fun f => f.2.fieldName s'.registry.view) ∧
      ∃ f rest, fields = f :: rest ∧ general = f.1.fieldName s'.registry.view := by
  obtain ⟨hstates, fields, hfields⟩ := exists_represents_of_emitted hperform hemitted hfact
  obtain ⟨hregistry, rfl⟩ := emitted_eq_fragments hstates hfields hperform hemitted
  obtain ⟨rfl, -⟩ := GeneralizationSet.fact_mem_fragments_iff.mp hfact
  obtain ⟨hcomplete, hline⟩ := GeneralizationSet.covered_mem_lines_iff.mp hline
  exact ⟨hcomplete, fields, hfields, hregistry, hline⟩

/-- **Disjointness.** In a model with distinct ids, a disjoint set of represented members meets no
defect and emits its lines, if there are any. Two specific elements exclude each other by one line
for every two members that they are the specific elements of; so the lines keep the elements apart
exactly if no two members have the same. -/
theorem keepsApart_iff (hid : m.ids.Nodup) (hs : s.IsReached m) (hdisjoint : g.isDisjoint = true)
    {fields : List (Classifier × Classifier)}
    (hfields : List.Forall₂ m.Represents g.members fields)
    (hperform : s.perform m (.generalizationSet g) = (s', d)) :
    d = none ∧ ∃ lines : List SetLine,
      s'.emitted = s.emitted
          ++ (if lines.isEmpty then [] else [.fact (.generalizationSet lines)]) ∧
        (∀ x ∈ fields.map Prod.snd,
          lines.count (.disjoint (x.fieldName s'.registry.view) (x.fieldName s'.registry.view))
            = ((fields.map Prod.snd).count x).choose 2) ∧
        (∀ x ∈ fields.map Prod.snd, ∀ y ∈ fields.map Prod.snd, x ≠ y →
          lines.count (.disjoint (x.fieldName s'.registry.view) (y.fieldName s'.registry.view))
              + lines.count
                (.disjoint (y.fieldName s'.registry.view) (x.fieldName s'.registry.view))
            = (fields.map Prod.snd).count x * (fields.map Prod.snd).count y) ∧
        (KeepsApart s'.registry.view (fields.map Prod.snd) lines ↔
          (fields.map Prod.snd).Nodup) := by
  have hstates : (g.isDisjoint || g.isComplete) = true := by rw [hdisjoint, Bool.true_or]
  rw [perform_generalizationSet hstates hfields] at hperform
  obtain ⟨rfl, rfl⟩ := Prod.mk.inj hperform
  -- the fields have been requested, so their names are different
  have hinj : ∀ x ∈ fields.map Prod.snd, ∀ y ∈ fields.map Prod.snd,
      x.fieldName (s.registry.serveAll (fieldRequests fields)).view
        = y.fieldName (s.registry.serveAll (fieldRequests fields)).view → x = y := by
    intro x hx y hy hname
    obtain ⟨f, hf, rfl⟩ := List.mem_map.mp hx
    obtain ⟨f', hf', rfl⟩ := List.mem_map.mp hy
    exact (Model.requestsField_of_represents hfields hf).2.eq_of_fieldName hid hs.sound
      (Model.requestsField_of_represents hfields hf').2 hname
  refine ⟨rfl, g.lines fields _, rfl, fun x hx => ?_, fun x hx y hy hne => ?_, ?_⟩
  · exact GeneralizationSet.count_disjoint_self hdisjoint hinj hx
  · exact GeneralizationSet.count_disjoint_add hdisjoint hinj hx hy hne
  · exact GeneralizationSet.keepsApart_lines_iff hdisjoint hinj

/-- **Completeness.** In a model with distinct ids, a set states a line that sums up specific fields
exactly if it is complete, has members and all of them are represented. The line is about the
specific elements of all members and the general element of the first; so it is about the general
element of each exactly if all members have the same. -/
theorem covers_iff (hid : m.ids.Nodup) (hs : s.IsReached m)
    (hperform : s.perform m (.generalizationSet g) = (s', d)) {fs : List Fragment}
    (hemitted : s'.emitted = s.emitted ++ fs) :
    ((∃ lines general specifics, .fact (.generalizationSet lines) ∈ fs ∧
        .covered general specifics ∈ lines) ↔
      g.isComplete = true ∧ g.members ≠ [] ∧
        ∃ fields, List.Forall₂ m.Represents g.members fields) ∧
      ∀ lines general specifics, .fact (.generalizationSet lines) ∈ fs →
        .covered general specifics ∈ lines →
        ∃ fields, List.Forall₂ m.Represents g.members fields ∧
          specifics = fields.map (fun f => f.2.fieldName s'.registry.view) ∧
          (∃ f rest, fields = f :: rest ∧ general = f.1.fieldName s'.registry.view) ∧
          (Covers s'.registry.view fields general specifics ↔
            ∀ f ∈ fields, ∀ f' ∈ fields, f.1 = f'.1) := by
  refine ⟨⟨?_, ?_⟩, ?_⟩
  · -- whatever states the line is complete, and has a first member
    rintro ⟨lines, general, specifics, hfact, hline⟩
    obtain ⟨hcomplete, fields, hfields, -, -, f, rest, rfl, -⟩ :=
      exists_represents_of_covered hperform hemitted hfact hline
    refine ⟨hcomplete, fun hnil => ?_, _, hfields⟩
    rw [hnil] at hfields
    cases hfields
  · -- a complete set of represented members states the line
    rintro ⟨hcomplete, hmembers, fields, hfields⟩
    have hstates : (g.isDisjoint || g.isComplete) = true := by rw [hcomplete, Bool.or_true]
    obtain ⟨-, rfl⟩ := emitted_eq_fragments hstates hfields hperform hemitted
    cases fields with
    | nil => exact absurd (List.forall₂_nil_right_iff.mp hfields) hmembers
    | cons f rest =>
      have hline := GeneralizationSet.covered_mem_lines_iff (n := s'.registry.view).mpr
        ⟨hcomplete, rfl, f, rest, rfl, rfl⟩
      exact ⟨_, _, _, GeneralizationSet.fact_mem_fragments_iff.mpr
        ⟨rfl, List.ne_nil_of_mem hline⟩, hline⟩
  · intro lines general specifics hfact hline
    obtain ⟨-, fields, hfields, hregistry, hspecifics, first, rest, hfirst, hgeneral⟩ :=
      exists_represents_of_covered hperform hemitted hfact hline
    refine ⟨fields, hfields, hspecifics, ⟨first, rest, hfirst, hgeneral⟩, ?_, ?_⟩
    · -- equal names of requested fields are names of one element
      intro hcovers f hf f' hf'
      have hname := (hcovers.general f hf).symm.trans (hcovers.general f' hf')
      rw [hregistry] at hname
      exact (Model.requestsField_of_represents hfields hf).1.eq_of_fieldName hid hs.sound
        (Model.requestsField_of_represents hfields hf').1 hname
    · -- what holds of the first member holds of all
      intro hsame
      refine ⟨fun f hf => ?_, hspecifics⟩
      rw [hgeneral, hsame first (by rw [hfirst]; exact List.mem_cons_self) f hf]

end Session

namespace Model

/-- Children and adults are persons, and children are said to be so twice. Startups are
companies. -/
def stages : Model where
  classes := [
    { id := ⟨"person"⟩, name := some "Person", stereotype := some .kind },
    { id := ⟨"child"⟩, name := some "Child", stereotype := some .phase },
    { id := ⟨"adult"⟩, name := some "Adult", stereotype := some .phase },
    { id := ⟨"company"⟩, name := some "Company", stereotype := some .kind },
    { id := ⟨"startup"⟩, name := some "Startup", stereotype := some .phase }]
  generalizations := [
    ⟨⟨"young"⟩, none, ⟨"person"⟩, ⟨"child"⟩⟩,
    ⟨⟨"grown"⟩, none, ⟨"person"⟩, ⟨"adult"⟩⟩,
    ⟨⟨"early"⟩, none, ⟨"person"⟩, ⟨"child"⟩⟩,
    ⟨⟨"fresh"⟩, none, ⟨"company"⟩, ⟨"startup"⟩⟩]

/-- Two of the members are about children. -/
def ages : GeneralizationSet :=
  { id := ⟨"ages"⟩, isDisjoint := true, members := [⟨"young"⟩, ⟨"grown"⟩, ⟨"early"⟩] }

/-- The members are about persons and about companies. -/
def starts : GeneralizationSet :=
  { id := ⟨"starts"⟩, isComplete := true, members := [⟨"young"⟩, ⟨"fresh"⟩] }

/-- All three generalizations have their fields in the model. -/
theorem ages_represents : ∃ fields, List.Forall₂ stages.Represents ages.members fields := by
  refine ⟨[(_, _), (_, _), (_, _)], .cons ⟨.intro rfl rfl rfl, ?_⟩ <|
    .cons ⟨.intro rfl rfl rfl, ?_⟩ <| .cons ⟨.intro rfl rfl rfl, ?_⟩ .nil⟩ <;>
    exact ⟨rfl, rfl, rfl⟩

/-- The session of a run after the classes. -/
def stagesSession : Session := (({} : Session).performAll stages (stages.classes.map .klass)).1

/-- The set of ages repeats an element, and the theorem says how often it is excluded. -/
theorem ages_keepsApart_iff :
    stages.ids.Nodup ∧ stagesSession.IsReached stages ∧ ages.isDisjoint = true ∧
      ∃ fields s' d, List.Forall₂ stages.Represents ages.members fields ∧
        stagesSession.perform stages (.generalizationSet ages) = (s', d) ∧
        d = none ∧ ∃ lines : List SetLine,
          s'.emitted = stagesSession.emitted
              ++ (if lines.isEmpty then [] else [.fact (.generalizationSet lines)]) ∧
            (∀ x ∈ fields.map Prod.snd,
              lines.count
                  (.disjoint (x.fieldName s'.registry.view) (x.fieldName s'.registry.view))
                = ((fields.map Prod.snd).count x).choose 2) ∧
            (∀ x ∈ fields.map Prod.snd, ∀ y ∈ fields.map Prod.snd, x ≠ y →
              lines.count
                    (.disjoint (x.fieldName s'.registry.view) (y.fieldName s'.registry.view))
                  + lines.count
                    (.disjoint (y.fieldName s'.registry.view) (x.fieldName s'.registry.view))
                = (fields.map Prod.snd).count x * (fields.map Prod.snd).count y) ∧
            (KeepsApart s'.registry.view (fields.map Prod.snd) lines ↔
              (fields.map Prod.snd).Nodup) := by
  have hid : stages.ids.Nodup := by decide +kernel
  have hreached : stagesSession.IsReached stages := Session.IsReached.start.performAll _
  obtain ⟨fields, hfields⟩ := ages_represents
  exact ⟨hid, hreached, rfl, fields, _, _, hfields, rfl,
    Session.keepsApart_iff hid hreached rfl hfields rfl⟩

/-- So there are disjoint sets that exclude an element from itself. -/
theorem not_forall_keepsApart :
    ¬ ∀ (m : Model) (s s' : Session) (g : GeneralizationSet) (d : Option Defect)
      (fields : List (Classifier × Classifier)) (lines : List SetLine), m.ids.Nodup →
      s.IsReached m → g.isDisjoint = true → List.Forall₂ m.Represents g.members fields →
      s.perform m (.generalizationSet g) = (s', d) →
      s'.emitted = s.emitted ++ [.fact (.generalizationSet lines)] →
      KeepsApart s'.registry.view (fields.map Prod.snd) lines := by
  intro h
  have hid : stages.ids.Nodup := by decide +kernel
  obtain ⟨fields, hfields⟩ := ages_represents
  have hemitted : (({} : Session).perform stages (.generalizationSet ages)).1.emitted =
      ({} : Session).emitted ++ [.fact (.generalizationSet
        [.disjoint "Child" "Adult", .disjoint "Child" "Child", .disjoint "Adult" "Child"])] := by
    decide +kernel
  have hkeeps := h stages {} _ ages _ fields _ hid .start rfl hfields rfl hemitted
  exact hkeeps.never "Child" (by decide)

/-- The second member is about companies. -/
theorem starts_represents : ∃ f f', List.Forall₂ stages.Represents starts.members [f, f'] ∧
    f'.1.fieldName (({} : Session).perform stages (.generalizationSet starts)).1.registry.view
      = "Company" := by
  refine ⟨(_, _), (_, _), .cons ⟨.intro rfl rfl rfl, ?_⟩ <| .cons ⟨.intro rfl rfl rfl, ?_⟩ .nil,
    ?_⟩
  · exact ⟨rfl, rfl, rfl⟩
  · exact ⟨rfl, rfl, rfl⟩
  · decide +kernel

/-- The line sums up children and startups under the persons of the first member. -/
theorem starts_emitted :
    (({} : Session).perform stages (.generalizationSet starts)).1.emitted =
      ({} : Session).emitted
        ++ [.fact (.generalizationSet [.covered "Person" ["Child", "Startup"]])] := by
  decide +kernel

/-- What the theorem says of the set about children and startups. -/
theorem starts_covers_iff :
    stages.ids.Nodup ∧ ({} : Session).IsReached stages ∧
      ∃ s' d fs, ({} : Session).perform stages (.generalizationSet starts) = (s', d) ∧
        s'.emitted = ({} : Session).emitted ++ fs ∧
        ∃ lines, .fact (.generalizationSet lines) ∈ fs ∧
          .covered "Person" ["Child", "Startup"] ∈ lines ∧
          ∃ fields, List.Forall₂ stages.Represents starts.members fields ∧
            ["Child", "Startup"] = fields.map (fun f => f.2.fieldName s'.registry.view) ∧
            (∃ f rest, fields = f :: rest ∧ "Person" = f.1.fieldName s'.registry.view) ∧
            (Covers s'.registry.view fields "Person" ["Child", "Startup"] ↔
              ∀ f ∈ fields, ∀ f' ∈ fields, f.1 = f'.1) := by
  have hid : stages.ids.Nodup := by decide +kernel
  exact ⟨hid, .start, _, _, _, rfl, starts_emitted, _, List.mem_cons_self, List.mem_cons_self,
    (Session.covers_iff hid .start rfl starts_emitted).2 _ _ _ List.mem_cons_self
      List.mem_cons_self⟩

/-- So there are complete sets that make up one element by what is not about it. -/
theorem not_forall_covers :
    ¬ ∀ (m : Model) (s s' : Session) (g : GeneralizationSet) (d : Option Defect)
      (fields : List (Classifier × Classifier)) (fs : List Fragment) (lines : List SetLine)
      (general : String) (specifics : List String), m.ids.Nodup → s.IsReached m →
      List.Forall₂ m.Represents g.members fields →
      s.perform m (.generalizationSet g) = (s', d) → s'.emitted = s.emitted ++ fs →
      .fact (.generalizationSet lines) ∈ fs → .covered general specifics ∈ lines →
      Covers s'.registry.view fields general specifics := by
  intro h
  have hid : stages.ids.Nodup := by decide +kernel
  obtain ⟨f, f', hfields, hcompany⟩ := starts_represents
  have hcovers := h stages {} _ starts _ _ _ _ _ _ hid .start hfields rfl starts_emitted
    List.mem_cons_self List.mem_cons_self
  have hperson := hcovers.general f' (List.mem_cons_of_mem _ List.mem_cons_self)
  exact absurd (hperson.trans hcompany) (by decide)

end Model

end OntoWorlds
