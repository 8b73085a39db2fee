import OntoWorlds.Proofs.Encoding.Defects

/-!
# OntoWorlds — the members of generalization sets

A generalization set that states anything goes through its members in order. A member dangles if it
is no generalization of the model, or one of its ends is in the model no more; this is a defect. It
is represented if its ends are two classes or two relations with fields. A member that is neither
ends the step without a word, and so nobody looks at the members behind it: a dangling one among
them goes unreported.

* `Model.Represents`, `Model.PassesOver`, `Model.Dangles` — the three kinds of members;
  `member_cases` — there are no others.
* `membersStep_eq`, `fragments_membersStep_eq_nil` — a set states something exactly if all of its
  members are represented.
* `failure_membersStep_iff` — the defect of a set is the one of its first dangling member, behind
  represented ones only.
* `dangling_reported_iff` — a dangling member is reported unless one that is passed over precedes.
-/

namespace OntoWorlds

open Alloy

/-! ## Kinds of members -/

/-- Both are classes or both are relations, and both have fields. -/
structure Model.IsComparable (m : Model) (general specific : Classifier) : Prop where
  alike : general.isLike specific = true
  general : m.hasField general = true
  specific : m.hasField specific = true

/-- The member is a generalization of the model, between two elements of the model. -/
inductive Model.Relates (m : Model) (id : ElementId) : Classifier → Classifier → Prop
  | intro {g : Generalization} {general specific : Classifier}
      (hg : m.findGeneralization id = some g) (hgeneral : m.find g.general = some general)
      (hspecific : m.find g.specific = some specific) : Relates m id general specific

/-- The member relates two elements whose fields can be compared. -/
structure Model.Represents (m : Model) (id : ElementId) (fields : Classifier × Classifier) :
    Prop where
  relates : m.Relates id fields.1 fields.2
  comparable : m.IsComparable fields.1 fields.2

/-- The member relates two elements, but there are no fields to compare. -/
def Model.PassesOver (m : Model) (id : ElementId) : Prop :=
  ∃ general specific, m.Relates id general specific ∧ ¬ m.IsComparable general specific

/-- The member, or an end of it, is not in the model. The defect names who refers to what. -/
inductive Model.Dangles (m : Model) (s : GeneralizationSet) (id : ElementId) : Defect → Prop
  | member (hmissing : ∀ g ∈ m.generalizations, g.id ≠ id) :
      Dangles m s id (.danglingReference s.id id)
  | general {g : Generalization} (hg : m.findGeneralization id = some g)
      (hmissing : ∀ x, m.Has x → x.id ≠ g.general) :
      Dangles m s id (.danglingReference g.id g.general)
  | specific {g : Generalization} {general : Classifier} (hg : m.findGeneralization id = some g)
      (hgeneral : m.find g.general = some general) (hmissing : ∀ x, m.Has x → x.id ≠ g.specific) :
      Dangles m s id (.danglingReference g.id g.specific)

/-- The requests for the fields of members, the general one of each before the specific one. -/
def fieldRequests (fields : List (Classifier × Classifier)) : List Request :=
  fields.flatMap fun f => [f.1.fieldRequest, f.2.fieldRequest]

/-- Some element passes `Q`, and all those before it pass `P`. -/
def PassesUntil {α : Type} (P Q : α → Prop) (l : List α) : Prop :=
  ∃ before a after, l = before ++ a :: after ∧ (∀ b ∈ before, P b) ∧ Q a

section

variable {α : Type} {P Q : α → Prop} {a : α} {l : List α}

/-- In an empty list nothing passes `Q`. -/
theorem not_passesUntil_nil : ¬ PassesUntil P Q [] := by
  rintro ⟨before, a, after, hnil, -⟩
  exact List.append_ne_nil_of_right_ne_nil before (List.cons_ne_nil a after) hnil.symm

/-- Either the first element passes `Q`, or it passes `P` and the rest has such an element. -/
theorem passesUntil_cons : PassesUntil P Q (a :: l) ↔ Q a ∨ P a ∧ PassesUntil P Q l := by
  constructor
  · rintro ⟨before, b, after, heq, hbefore, hb⟩
    -- the element is the first one, or it comes behind the first one
    cases before with
    | nil =>
      obtain ⟨rfl, -⟩ := List.cons.inj heq
      exact Or.inl hb
    | cons c before =>
      obtain ⟨rfl, rfl⟩ := List.cons.inj heq
      obtain ⟨ha, hrest⟩ := List.forall_mem_cons.mp hbefore
      exact Or.inr ⟨ha, before, b, after, rfl, hrest, hb⟩
  · rintro (ha | ⟨ha, before, b, after, rfl, hbefore, hb⟩)
    · exact ⟨[], a, l, rfl, fun _ h => absurd h List.not_mem_nil, ha⟩
    · exact ⟨a :: before, b, after, rfl, List.forall_mem_cons.mpr ⟨ha, hbefore⟩, hb⟩

end

namespace Model

variable {m : Model} {s : GeneralizationSet} {id : ElementId}

/-- A member is missing if no generalization of the model has its id. -/
theorem findGeneralization_eq_none_iff :
    m.findGeneralization id = none ↔ ∀ g ∈ m.generalizations, g.id ≠ id := by
  simp only [findGeneralization, List.find?_eq_none, beq_iff_eq, ne_eq]

/-- A generalization whose ends are found comes to what its ends come to. -/
theorem subsumptionOf_eq {g : Generalization} {general specific : Classifier}
    (hgeneral : m.find g.general = some general) (hspecific : m.find g.specific = some specific) :
    m.subsumptionOf g = .ok (m.subsumption general specific) := by
  rw [subsumptionOf, resolve, resolve, hgeneral, hspecific]
  rfl

/-- Comparable ends are requested and compared. -/
theorem IsComparable.subsumption_eq {general specific : Classifier}
    (h : m.IsComparable general specific) :
    m.subsumption general specific
      = ⟨[general.fieldRequest, specific.fieldRequest], some (general, specific)⟩ := by
  simp only [subsumption, h.alike, h.general, h.specific, if_true, Bool.and_self,
    List.filter_cons_of_pos, List.filter_nil, List.map_cons, List.map_nil]

/-- Ends that are not comparable leave nothing to compare. -/
theorem fields_of_not_isComparable {general specific : Classifier}
    (h : ¬ m.IsComparable general specific) : (m.subsumption general specific).fields = none := by
  unfold subsumption
  split
  · next hlike =>
    refine if_neg fun hfields => h ?_
    rw [Bool.and_eq_true] at hfields
    exact ⟨hlike, hfields.1, hfields.2⟩
  · rfl

/-- A member relates one pair of elements only. -/
theorem Relates.unique {a b a' b' : Classifier} (h : m.Relates id a b) (h' : m.Relates id a' b') :
    a = a' ∧ b = b' := by
  obtain ⟨hg, ha, hb⟩ := h
  obtain ⟨hg', ha', hb'⟩ := h'
  obtain rfl := Option.some.inj (hg.symm.trans hg')
  exact ⟨Option.some.inj (ha.symm.trans ha'), Option.some.inj (hb.symm.trans hb')⟩

/-- A represented member is not passed over. -/
theorem Represents.not_passesOver {fields : Classifier × Classifier} (h : m.Represents id fields) :
    ¬ m.PassesOver id := by
  rintro ⟨general, specific, hrelates, hnot⟩
  obtain ⟨rfl, rfl⟩ := h.relates.unique hrelates
  exact hnot h.comparable

/-- A dangling member relates nothing. -/
theorem Dangles.not_relates {d : Defect} (h : m.Dangles s id d) (general specific : Classifier) :
    ¬ m.Relates id general specific := by
  rintro ⟨hg, hgeneral, hspecific⟩
  -- each of the three look-ups that may fail has succeeded in a related member
  cases h with
  | member hmissing =>
    rw [findGeneralization_eq_none_iff.mpr hmissing] at hg
    cases hg
  | general hg' hmissing =>
    obtain rfl := Option.some.inj (hg.symm.trans hg')
    rw [find_eq_none_iff.mpr hmissing] at hgeneral
    cases hgeneral
  | specific hg' _ hmissing =>
    obtain rfl := Option.some.inj (hg.symm.trans hg')
    rw [find_eq_none_iff.mpr hmissing] at hspecific
    cases hspecific

/-- A member dangles, is represented or is passed over. -/
theorem member_cases (s : GeneralizationSet) (id : ElementId) :
    (∃ d, m.Dangles s id d) ∨ (∃ fields, m.Represents id fields) ∨ m.PassesOver id := by
  -- the three look-ups are made one after another; the last question is whether the fields compare
  cases hg : m.findGeneralization id with
  | none => exact Or.inl ⟨_, .member (findGeneralization_eq_none_iff.mp hg)⟩
  | some g =>
    cases hgeneral : m.find g.general with
    | none => exact Or.inl ⟨_, .general hg (find_eq_none_iff.mp hgeneral)⟩
    | some general =>
      cases hspecific : m.find g.specific with
      | none => exact Or.inl ⟨_, .specific hg hgeneral (find_eq_none_iff.mp hspecific)⟩
      | some specific =>
        right
        have hrelates : m.Relates id general specific := .intro hg hgeneral hspecific
        by_cases hcomparable : m.IsComparable general specific
        · exact Or.inl ⟨(general, specific), hrelates, hcomparable⟩
        · exact Or.inr ⟨general, specific, hrelates, hcomparable⟩

/-! ## One member -/

section

variable {members : List ElementId} {seen : List (Classifier × Classifier)}

/-- A member that relates two elements makes its requests, and the step goes on if there are fields.
-/
theorem membersStep_of_relates {general specific : Classifier}
    (h : m.Relates id general specific) :
    m.membersStep s (id :: members) seen =
      ((m.subsumption general specific).fields.elim Step.skip fun fields =>
        m.membersStep s members (seen ++ [fields])).requesting
          (m.subsumption general specific).requests := by
  obtain ⟨hg, hgeneral, hspecific⟩ := h
  rw [membersStep]
  simp only [hg, subsumptionOf_eq hgeneral hspecific, Step.given_ok]
  cases (m.subsumption general specific).fields with
  | none => rfl
  | some fields => rfl

/-- A represented member hands its fields over to the rest. -/
theorem membersStep_of_represents {fields : Classifier × Classifier} (h : m.Represents id fields) :
    m.membersStep s (id :: members) seen = (m.membersStep s members (seen ++ [fields])).requesting
      [fields.1.fieldRequest, fields.2.fieldRequest] := by
  rw [membersStep_of_relates h.relates, h.comparable.subsumption_eq, Option.elim_some]

/-- The members behind one that is passed over are not looked at. -/
theorem membersStep_of_passesOver (h : m.PassesOver id) (s : GeneralizationSet)
    (members : List ElementId) (seen : List (Classifier × Classifier)) :
    ∃ requests, m.membersStep s (id :: members) seen = Step.skip.requesting requests := by
  obtain ⟨general, specific, hrelates, hnot⟩ := h
  refine ⟨(m.subsumption general specific).requests, ?_⟩
  rw [membersStep_of_relates hrelates, fields_of_not_isComparable hnot, Option.elim_none]

/-- A dangling member ends the step with its defect. -/
theorem membersStep_of_dangles {d : Defect} (h : m.Dangles s id d) (members : List ElementId)
    (seen : List (Classifier × Classifier)) : m.membersStep s (id :: members) seen = .fail d := by
  cases h with
  | member hmissing =>
    rw [membersStep, findGeneralization_eq_none_iff.mpr hmissing]
  | general hg hmissing =>
    simp only [membersStep, hg, subsumptionOf, resolve, find_eq_none_iff.mpr hmissing]
    rfl
  | specific hg hgeneral hmissing =>
    simp only [membersStep, hg, subsumptionOf, resolve, hgeneral, find_eq_none_iff.mpr hmissing]
    rfl

/-! ## All members -/

/-- If all members are represented, their fields are requested and the set is stated. -/
theorem membersStep_eq {fields : List (Classifier × Classifier)}
    (h : List.Forall₂ m.Represents members fields) (seen : List (Classifier × Classifier)) :
    m.membersStep s members seen = ⟨fieldRequests fields, s.fragments (seen ++ fields), none⟩ := by
  -- by induction on the members, with what has been seen as a parameter
  induction h generalizing seen with
  | nil => rw [membersStep, List.append_nil, fieldRequests, List.flatMap_nil]
  | @cons id f members fields hid hrest ih =>
    rw [membersStep_of_represents hid, ih, List.append_assoc, List.singleton_append, fieldRequests,
      fieldRequests, List.flatMap_cons]
    rfl

/-- Otherwise nothing is. -/
theorem fragments_membersStep_eq_nil (seen : List (Classifier × Classifier))
    (h : ¬ ∃ fields, List.Forall₂ m.Represents members fields) (n : Names) :
    (m.membersStep s members seen).fragments n = [] := by
  induction members generalizing seen with
  | nil => exact absurd ⟨[], .nil⟩ h
  | cons id members ih =>
    -- the first member decides: the step fails, goes on with the rest, or ends without a word
    rcases member_cases s id with ⟨d, hd⟩ | ⟨f, hf⟩ | hover
    · rw [membersStep_of_dangles hd]
      rfl
    · rw [membersStep_of_represents hf, Step.requesting_fragments]
      refine ih _ fun ⟨fields, hfields⟩ => h ⟨f :: fields, .cons hf hfields⟩
    · obtain ⟨requests, heq⟩ := membersStep_of_passesOver hover s members seen
      rw [heq]
      rfl

/-- The step fails at the first dangling member, if only represented ones stand before it. -/
theorem failure_membersStep_iff {d : Defect} (seen : List (Classifier × Classifier)) :
    (m.membersStep s members seen).failure = some d ↔
      PassesUntil (fun id => ∃ fields, m.Represents id fields) (fun id => m.Dangles s id d)
        members := by
  induction members generalizing seen with
  | nil => exact iff_of_false (fun h => nomatch h) not_passesUntil_nil
  | cons id members ih =>
    rw [passesUntil_cons]
    rcases member_cases s id with ⟨d', hd'⟩ | ⟨f, hf⟩ | hover
    · -- the defect of a member is its own, and a dangling member has no fields
      have hnot : ¬ ∃ fields, m.Represents id fields :=
        fun ⟨_, hfields⟩ => hd'.not_relates _ _ hfields.relates
      have hstep := membersStep_of_dangles hd' members seen
      rw [hstep]
      constructor
      · rintro hfail
        obtain rfl := Option.some.inj hfail
        exact Or.inl hd'
      · rintro (hd | ⟨hfields, -⟩)
        · rw [← hstep, membersStep_of_dangles hd]
          rfl
        · exact absurd hfields hnot
    -- a represented member hands on to the rest
    · have hnot : ¬ m.Dangles s id d := fun hd => hd.not_relates _ _ hf.relates
      rw [membersStep_of_represents hf, Step.requesting_failure, ih]
      simp only [hnot, false_or, iff_and_self]
      exact fun _ => ⟨f, hf⟩
    -- the step ends here, without the defect of a later member
    · obtain ⟨requests, heq⟩ := membersStep_of_passesOver hover s members seen
      have hdangles : ¬ m.Dangles s id d := by
        obtain ⟨general, specific, hrelates, -⟩ := hover
        exact fun hd => hd.not_relates _ _ hrelates
      rw [heq]
      refine iff_of_false (fun h => nomatch h) ?_
      rintro (hd | ⟨⟨f, hf⟩, -⟩)
      · exact hdangles hd
      · exact hf.not_passesOver hover

end

/-! ## Generalization sets -/

/-- A set with represented members states what follows from their fields. -/
theorem generalizationSetStep_eq (hstates : (s.isDisjoint || s.isComplete) = true)
    {fields : List (Classifier × Classifier)} (h : List.Forall₂ m.Represents s.members fields) :
    m.generalizationSetStep s = ⟨fieldRequests fields, s.fragments fields, none⟩ := by
  rw [generalizationSetStep, if_pos hstates, membersStep_eq h, List.nil_append]

/-- A set that emits anything is disjoint or complete, and all of its members are represented. -/
theorem exists_of_fragments_generalizationSetStep {n : Names} {f : Fragment}
    (h : f ∈ (m.generalizationSetStep s).fragments n) :
    (s.isDisjoint || s.isComplete) = true ∧
      ∃ fields, List.Forall₂ m.Represents s.members fields := by
  unfold generalizationSetStep at h
  split at h
  · next hstates =>
    refine ⟨hstates, by_contra fun hnot => ?_⟩
    rw [fragments_membersStep_eq_nil [] hnot] at h
    cases h
  · cases h

/-- If a member dangles and none before it is passed over, the first dangling one comes behind
represented ones only. -/
theorem exists_first_dangling {members : List ElementId}
    (h : PassesUntil (fun id => ¬ m.PassesOver id) (fun id => ∃ d, m.Dangles s id d) members) :
    ∃ d, PassesUntil (fun id => ∃ fields, m.Represents id fields) (fun id => m.Dangles s id d)
      members := by
  induction members with
  | nil => exact absurd h not_passesUntil_nil
  | cons id members ih =>
    simp only [passesUntil_cons] at h ⊢
    -- a dangling member in front is the first one
    rcases member_cases s id with ⟨d, hd⟩ | hf | hover
    · exact ⟨d, Or.inl hd⟩
    · rcases h with ⟨d, hd⟩ | ⟨-, hrest⟩
      · exact ⟨d, Or.inl hd⟩
      · obtain ⟨d, hd⟩ := ih hrest
        exact ⟨d, Or.inr ⟨hf, hd⟩⟩
    -- no member in front may be passed over
    · rcases h with ⟨d, hd⟩ | ⟨hnot, -⟩
      · exact ⟨d, Or.inl hd⟩
      · exact absurd hover hnot

/-- The defect of a dangling member is a dangling reference. -/
theorem Dangles.exists_eq {d : Defect} (h : m.Dangles s id d) :
    ∃ owner element, d = .danglingReference owner element := by
  cases h with
  | member _ => exact ⟨_, _, rfl⟩
  | general _ _ => exact ⟨_, _, rfl⟩
  | specific _ _ _ => exact ⟨_, _, rfl⟩

end Model

namespace Session

/-- A set that states anything fails at its first dangling member, behind represented ones only. -/
theorem failure_generalizationSet_iff {m : Model} {g : GeneralizationSet}
    (hstates : (g.isDisjoint || g.isComplete) = true) (s : Session) (d : Defect) :
    (s.perform m (.generalizationSet g)).2 = some d ↔
      PassesUntil (fun id => ∃ fields, m.Represents id fields) (fun id => m.Dangles g id d)
        g.members := by
  rw [perform_of_turn_none rfl, Model.stepOf, Model.generalizationSetStep, if_pos hstates]
  exact Model.failure_membersStep_iff []

/-- **Dangling members.** In any session, a generalization set that is disjoint or complete is
reported exactly if one of its members dangles and none before this one is passed over. The report
is about the first dangling member, and there is no other report. -/
theorem dangling_reported_iff {m : Model} {g : GeneralizationSet}
    (hstates : (g.isDisjoint || g.isComplete) = true) (s : Session) :
    ((∃ owner element,
        (s.perform m (.generalizationSet g)).2 = some (.danglingReference owner element)) ↔
      PassesUntil (fun id => ¬ m.PassesOver id) (fun id => ∃ d, m.Dangles g id d) g.members) ∧
      ∀ d, (s.perform m (.generalizationSet g)).2 = some d ↔
        PassesUntil (fun id => ∃ fields, m.Represents id fields) (fun id => m.Dangles g id d)
          g.members := by
  refine ⟨⟨?_, ?_⟩, failure_generalizationSet_iff hstates s⟩
  -- represented members are not passed over
  · rintro ⟨owner, element, hfail⟩
    obtain ⟨before, id, after, hmembers, hbefore, hid⟩ :=
      (failure_generalizationSet_iff hstates s _).mp hfail
    refine ⟨before, id, after, hmembers, fun b hb => ?_, _, hid⟩
    obtain ⟨fields, hfields⟩ := hbefore b hb
    exact hfields.not_passesOver
  -- the first dangling member is the one reported
  · intro h
    obtain ⟨d, hd⟩ := Model.exists_first_dangling h
    have hfail := (failure_generalizationSet_iff hstates s d).mpr hd
    obtain ⟨before, id, after, -, -, hid⟩ := hd
    obtain ⟨owner, element, rfl⟩ := hid.exists_eq
    exact ⟨owner, element, hfail⟩

end Session

namespace Model

/-- Names are texts. The two datatypes have no fields, and there is no other generalization. -/
def texts : Model where
  classes := [
    { id := ⟨"text"⟩, name := some "Text", stereotype := some .datatype },
    { id := ⟨"name"⟩, name := some "Name", stereotype := some .datatype }]
  generalizations := [⟨⟨"short"⟩, none, ⟨"text"⟩, ⟨"name"⟩⟩]

/-- The one generalization, and a missing one. -/
def textKinds : GeneralizationSet :=
  { id := ⟨"kinds"⟩, isDisjoint := true, members := [⟨"short"⟩, ⟨"long"⟩] }

/-- The second member of the set dangles. -/
theorem texts_dangles : texts.Dangles textKinds ⟨"long"⟩ (.danglingReference ⟨"kinds"⟩ ⟨"long"⟩) :=
  .member (by decide)

/-- In a new session, the set is reported if and only if its second member is. -/
theorem texts_dangling_reported_iff :
    (textKinds.isDisjoint || textKinds.isComplete) = true ∧
      ((∃ owner element, (({} : Session).perform texts (.generalizationSet textKinds)).2
          = some (.danglingReference owner element)) ↔
        PassesUntil (fun id => ¬ texts.PassesOver id) (fun id => ∃ d, texts.Dangles textKinds id d)
          textKinds.members) ∧
      ∀ d, (({} : Session).perform texts (.generalizationSet textKinds)).2 = some d ↔
        PassesUntil (fun id => ∃ fields, texts.Represents id fields)
          (fun id => texts.Dangles textKinds id d) textKinds.members :=
  ⟨rfl, Session.dangling_reported_iff rfl {}⟩

/-- So there are dangling members that nobody hears of. -/
theorem not_forall_dangling_reported :
    ¬ ∀ (m : Model) (s : Session) (g : GeneralizationSet), (g.isDisjoint || g.isComplete) = true →
      ((∃ owner element,
          (s.perform m (.generalizationSet g)).2 = some (.danglingReference owner element)) ↔
        ∃ id ∈ g.members, ∃ d, m.Dangles g id d) := by
  intro h
  obtain ⟨owner, element, hfail⟩ :=
    (h texts {} textKinds rfl).mpr ⟨⟨"long"⟩, by decide, _, texts_dangles⟩
  have hsilent : (({} : Session).perform texts (.generalizationSet textKinds)).2 = none := by
    decide +kernel
  rw [hsilent] at hfail
  cases hfail

end Model

end OntoWorlds
