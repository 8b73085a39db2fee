import Mathlib.Data.List.Basic
import OntoWorlds.Proofs.Identifier.Numbered
import OntoWorlds.Proofs.Module.Text

/-!
# OntoWorlds — the lines of a module

Where no identifier holds a line feed, every paragraph of a module has one line at the margin, its
first one; all others are indented or close a brace. So the lines at the margin tell how many
declarations of each kind the text holds, and the world fields can be read off the block of the
signature `World`.

* `linesOf` — a text split at its line feeds.
* `Heads` — the line at the margin of a paragraph.
* `Sections.IsLined` — nothing that a section holds breaks a line.
* `PicksOut` — a test that tells some kinds of paragraphs by their line at the margin.
* `Sections.linesOf_text`, `Sections.countP_text` — the lines of a module part by part; those that a
  test picks out are as many as the paragraphs of its kinds.
* `Sections.worldBlock_text` — the lines of the signature `World`.
-/

namespace OntoWorlds.Alloy

/-! ## Splitting at line feeds -/

/-- The lines of a text, between its line feeds. -/
def linesOf (text : String) : List String := (text.toList.splitOn '\n').map String.ofList

/-- The word holds no line feed. -/
def OneLine (w : String) : Prop := '\n' ∉ w.toList

instance (w : String) : Decidable (OneLine w) := inferInstanceAs (Decidable ('\n' ∉ w.toList))

/-- A concatenation holds no line feed exactly if neither part does. -/
theorem oneLine_append {v w : String} : OneLine (v ++ w) ↔ OneLine v ∧ OneLine w := by
  rw [OneLine, String.toList_append, List.mem_append, not_or]
  exact Iff.rfl

theorem OneLine.append {v w : String} (hv : OneLine v) (hw : OneLine w) : OneLine (v ++ w) :=
  oneLine_append.mpr ⟨hv, hw⟩

/-- Numerals hold no line feed, as they hold digits only. -/
theorem oneLine_toString (n : Nat) : OneLine (toString n) := by
  rw [OneLine, Nat.toString_eq_ofList_toDigits, String.toList_ofList]
  intro hmem
  exact absurd (Identifier.isDigit_of_mem_digits hmem) (by decide)

/-- A word without a line feed is one line. -/
theorem linesOf_of_oneLine {w : String} (h : OneLine w) : linesOf w = [w] := by
  rw [linesOf, List.splitOn_eq_singleton h, List.map_singleton, String.ofList_toList]

/-- Words without line feeds are the lines they consist of. -/
theorem flatMap_linesOf {es : List String} (h : ∀ e ∈ es, OneLine e) : es.flatMap linesOf = es := by
  induction es with
  | nil => rfl
  | cons e es ih =>
    rw [List.flatMap_cons, linesOf_of_oneLine (h e List.mem_cons_self),
      ih fun e' he' => h e' (List.mem_cons_of_mem _ he'), List.singleton_append]

/-- A line feed ends what comes before it and starts what comes after it. -/
theorem linesOf_feed (v w : String) : linesOf (v ++ "\n" ++ w) = linesOf v ++ linesOf w := by
  have hlist : (v ++ "\n" ++ w).toList = v.toList ++ '\n' :: w.toList := by simp
  rw [linesOf, hlist]
  simp only [List.splitOn]
  rw [List.splitOnP_append_cons _ _ (by decide), List.map_append]
  rfl

/-- Terminated words come line by line before the rest. -/
theorem linesOf_terminated_append (es : List String) (w : String) :
    linesOf (terminated es ++ w) = es.flatMap linesOf ++ linesOf w := by
  induction es with
  | nil => simp [terminated]
  | cons e es ih =>
    rw [terminated, String.append_assoc, linesOf_feed, ih, List.flatMap_cons, List.append_assoc]

/-- After the last terminated word there is an empty line. -/
theorem linesOf_terminated (es : List String) :
    linesOf (terminated es) = es.flatMap linesOf ++ [""] := by
  have h := linesOf_terminated_append es ""
  rwa [String.append_empty] at h

/-! ## Paragraphs -/

/-- The line is indented or closes a brace. -/
def IsInner (l : String) : Prop := l.toList.head? = some ' ' ∨ l.toList.head? = some '\x7d'

/-- The paragraph has one line at the margin, its first one. -/
def Heads (first p : String) : Prop := ∃ inner, linesOf p = first :: inner ∧ ∀ l ∈ inner, IsInner l

/-- An indented line is an inner one. -/
theorem isInner_indent (l : String) : IsInner (indent ++ l) := by
  left
  simp [indent]

/-- A paragraph of a single line is headed by it. -/
theorem heads_of_oneLine {p : String} (h : OneLine p) : Heads p p :=
  ⟨[], linesOf_of_oneLine h, fun _ hl => absurd hl List.not_mem_nil⟩

/-- The lines of a block that is not empty: its header, its indented lines and the closing brace. -/
theorem linesOf_block (header : String) {lines : List String} (hne : lines ≠ []) :
    linesOf (block header lines)
      = linesOf (header ++ " \x7b") ++ lines.flatMap (fun l => linesOf (indent ++ l))
        ++ ["\x7d"] := by
  have htext : block header lines
      = header ++ " \x7b" ++ "\n" ++ (terminated (lines.map (indent ++ ·)) ++ "\x7d") := by
    rw [block, if_neg (by simpa using hne)]
    have hfeed : " \x7b\n" = " \x7b" ++ "\n" := by decide
    rw [hfeed]
    simp only [String.append_assoc]
  -- the closing brace stands on a line of its own
  have hclose : OneLine "\x7d" := by decide
  rw [htext, linesOf_feed, linesOf_terminated_append, List.flatMap_map, linesOf_of_oneLine hclose,
    List.append_assoc]

/-- A block whose lines are broken into indented ones only. -/
theorem heads_block {header : String} (hheader : OneLine header) {lines : List String}
    (hlines : ∀ l ∈ lines, ∀ l' ∈ linesOf (indent ++ l), IsInner l') :
    ∃ rest, Heads (header ++ " \x7b" ++ rest) (block header lines) := by
  by_cases hne : lines = []
  · -- the braces stand on the header
    refine ⟨"\x7d", ?_⟩
    have htext : block header lines = header ++ " \x7b" ++ "\x7d" := by
      subst hne
      rw [block, if_pos List.isEmpty_nil, String.append_assoc]
      rfl
    rw [htext]
    exact heads_of_oneLine ((hheader.append (by decide)).append
      (by decide))
  · -- the header ends in the opening brace, and nothing else stands there
    refine ⟨"", ?_⟩
    rw [String.append_empty]
    refine ⟨lines.flatMap (fun l => linesOf (indent ++ l)) ++ ["\x7d"], ?_, ?_⟩
    · rw [linesOf_block header hne,
        linesOf_of_oneLine (hheader.append (by decide)), List.append_assoc]
      rfl
    · -- behind the header there are the given lines and the closing brace
      intro l' hl'
      rcases List.mem_append.mp hl' with hl' | hl'
      · obtain ⟨l, hl, hl'⟩ := List.mem_flatMap.mp hl'
        exact hlines l hl l' hl'
      · rw [List.mem_singleton.mp hl']
        right
        decide

/-- An indented word is one line, which is an inner one. -/
theorem isInner_of_oneLine {l : String} (h : OneLine l) :
    ∀ l' ∈ linesOf (indent ++ l), IsInner l' := by
  have hindent : OneLine (indent ++ l) := OneLine.append (by decide) h
  rw [linesOf_of_oneLine hindent]
  intro l' hl'
  rw [List.mem_singleton.mp hl']
  exact isInner_indent l

/-- The lines of a list of fields: indented, with a comma at the end of all but the last. -/
def fieldLines : List String → List String
  | [] => []
  | [f] => [indent ++ f]
  | f :: fs => (indent ++ f ++ ",") :: fieldLines fs

/-- There is one line for each field. -/
theorem length_fieldLines (fs : List String) : (fieldLines fs).length = fs.length := by
  fun_induction fieldLines fs with
  | case1 => rfl
  | case2 => rfl
  | case3 f fs _ ih => rw [List.length_cons, List.length_cons, ih]

/-- All of them are indented. -/
theorem isInner_fieldLines (fs : List String) : ∀ l ∈ fieldLines fs, IsInner l := by
  fun_induction fieldLines fs with
  | case1 => exact fun _ h => absurd h List.not_mem_nil
  | case2 f =>
    intro l hl
    rw [List.mem_singleton.mp hl]
    exact isInner_indent f
  | case3 f fs _ ih =>
    intro l hl
    rcases List.mem_cons.mp hl with rfl | hl
    · rw [String.append_assoc]
      exact isInner_indent _
    · exact ih l hl

/-- The fields are printed with commas between them, each on its line. -/
theorem linesOf_fields {fs : List String} (hne : fs ≠ []) (h : ∀ f ∈ fs, OneLine f) :
    linesOf (indent ++ String.intercalate fieldSeparator fs) = fieldLines fs := by
  fun_induction fieldLines fs with
  | case1 => exact absurd rfl hne
  | case2 f =>
    rw [String.intercalate_singleton]
    exact linesOf_of_oneLine (OneLine.append (by decide) (h f List.mem_cons_self))
  | case3 f fs hfs ih =>
    obtain ⟨g, gs, rfl⟩ : ∃ g gs, fs = g :: gs := List.exists_cons_of_ne_nil hfs
    -- the first separator is where the text is broken
    have hsplit : indent ++ String.intercalate fieldSeparator (f :: g :: gs)
        = indent ++ f ++ "," ++ "\n"
          ++ (indent ++ String.intercalate fieldSeparator (g :: gs)) := by
      rw [String.intercalate_cons_cons]
      have hseparator : fieldSeparator = "," ++ "\n" ++ indent := by decide
      rw [hseparator]
      simp only [String.append_assoc]
    have hline : OneLine (indent ++ f ++ ",") :=
      (OneLine.append (by decide) (h f List.mem_cons_self)).append (by decide)
    rw [hsplit, linesOf_feed, linesOf_of_oneLine hline,
      ih (List.cons_ne_nil g gs) fun f' hf' => h f' (List.mem_cons_of_mem _ hf')]
    rfl

/-! ## Lines at the margin -/

/-- The line starts with the word. -/
def opensWith (w line : String) : Bool := w.toList.isPrefixOf line.toList

/-- A line starts with the word that it was put together from. -/
theorem opensWith_append (w x : String) : opensWith w (w ++ x) = true := by
  rw [opensWith, List.isPrefixOf_iff_prefix, String.toList_append]
  exact List.prefix_append _ _

/-- Two words that differ before either ends cannot start the same line. -/
theorem opensWith_eq_false {w v : String} (hw : opensWith w v = false) (hv : opensWith v w = false)
    -- were the word a prefix as well, so that both start one line
    (x : String) : opensWith w (v ++ x) = false := by
  rw [opensWith, Bool.eq_false_iff, ne_eq, List.isPrefixOf_iff_prefix] at hw hv ⊢
  intro hprefix
  -- both words start the line, so one of them starts the other
  have hprefix' : v.toList <+: (v ++ x).toList := by
    rw [String.toList_append]
    exact List.prefix_append _ _
  exact (List.prefix_or_prefix_of_prefix hprefix hprefix').elim hw hv

/-- The word can stand between blanks: it holds neither a blank nor a line feed. -/
def OneWord (w : String) : Prop := ' ' ∉ w.toList ∧ OneLine w

/-- The line starts as `sig D in Datatype`, for some word `D`. -/
def isDatatypeLine (line : String) : Bool :=
  opensWith "sig " line &&
    " in Datatype".toList.isPrefixOf ((line.toList.drop 4).dropWhile (· != ' '))

/-- The first line of a datatype passes, whatever its name and whatever stands behind. -/
theorem isDatatypeLine_append {name : String} (h : OneWord name) (x : String) :
    isDatatypeLine ("sig " ++ name ++ " in Datatype" ++ x) = true := by
  have hopens : opensWith "sig " ("sig " ++ name ++ " in Datatype" ++ x) = true := by
    rw [String.append_assoc, String.append_assoc]
    exact opensWith_append _ _
  have hdrop : ("sig " ++ name ++ " in Datatype" ++ x).toList.drop 4
      = name.toList ++ (" in Datatype".toList ++ x.toList) := by
    simp
  -- the name ends at the first blank behind it
  have hword : ∀ c ∈ name.toList, (c != ' ') = true := by
    intro c hc
    rw [bne_iff_ne]
    rintro rfl
    exact h.1 hc
  rw [isDatatypeLine, hopens, hdrop, List.dropWhile_append_of_pos hword]
  simp

/-- A test that only lines at the margin can pass. -/
structure IsMarginTest (test : String → Bool) : Prop where
  inner : ∀ l, IsInner l → test l = false
  blank : test "" = false

/-- A test for a first word passes no inner line, if the word starts neither with a blank nor with a
brace. -/
theorem isMarginTest_opensWith {w : String} {c : Char} (hw : w.toList.head? = some c)
    (hblank : c ≠ ' ') (hbrace : c ≠ '\x7d') : IsMarginTest (opensWith w) := by
  obtain ⟨cs, hcs⟩ := List.head?_eq_some_iff.mp hw
  refine ⟨?_, by rw [opensWith, hcs]; rfl⟩
  intro l hl
  rw [opensWith, hcs]
  -- the line starts with another character
  rcases hl with hl | hl
  · -- an indented line
    obtain ⟨rest, hrest⟩ := List.head?_eq_some_iff.mp hl
    rw [hrest, List.isPrefixOf_cons_cons, beq_false_of_ne hblank, Bool.false_and]
  · -- a line that closes a brace
    obtain ⟨rest, hrest⟩ := List.head?_eq_some_iff.mp hl
    rw [hrest, List.isPrefixOf_cons_cons, beq_false_of_ne hbrace, Bool.false_and]

/-- The test for datatypes passes no inner line, as that for `sig` does not. -/
theorem isMarginTest_isDatatypeLine : IsMarginTest isDatatypeLine where
  inner := by
    intro l hl
    have hsig : IsMarginTest (opensWith "sig ") :=
      isMarginTest_opensWith (c := 's') (by decide) (by decide) (by decide)
    rw [isDatatypeLine, hsig.inner l hl, Bool.false_and]
  blank := by decide

/-- Of paragraphs that all pass the test, or all fail it, one line each counts, or none. -/
theorem countP_spaced {test : String → Bool} (htest : IsMarginTest test) {b : Bool}
    {ps : List String} (h : ∀ p ∈ ps, ∃ first, Heads first p ∧ test first = b) :
    ((spaced ps).flatMap linesOf).countP test = if b then ps.length else 0 := by
  -- induction on the paragraphs, each of which is followed by a blank line
  induction ps with
  | nil => cases b <;> rfl
  | cons p ps ih =>
    obtain ⟨first, ⟨inner, hlines, hinner⟩, hfirst⟩ := h p List.mem_cons_self
    -- of a paragraph, only the line at the margin can count
    have hzero : inner.countP test = 0 := by
      rw [List.countP_eq_zero]
      intro l hl
      rw [htest.inner l (hinner l hl)]
      exact Bool.false_ne_true
    have hspaced : (spaced (p :: ps)).flatMap linesOf
        = first :: inner ++ ("" :: (spaced ps).flatMap linesOf) := by
      rw [spaced, List.flatMap_cons, List.flatMap_append, List.flatMap_cons, hlines,
        List.append_assoc]
      rfl
    have hrest := ih fun q hq => h q (List.mem_cons_of_mem _ hq)
    rw [hspaced, List.cons_append, List.countP_cons, List.countP_append, hzero,
      List.countP_cons_of_neg (by rw [htest.blank]; exact Bool.false_ne_true), hrest, hfirst,
      List.length_cons]
    cases b <;> simp

/-! ## What the paragraphs announce -/

/-- The paragraph is headed by a line that starts with the word. -/
def Announces (w p : String) : Prop := ∃ x, Heads (w ++ x) p

/-- A block whose header starts with a word. -/
theorem announces_block {w header : String} (hw : ∃ x, header = w ++ x) (hheader : OneLine header)
    {lines : List String} (hlines : ∀ l ∈ lines, OneLine l) : Announces w (block header lines) := by
  obtain ⟨x, rfl⟩ := hw
  obtain ⟨rest, hrest⟩ := heads_block hheader fun l hl => isInner_of_oneLine (hlines l hl)
  refine ⟨x ++ " \x7b" ++ rest, ?_⟩
  simpa only [String.append_assoc] using hrest

/-- The name of a datatype is a word, and its fields stay on their lines. -/
def Datatype.IsLined (d : Datatype) : Prop := OneWord d.name ∧ ∀ f ∈ d.fields, OneLine f.text

/-- Nothing that a section holds breaks the line that it is printed in. -/
structure Sections.IsLined (s : Sections) : Prop where
  worldFields : ∀ f ∈ s.worldFields, OneLine f.text
  coverings : ∀ c ∈ s.coverings, OneLine c.text
  facts : ∀ f ∈ s.facts, ∀ l ∈ f.lines, OneLine l
  immutabilities : ∀ i ∈ s.immutabilities, OneLine i.text
  accessors : ∀ a ∈ s.accessors, OneLine a.name ∧ OneLine a.domain.text ∧ OneLine a.range.text ∧
    OneLine a.body.text
  selectors : ∀ f ∈ s.selectors, OneLine f.text
  enumerations : ∀ e ∈ s.enumerations, OneLine e.text
  datatypes : ∀ d ∈ s.datatypes, d.IsLined

/-- A list of words is on one line if the words and the separator are. -/
theorem oneLine_intercalate {separator : String} (hseparator : OneLine separator)
    {ws : List String} (h : ∀ w ∈ ws, OneLine w) : OneLine (String.intercalate separator ws) := by
  induction ws with
  | nil =>
    rw [String.intercalate_nil]
    decide
  | cons w ws ih =>
    have hw := h w List.mem_cons_self
    have hws := ih fun v hv => h v (List.mem_cons_of_mem _ hv)
    cases ws with
    | nil =>
      rw [String.intercalate_singleton]
      exact hw
    | cons v vs =>
      rw [String.intercalate_cons_cons]
      exact (hw.append hseparator).append hws

/-- An `enum` is a single line. -/
theorem announces_enumeration {e : Enumeration} (h : OneLine e.text) :
    Announces "enum " e.text := by
  have hheads := heads_of_oneLine h
  refine ⟨e.name ++ " \x7b " ++ String.intercalate ", " e.literals ++ " \x7d", ?_⟩
  simpa only [Enumeration.text, String.append_assoc] using hheads

/-- A datatype is headed by its name. -/
theorem heads_datatype {d : Datatype} (h : d.IsLined) :
    ∃ x, Heads ("sig " ++ d.name ++ " in Datatype" ++ x) d.text := by
  obtain ⟨hname, hfields⟩ := h
  have hheader : OneLine ("sig " ++ d.name ++ " in Datatype") :=
    (OneLine.append (by decide) hname.2).append (by decide)
  have hlines : ∀ l ∈ (if d.fields.isEmpty then []
      else [String.intercalate fieldSeparator (d.fields.map InlineField.text)]),
      ∀ l' ∈ linesOf (indent ++ l), IsInner l' := by
    -- there are no fields, or they are one list that is broken into lines
    intro l hl
    split at hl
    · cases hl
    · next hne =>
      rw [List.mem_singleton.mp hl, linesOf_fields (by simpa using hne)]
      · exact isInner_fieldLines _
      · intro w hw
        obtain ⟨f, hf, rfl⟩ := List.mem_map.mp hw
        exact hfields f hf
  obtain ⟨rest, hrest⟩ := heads_block hheader hlines
  exact ⟨" \x7b" ++ rest, by rw [← String.append_assoc]; exact hrest⟩

/-- What is behind the fields of the signature of worlds: its constraints, if there are any. -/
theorem linesOf_constraints {constraints : List String} (h : ∀ c ∈ constraints, OneLine c) :
    ∃ closing inner, linesOf ("\x7d" ++ if constraints.isEmpty then ""
        else "\x7b\n" ++ terminated (constraints.map (indent ++ ·)) ++ "\x7d")
          = ("\x7d" ++ closing) :: inner ∧ ∀ l ∈ inner, IsInner l := by
  cases hempty : constraints.isEmpty with
  | true =>
    refine ⟨"", [], ?_, fun _ hl => absurd hl List.not_mem_nil⟩
    rw [if_pos rfl]
    exact linesOf_of_oneLine (by decide)
  | false =>
    have hsplit (x : String) : "\x7d" ++ ("\x7b\n" ++ x ++ "\x7d")
        = "\x7d" ++ "\x7b" ++ "\n" ++ (x ++ "\x7d") := by
      apply String.toList_injective
      simp
    refine ⟨"\x7b", constraints.flatMap (fun c => linesOf (indent ++ c)) ++ ["\x7d"], ?_, ?_⟩
    · rw [if_neg Bool.false_ne_true, hsplit, linesOf_feed, linesOf_terminated_append,
        List.flatMap_map, linesOf_of_oneLine (by decide), linesOf_of_oneLine (by decide)]
      rfl
    · intro l hl
      rcases List.mem_append.mp hl with hl | hl
      · obtain ⟨c, hc, hl⟩ := List.mem_flatMap.mp hl
        exact isInner_of_oneLine (h c hc) l hl
      · rw [List.mem_singleton.mp hl]
        right
        decide

/-- The first line of the signature of worlds. -/
def worldLine : String := "abstract sig World \x7b"

/-- The lines of the signature of worlds: its first one, its fields, the closing brace and its
constraints. -/
theorem linesOf_worldSignature {fields constraints : List String}
    (hfields : ∀ f ∈ fields, OneLine f) (hconstraints : ∀ c ∈ constraints, OneLine c) :
    ∃ closing inner, linesOf (worldSignature fields constraints)
        = worldLine :: (fieldLines ("exists: some Endurant" :: fields)
          ++ ("\x7d" ++ closing) :: inner) ∧ ∀ l ∈ inner, IsInner l := by
  have hall : ∀ f ∈ "exists: some Endurant" :: fields, OneLine f := by
    intro f hf
    rcases List.mem_cons.mp hf with rfl | hf
    · decide
    · exact hfields f hf
  -- the text broken at its first and last line feed, whatever the fields and constraints are
  have hsplit (x y : String) : "abstract sig World \x7b\n" ++ indent ++ x ++ "\n\x7d" ++ y
      = worldLine ++ "\n" ++ ((indent ++ x) ++ "\n" ++ ("\x7d" ++ y)) := by
    apply String.toList_injective
    simp [worldLine]
  obtain ⟨closing, inner, hlines, hinner⟩ := linesOf_constraints hconstraints
  refine ⟨closing, inner, ?_, hinner⟩
  have hopen : OneLine worldLine := by decide
  have htext : worldSignature fields constraints = _ := hsplit _ _
  rw [htext, linesOf_feed, linesOf_feed, hlines, linesOf_fields (List.cons_ne_nil _ _) hall,
    linesOf_of_oneLine hopen]
  rfl

/-- The header of a fact is one line that starts with the word for facts. -/
theorem exists_header_eq (f : Fact) : OneLine f.header ∧ ∃ x, f.header = "fact " ++ x := by
  cases f with
  | rigid => exact ⟨(by decide : OneLine "fact rigid"), "rigid", rfl⟩
  | antirigid => exact ⟨(by decide : OneLine "fact antirigid"), "antirigid", rfl⟩
  | generalization => exact ⟨(by decide : OneLine "fact generalization"), "generalization", rfl⟩
  | generalizationSet =>
    exact ⟨(by decide : OneLine "fact generalizationSet"), "generalizationSet", rfl⟩
  | derivation => exact ⟨(by decide : OneLine "fact derivations"), "derivations", rfl⟩
  | ordering => exact ⟨(by decide : OneLine "fact ordering"), "ordering", rfl⟩
  | functionalOrdering => exact ⟨(by decide : OneLine "fact ordering"), "ordering", rfl⟩
  | multiplicity => exact ⟨(by decide : OneLine "fact multiplicity"), "multiplicity", rfl⟩

/-- Facts about the model are announced as facts. -/
theorem announces_fact {f : Fact} (h : ∀ l ∈ f.lines, OneLine l) : Announces "fact " f.text :=
  announces_block (exists_header_eq f).2 (exists_header_eq f).1 h

theorem announces_existenceFact : Announces "fact " existenceFact :=
  announces_block ⟨"additionalFacts", by decide⟩ (by decide) (by decide)

/-- So is the fact about the relations that are immutable, if there are any. -/
theorem announces_immutabilityFact {lines : List String} (h : ∀ l ∈ lines, OneLine l) :
    ∀ p ∈ immutabilityFact lines, Announces "fact " p := by
  intro p hp
  unfold immutabilityFact at hp
  split at hp
  · cases hp
  · rw [List.mem_singleton.mp hp]
    exact announces_block ⟨"relationProperties", by decide⟩ (by decide) h

/-- Accessors are announced as functions. -/
theorem announces_accessor {a : Accessor} (hname : OneLine a.name) (hdomain : OneLine a.domain.text)
    (hrange : OneLine a.range.text) (hbody : OneLine a.body.text) :
    Announces "fun " a.text := by
  refine announces_block ⟨_, by simp only [String.append_assoc]; rfl⟩ ?_ ?_
  · exact ((((OneLine.append (by decide) hname).append (by decide)).append hdomain).append
      (by decide)).append hrange
  · intro l hl
    rw [List.mem_singleton.mp hl]
    exact hbody

/-- So is the function that a visualization shows. -/
theorem announces_visibleFunction {selectors : List String} (h : ∀ s ∈ selectors, OneLine s) :
    Announces "fun " (visibleFunction selectors) := by
  refine announces_block ⟨"visible : World->univ", by decide⟩ (by decide) ?_
  intro l hl
  rw [List.mem_singleton.mp hl]
  refine oneLine_intercalate (by decide) ?_
  intro w hw
  rcases List.mem_cons.mp hw with rfl | hw
  · decide
  · exact h w hw

/-! ## Counting -/

/-- What every module starts with: its head and the base signatures. -/
def commonEntries : List String := headEntries ++ spaced baseSignatures

/-- What every module starts with has no line feeds inside. -/
theorem flatMap_linesOf_commonEntries : commonEntries.flatMap linesOf = commonEntries :=
  flatMap_linesOf (by decide +kernel)

/-- A test of lines that picks out some kinds of declarations by their first line. -/
structure PicksOut (test : String → Bool) (enumerations datatypes worlds facts functions : Bool) :
    Prop extends IsMarginTest test where
  common : commonEntries.countP test = 0
  enumeration : ∀ x, test ("enum " ++ x) = enumerations
  datatype : ∀ name x, OneWord name → test ("sig " ++ name ++ " in Datatype" ++ x) = datatypes
  world : test worldLine = worlds
  fact : ∀ x, test ("fact " ++ x) = facts
  function : ∀ x, test ("fun " ++ x) = functions
  run : ∀ x, test ("run " ++ x) = false

/-- A word apart from `sig` does not open the line of a datatype. -/
theorem opensWith_datatype {w : String}
    (h : opensWith w "sig " = false ∧ opensWith "sig " w = false) (name x : String) : opensWith w ("sig " ++ name ++ " in Datatype" ++ x) = false := by
  rw [String.append_assoc, String.append_assoc]
  exact opensWith_eq_false h.1 h.2 _

/-- The word `enum` picks out the enumerations. -/
theorem picksOut_enumerations : PicksOut (opensWith "enum ") true false false false false where
  toIsMarginTest := isMarginTest_opensWith (c := 'e') (by decide) (by decide) (by decide)
  common := by decide +kernel
  enumeration := opensWith_append "enum "
  datatype name x _ := opensWith_datatype (by decide) name x
  world := by decide
  fact := opensWith_eq_false (by decide) (by decide)
  function := opensWith_eq_false (by decide) (by decide)
  run := opensWith_eq_false (by decide) (by decide)

/-- The test for datatypes picks them out. -/
theorem picksOut_datatypes : PicksOut isDatatypeLine false true false false false where
  toIsMarginTest := isMarginTest_isDatatypeLine
  common := by decide +kernel
  enumeration x := by
    rw [isDatatypeLine, opensWith_eq_false (by decide) (by decide), Bool.false_and]
  datatype _ x h := isDatatypeLine_append h x
  world := by decide
  fact x := by rw [isDatatypeLine, opensWith_eq_false (by decide) (by decide), Bool.false_and]
  function x := by rw [isDatatypeLine, opensWith_eq_false (by decide) (by decide), Bool.false_and]
  run x := by rw [isDatatypeLine, opensWith_eq_false (by decide) (by decide), Bool.false_and]

theorem picksOut_worlds : PicksOut (opensWith worldLine) false false true false false where
  toIsMarginTest := isMarginTest_opensWith (c := 'a') (by decide) (by decide) (by decide)
  common := by decide +kernel
  enumeration := opensWith_eq_false (by decide) (by decide)
  datatype name x _ := opensWith_datatype (by decide) name x
  world := by decide
  fact := opensWith_eq_false (by decide) (by decide)
  function := opensWith_eq_false (by decide) (by decide)
  run := opensWith_eq_false (by decide) (by decide)

theorem picksOut_facts : PicksOut (opensWith "fact ") false false false true false where
  toIsMarginTest := isMarginTest_opensWith (c := 'f') (by decide) (by decide) (by decide)
  common := by decide +kernel
  enumeration := opensWith_eq_false (by decide) (by decide)
  datatype name x _ := opensWith_datatype (by decide) name x
  world := by decide
  fact := opensWith_append "fact "
  function := opensWith_eq_false (by decide) (by decide)
  run := opensWith_eq_false (by decide) (by decide)

theorem picksOut_functions : PicksOut (opensWith "fun ") false false false false true where
  toIsMarginTest := isMarginTest_opensWith (c := 'f') (by decide) (by decide) (by decide)
  common := by decide +kernel
  enumeration := opensWith_eq_false (by decide) (by decide)
  datatype name x _ := opensWith_datatype (by decide) name x
  world := by decide
  fact := opensWith_eq_false (by decide) (by decide)
  function := opensWith_append "fun "
  run := opensWith_eq_false (by decide) (by decide)

/-- Paragraphs with one announcement count as the test counts it. -/
theorem PicksOut.countP_announced {test : String → Bool} {e d v f g b : Bool}
    (htest : PicksOut test e d v f g) {w : String} (hw : ∀ x, test (w ++ x) = b) {ps : List String}
    (h : ∀ p ∈ ps, Announces w p) :
    ((spaced ps).flatMap linesOf).countP test = if b then ps.length else 0 := by
  refine countP_spaced htest.toIsMarginTest ?_
  intro p hp
  obtain ⟨x, hx⟩ := h p hp
  exact ⟨w ++ x, hx, hw x⟩

/-- A run command is one line, and starts with `run`. -/
theorem runCommands_eq (o : RunScope) :
    ∀ c ∈ runCommands o, OneLine c ∧ ∃ x, c = "run " ++ x := by
  have hpieces : OneLine "run singleWorld for " ∧ OneLine " but 1 World, " ∧ OneLine " Int" ∧
      OneLine "run linearWorlds for " ∧ OneLine " but 0 BranchingWorld, " ∧
      OneLine "run multipleWorlds for " ∧ OneLine " but " ∧ OneLine " World, " := by
    decide
  have hrun (x y : String) (h : "run " ++ x = y) (z : String) : ∃ x, y ++ z = "run " ++ x :=
    ⟨x ++ z, by rw [← h, String.append_assoc]⟩
  -- each command is made of fixed pieces and of numerals
  intro c hc
  simp only [runCommands, List.mem_cons, List.not_mem_nil, or_false] at hc
  rcases hc with rfl | rfl | rfl
  · refine ⟨by simp only [oneLine_append, oneLine_toString, hpieces, and_self], ?_⟩
    simp only [String.append_assoc]
    exact hrun "singleWorld for " _ rfl _
  · refine ⟨by simp only [oneLine_append, oneLine_toString, hpieces, and_self], ?_⟩
    simp only [String.append_assoc]
    exact hrun "linearWorlds for " _ rfl _
  · refine ⟨by simp only [oneLine_append, oneLine_toString, hpieces, and_self], ?_⟩
    simp only [String.append_assoc]
    exact hrun "multipleWorlds for " _ rfl _

/-- No test counts a run command, or the empty line at the end. -/
theorem PicksOut.countP_runCommands {test : String → Bool} {e d v f g : Bool}
    (htest : PicksOut test e d v f g) (o : RunScope) :
    (runCommands o ++ [""]).countP test = 0 := by
  rw [List.countP_eq_zero]
  intro l hl
  rw [Bool.not_eq_true]
  rcases List.mem_append.mp hl with hl | hl
  · obtain ⟨-, x, rfl⟩ := runCommands_eq o l hl
    exact htest.run x
  · rw [List.mem_singleton.mp hl]
    exact htest.blank

namespace Sections

/-! ### The parts of a module -/

/-- The paragraphs of enumerations and datatypes. -/
def valueParagraphs (s : Sections) : List String :=
  s.enumerations.map Enumeration.text ++ s.declaredDatatypes.map Datatype.text

/-- The signature of worlds. -/
def worldParagraph (s : Sections) : String :=
  worldSignature (s.worldFields.map WorldField.text) (s.coverings.map Covering.text)

/-- The facts: the one about existence, those of the model, and the one about relations. -/
def factParagraphs (s : Sections) : List String :=
  existenceFact :: s.facts.map Fact.text
    ++ immutabilityFact (s.immutabilities.map Immutability.text)

/-- The functions: the accessors and the one that a visualization shows. -/
def functionParagraphs (s : Sections) : List String :=
  s.accessors.map Accessor.text ++ [visibleFunction (s.selectors.map Selector.text)]

/-- The lines of a module, part by part. -/
theorem linesOf_text (s : Sections) (o : RunScope) :
    linesOf (s.text o) = commonEntries ++ (spaced s.valueParagraphs).flatMap linesOf
      ++ (linesOf s.worldParagraph ++ [""]) ++ (spaced s.factParagraphs).flatMap linesOf
      ++ (spaced s.functionParagraphs).flatMap linesOf ++ (runCommands o ++ [""]) := by
  -- what every module starts with, and the run commands, are lines already
  have hparagraphs : s.paragraphs = baseSignatures ++ s.valueParagraphs ++ [s.worldParagraph]
      ++ s.factParagraphs ++ s.functionParagraphs := by
    simp [paragraphs, valueParagraphs, worldParagraph, factParagraphs, functionParagraphs]
  have hworld : (spaced [s.worldParagraph]).flatMap linesOf = linesOf s.worldParagraph ++ [""] := by
    simp [spaced, linesOf_of_oneLine (by decide : OneLine "")]
  have hcommon := flatMap_linesOf_commonEntries
  rw [commonEntries, List.flatMap_append] at hcommon
  -- the paragraphs are broken part by part
  rw [text_eq, linesOf_terminated, hparagraphs]
  simp only [spaced_append, List.flatMap_append, hworld,
    flatMap_linesOf fun c hc => (runCommands_eq o c hc).1]
  simp only [← List.append_assoc, hcommon, commonEntries]

/-! ### Counting part by part -/

variable {s : Sections} {test : String → Bool} {e d v f g : Bool}

/-- Of the value types, the test counts the enumerations and the datatypes that it picks out. -/
theorem countP_valueParagraphs (hs : s.IsLined) (htest : PicksOut test e d v f g) :
    ((spaced s.valueParagraphs).flatMap linesOf).countP test
      = (if e then s.enumerations.length else 0)
        + (if d then s.declaredDatatypes.length else 0) := by
  have henumerations : ∀ p ∈ s.enumerations.map Enumeration.text, Announces "enum " p := by
    intro p hp
    obtain ⟨enumeration, henumeration, rfl⟩ := List.mem_map.mp hp
    exact announces_enumeration (hs.enumerations enumeration henumeration)
  have hdatatypes : ∀ p ∈ s.declaredDatatypes.map Datatype.text,
      ∃ first, Heads first p ∧ test first = d := by
    intro p hp
    obtain ⟨datatype, hdatatype, rfl⟩ := List.mem_map.mp hp
    have hlined := hs.datatypes datatype (List.mem_of_mem_filter hdatatype)
    obtain ⟨x, hx⟩ := heads_datatype hlined
    exact ⟨_, hx, htest.datatype _ x hlined.1⟩
  rw [valueParagraphs, spaced_append, List.flatMap_append, List.countP_append,
    htest.countP_announced htest.enumeration henumerations,
    countP_spaced htest.toIsMarginTest hdatatypes, List.length_map, List.length_map]

/-- The signature of worlds: its fields, between its first line and a brace. -/
theorem linesOf_worldParagraph (hs : s.IsLined) :
    ∃ closing inner, linesOf s.worldParagraph = worldLine ::
        (fieldLines ("exists: some Endurant" :: s.worldFields.map WorldField.text)
          ++ ("\x7d" ++ closing) :: inner) ∧ ∀ l ∈ inner, IsInner l := by
  have hfields : ∀ w ∈ s.worldFields.map WorldField.text, OneLine w := by
    simpa only [List.forall_mem_map] using hs.worldFields
  have hcoverings : ∀ w ∈ s.coverings.map Covering.text, OneLine w := by
    simpa only [List.forall_mem_map] using hs.coverings
  exact linesOf_worldSignature hfields hcoverings

/-- The signature of worlds counts once or not at all, by its first line. -/
theorem countP_worldParagraph (hs : s.IsLined) (htest : PicksOut test e d v f g) :
    (linesOf s.worldParagraph ++ [""]).countP test = if v then 1 else 0 := by
  obtain ⟨closing, inner, hlines, hinner⟩ := linesOf_worldParagraph hs
  have hrest : (fieldLines ("exists: some Endurant" :: s.worldFields.map WorldField.text)
      ++ ("\x7d" ++ closing) :: inner ++ [""]).countP test = 0 := by
    rw [List.countP_eq_zero]
    intro l hl
    rw [Bool.not_eq_true]
    simp only [List.mem_append, List.mem_cons, List.not_mem_nil, or_false] at hl
    rcases hl with (hl | rfl | hl) | rfl
    · exact htest.inner l (isInner_fieldLines _ l hl)
    · exact htest.inner _ (Or.inr (by simp))
    · exact htest.inner l (hinner l hl)
    · exact htest.blank
  rw [hlines, List.cons_append, List.countP_cons, hrest, htest.world, Nat.zero_add]

/-- There is one fact about immutable relations, or none if there are none. -/
theorem length_immutabilityFact {lines : List String} :
    (immutabilityFact lines).length = if lines.isEmpty then 0 else 1 := by
  unfold immutabilityFact
  split <;> rfl

/-- Of the facts, the test counts all or none. -/
theorem countP_factParagraphs (hs : s.IsLined) (htest : PicksOut test e d v f g) :
    ((spaced s.factParagraphs).flatMap linesOf).countP test
      = if f then s.facts.length + 1 + (if s.immutabilities.isEmpty then 0 else 1) else 0 := by
  have hannounced : ∀ p ∈ s.factParagraphs, Announces "fact " p := by
    intro p hp
    rcases List.mem_append.mp hp with hp | hp
    · rcases List.mem_cons.mp hp with rfl | hp
      · exact announces_existenceFact
      · obtain ⟨fact, hfact, rfl⟩ := List.mem_map.mp hp
        exact announces_fact (hs.facts fact hfact)
    · refine announces_immutabilityFact ?_ p hp
      simpa only [List.forall_mem_map] using hs.immutabilities
  rw [htest.countP_announced htest.fact hannounced, factParagraphs, List.length_append,
    List.length_cons, List.length_map, length_immutabilityFact, List.isEmpty_map]

/-- Of the functions, the test counts all or none. -/
theorem countP_functionParagraphs (hs : s.IsLined) (htest : PicksOut test e d v f g) :
    ((spaced s.functionParagraphs).flatMap linesOf).countP test
      = if g then s.accessors.length + 1 else 0 := by
  have hannounced : ∀ p ∈ s.functionParagraphs, Announces "fun " p := by
    intro p hp
    rcases List.mem_append.mp hp with hp | hp
    · obtain ⟨accessor, haccessor, rfl⟩ := List.mem_map.mp hp
      obtain ⟨hname, hdomain, hrange, hbody⟩ := hs.accessors accessor haccessor
      exact announces_accessor hname hdomain hrange hbody
    · rw [List.mem_singleton.mp hp]
      refine announces_visibleFunction ?_
      simpa only [List.forall_mem_map] using hs.selectors
  rw [htest.countP_announced htest.function hannounced, functionParagraphs, List.length_append,
    List.length_map, List.length_singleton]

/-- **A module says what it declares**: the lines that a test picks out are as many as the
declarations of the kinds it picks out. -/
theorem countP_text (hs : s.IsLined) (htest : PicksOut test e d v f g) (o : RunScope) :
    (linesOf (s.text o)).countP test
      = (if e then s.enumerations.length else 0) + (if d then s.declaredDatatypes.length else 0)
        + (if v then 1 else 0)
        + (if f then s.facts.length + 1 + (if s.immutabilities.isEmpty then 0 else 1) else 0)
        + (if g then s.accessors.length + 1 else 0) := by
  rw [linesOf_text, List.countP_append, List.countP_append, List.countP_append, List.countP_append,
    List.countP_append, htest.common, countP_valueParagraphs hs htest,
    countP_worldParagraph hs htest, countP_factParagraphs hs htest,
    countP_functionParagraphs hs htest, htest.countP_runCommands o, Nat.zero_add, Nat.add_zero]

end Sections

/-! ## The signature of worlds -/

/-- The lines behind the first line of the signature of worlds, up to one that closes a brace. -/
def worldBlock (lines : List String) : List String :=
  ((lines.dropWhile (· != worldLine)).drop 1).takeWhile fun l => !opensWith "\x7d" l

/-- The block is found between the first line and the brace, whatever stands before and after. -/
theorem worldBlock_eq {before fields : List String} (hbefore : ∀ l ∈ before, l ≠ worldLine)
    (hfields : ∀ l ∈ fields, opensWith "\x7d" l = false) (closing : String) (after : List String) :
    worldBlock (before ++ worldLine :: (fields ++ ("\x7d" ++ closing) :: after)) = fields := by
  -- what is in front is dropped, and the brace ends what is taken
  have hdrop : (before ++ worldLine :: (fields ++ ("\x7d" ++ closing) :: after)).dropWhile
      (· != worldLine) = worldLine :: (fields ++ ("\x7d" ++ closing) :: after) := by
    rw [List.dropWhile_append_of_pos (by simpa using hbefore),
      List.dropWhile_cons_of_neg (by simp)]
  have hclose : (!opensWith "\x7d" ("\x7d" ++ closing)) = false := by
    rw [opensWith_append, Bool.not_true]
  rw [worldBlock, hdrop, List.drop_one, List.tail_cons,
    List.takeWhile_append_of_pos (by simpa using hfields),
    List.takeWhile_cons_of_neg (by rw [hclose]; exact Bool.false_ne_true), List.append_nil]

/-- No field line closes a brace, as all are indented. -/
theorem opensWith_brace_fieldLines (fs : List String) :
    ∀ l ∈ fieldLines fs, opensWith "\x7d" l = false := by
  have hindent (x : String) : opensWith "\x7d" (indent ++ x) = false :=
    opensWith_eq_false (by decide) (by decide) x
  fun_induction fieldLines fs with
  | case1 => exact fun _ h => absurd h List.not_mem_nil
  | case2 f =>
    intro l hl
    rw [List.mem_singleton.mp hl]
    exact hindent f
  | case3 f fs _ ih =>
    intro l hl
    rcases List.mem_cons.mp hl with rfl | hl
    · rw [String.append_assoc]
      exact hindent _
    · exact ih l hl

namespace Sections

variable {s : Sections}

/-- No line in front of the signature of worlds looks like its first line. -/
theorem ne_worldLine_of_mem_front (hs : s.IsLined) {l : String}
    (hl : l ∈ commonEntries ++ (spaced s.valueParagraphs).flatMap linesOf) : l ≠ worldLine := by
  rintro rfl
  -- by its count, no line in front passes the test for the signature of worlds
  have hcount : (commonEntries ++ (spaced s.valueParagraphs).flatMap linesOf).countP
      (opensWith worldLine) = 0 := by
    rw [List.countP_append, picksOut_worlds.common, countP_valueParagraphs hs picksOut_worlds]
    rfl
  exact List.countP_eq_zero.mp hcount _ hl (opensWith_append worldLine "")

/-- **The signature of worlds**: its block holds a line for the existing individuals and one for
each world field. -/
theorem worldBlock_text (hs : s.IsLined) (o : RunScope) :
    worldBlock (linesOf (s.text o))
      = fieldLines ("exists: some Endurant" :: s.worldFields.map WorldField.text) := by
  obtain ⟨closing, inner, hlines, -⟩ := linesOf_worldParagraph hs
  rw [linesOf_text, hlines]
  have hbefore : ∀ l ∈ commonEntries ++ (spaced s.valueParagraphs).flatMap linesOf,
      l ≠ worldLine := fun l hl => ne_worldLine_of_mem_front hs hl
  have hblock := worldBlock_eq hbefore (opensWith_brace_fieldLines
    ("exists: some Endurant" :: s.worldFields.map WorldField.text)) closing
  simp only [List.append_assoc, List.cons_append] at hblock ⊢
  exact hblock _

/-- A module ends in one line feed. -/
theorem exists_text_eq (s : Sections) (o : RunScope) :
    ∃ front, Sheet.EndsVisibly front ∧ s.text o = front ++ "\n" := by
  -- the last run command ends visibly, and a line feed follows it
  obtain ⟨es, e, hrun, he⟩ := endsVisibly_runCommands o
  refine ⟨terminated (headEntries ++ spaced s.paragraphs ++ es) ++ e, he.append _, ?_⟩
  rw [text_eq, hrun, ← List.append_assoc, terminated_append, String.append_assoc]
  simp [terminated]

end Sections

end OntoWorlds.Alloy
