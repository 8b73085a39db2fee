import OntoWorlds.Alloy.Module

/-!
# OntoWorlds — the text of a module

The text of a module is written entry by entry: a head, the paragraphs of its sections with a blank
line after each, and the run commands. It ends in a run command, so nothing is dropped when the
sheet is finished, and every paragraph stands in the text as it is.

* `Sheet.finished_eq` — finishing a sheet that ends in a command keeps all entries.
* `Sections.text_eq` — the text as a list of entries.
* `Sections.text_eq_blocks` — the declared datatypes are printed one after another, between text
  that does not depend on them.
-/

namespace OntoWorlds.Alloy

/-! ## Finished sheets -/

namespace Sheet

/-- The entry says something up to its end. -/
def EndsVisibly (e : String) : Prop := ∃ front c, c ≠ '\n' ∧ e = front ++ String.singleton c

/-- More text in front changes nothing at the end. -/
theorem EndsVisibly.append {e : String} (h : EndsVisibly e) (front : String) :
    EndsVisibly (front ++ e) := by
  obtain ⟨rest, c, hc, rfl⟩ := h
  exact ⟨front ++ rest, c, hc, (String.append_assoc).symm⟩

/-- Such an entry is not empty. -/
theorem EndsVisibly.ne_empty {e : String} (h : EndsVisibly e) : e ≠ "" := by
  obtain ⟨front, c, -, rfl⟩ := h
  intro heq
  have hlength := congrArg (fun w => w.toList.length) heq
  simp at hlength

/-- It has no line feeds to be dropped. -/
theorem EndsVisibly.dropFeeds_eq {e : String} (h : EndsVisibly e) : dropFeeds e = e := by
  obtain ⟨front, c, hc, rfl⟩ := h
  have hlist : (front ++ String.singleton c).toList = front.toList ++ [c] := by
    simp
  rw [dropFeeds, hlist, List.reverse_append, List.reverse_singleton, List.singleton_append,
    List.dropWhile_cons_of_neg (by simpa using hc), List.reverse_cons, List.reverse_reverse,
    ← hlist, String.ofList_toList]

/-- A list of entries that ends in one keeps all of them. -/
theorem dropBlankEnd_eq {e : String} (h : EndsVisibly e) (es : List String) :
    dropBlankEnd (es ++ [e]) = es ++ [e] := by
  induction es with
  | nil => rw [List.nil_append, dropBlankEnd, h.dropFeeds_eq]
  | cons a es ih =>
    -- what is left is not the single empty entry that gets dropped
    have hrest : (es ++ [e] == [""]) = false := by
      cases es with
      | nil => simpa using h.ne_empty
      | cons b es => cases es <;> simp
    obtain ⟨b, bs, hcons⟩ : ∃ b bs, es ++ [e] = b :: bs :=
      List.exists_cons_of_ne_nil (List.append_ne_nil_of_right_ne_nil _ (List.cons_ne_nil _ _))
    rw [List.cons_append, hcons, dropBlankEnd, ← hcons, ih, hrest]
    · rfl
    · rw [← hcons]
      exact List.append_ne_nil_of_right_ne_nil _ (List.cons_ne_nil _ _)

/-- Nothing is dropped from a sheet whose last entry ends visibly. -/
theorem finished_eq {s : Sheet} {es : List String} {e : String} (hs : s.entries = es ++ [e])
    (h : EndsVisibly e) : s.finished = s.text := by
  rw [finished, Sheet.text, hs, dropBlankEnd_eq h]

/-! ## Entries -/

/-- Lines are appended to the entries. -/
theorem entries_foldl_line (s : Sheet) (ls : List String) :
    (ls.foldl line s).entries = s.entries ++ ls := by
  induction ls generalizing s with
  | nil => rw [List.foldl_nil, List.append_nil]
  | cons l ls ih => rw [List.foldl_cons, ih, line, List.append_assoc, List.singleton_append]

/-- So are paragraphs, each with a blank line after it. -/
theorem entries_foldl_paragraph (s : Sheet) (ps : List String) :
    (ps.foldl paragraph s).entries = s.entries ++ ps.flatMap fun p => [p, ""] := by
  induction ps generalizing s with
  | nil => rw [List.foldl_nil, List.flatMap_nil, List.append_nil]
  | cons p ps ih =>
    rw [List.foldl_cons, ih, paragraph, blank, line, line, List.append_assoc, List.append_assoc,
      List.flatMap_cons]
    rfl

end Sheet

/-! ## The entries of a module -/

/-- Paragraphs, each with a blank line after it. -/
def spaced (ps : List String) : List String := ps.flatMap fun p => [p, ""]

/-- Two lists of paragraphs are spaced one after the other. -/
theorem spaced_append (ps qs : List String) : spaced (ps ++ qs) = spaced ps ++ spaced qs :=
  List.flatMap_append

/-- What every module opens with. -/
def headEntries : List String := ["module main", ""] ++ openings ++ [""]

/-- The last run command ends in a word. -/
theorem endsVisibly_runCommands (o : RunScope) :
    ∃ es e, runCommands o = es ++ [e] ∧ Sheet.EndsVisibly e :=
  ⟨_, _, (List.dropLast_concat_getLast (by simp [runCommands])).symm,
    (show Sheet.EndsVisibly " Int" from ⟨" In", 't', by decide, by decide⟩).append _⟩

namespace Sections

/-- **The text of a module**: its head, its paragraphs and the run commands. -/
theorem text_eq (s : Sections) (o : RunScope) :
    s.text o = terminated (headEntries ++ spaced s.paragraphs ++ runCommands o) := by
  -- the sheet is filled part by part, in the order of the entries
  have hentries : (s.sheet o).entries = headEntries ++ spaced s.paragraphs ++ runCommands o := by
    rw [sheet, Sheet.entries_foldl_line, Sheet.entries_foldl_paragraph, Sheet.blank, Sheet.line,
      Sheet.entries_foldl_line]
    rfl
  obtain ⟨es, e, hrun, he⟩ := endsVisibly_runCommands o
  -- its last entry is a run command, which ends visibly
  have hlast : (s.sheet o).entries = headEntries ++ spaced s.paragraphs ++ es ++ [e] := by
    rw [hentries, hrun, List.append_assoc, List.append_assoc, List.append_assoc]
  rw [text, Sheet.finished_eq hlast he, Sheet.text, hentries]

/-- The text in front of the datatypes. -/
def textBefore (s : Sections) : String :=
  terminated (headEntries ++ spaced (baseSignatures ++ s.enumerations.map Enumeration.text))

/-- The text behind the datatypes. -/
def textAfter (s : Sections) (o : RunScope) : String :=
  terminated (spaced
    ([worldSignature (s.worldFields.map WorldField.text) (s.coverings.map Covering.text),
        existenceFact]
      ++ s.facts.map Fact.text
      ++ immutabilityFact (s.immutabilities.map Immutability.text)
      ++ s.accessors.map Accessor.text
      ++ [visibleFunction (s.selectors.map Selector.text)])
    ++ runCommands o)

/-- The declared datatypes are printed in one piece, signature by signature. -/
theorem text_eq_blocks (s : Sections) (o : RunScope) :
    s.text o = s.textBefore ++ terminated (spaced (s.declaredDatatypes.map Datatype.text))
      ++ s.textAfter o := by
  rw [text_eq, textBefore, textAfter, ← terminated_append, ← terminated_append, paragraphs]
  simp only [spaced_append, List.append_assoc]

end Sections

end OntoWorlds.Alloy
