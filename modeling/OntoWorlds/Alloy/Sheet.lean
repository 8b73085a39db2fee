/-!
# OntoWorlds — laying out module text

How text is arranged on the page: a block is a header with indented lines in braces, and a sheet
is a list of entries, each ended by a line feed. A finished sheet ends in exactly one line feed
wherever it ended in several.
-/

namespace OntoWorlds.Alloy

/-- The indentation of the lines in a block. -/
def indent : String := "        "

/-- The entries with a line feed after each. -/
def terminated : List String → String
  | [] => ""
  | l :: ls => l ++ "\n" ++ terminated ls

/-- Entries can be laid out in two portions. -/
theorem terminated_append (ls ms : List String) :
    terminated (ls ++ ms) = terminated ls ++ terminated ms := by
  induction ls with
  | nil => simp [terminated]
  | cons l ls ih => simp [terminated, ih, String.append_assoc]

/-- A header and its indented lines in braces; without lines the braces stand on the header. -/
def block (header : String) (lines : List String) : String :=
  if lines.isEmpty then header ++ " \x7b\x7d"
  else header ++ " \x7b\n" ++ terminated (lines.map (indent ++ ·)) ++ "\x7d"

/-- Text under construction: entries of one or more lines. -/
structure Sheet where
  entries : List String
deriving DecidableEq, Repr

namespace Sheet

/-- A sheet that opens a module. -/
def start (name : String) : Sheet := ⟨["module " ++ name, ""]⟩

/-- Adds an entry. -/
def line (s : Sheet) (text : String) : Sheet := ⟨s.entries ++ [text]⟩

/-- Adds a blank entry. -/
def blank (s : Sheet) : Sheet := s.line ""

/-- An entry and a blank line to set it off from the next. -/
def paragraph (s : Sheet) (text : String) : Sheet := (s.line text).blank

/-- The text as it stands, with its blank entries. -/
def text (s : Sheet) : String := terminated s.entries

/-- The text without the line feeds at its end. -/
def dropFeeds (text : String) : String :=
  String.ofList (text.toList.reverse.dropWhile (· == '\n')).reverse

/-- The entries up to the last that is not blank, without the line feeds at the end of that one. -/
def dropBlankEnd : List String → List String
  | [] => []
  | [e] => [dropFeeds e]
  | e :: es =>
    let rest := dropBlankEnd es
    if rest == [""] then [dropFeeds e] else e :: rest

/-- The text without blank lines at its end. -/
def finished (s : Sheet) : String := terminated (dropBlankEnd s.entries)

end Sheet

end OntoWorlds.Alloy
