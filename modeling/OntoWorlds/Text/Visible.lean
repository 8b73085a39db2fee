import OntoWorlds.Text.Hidden

/-!
# OntoWorlds — visible text

Text in double quotes, written so that every character can be seen: hidden characters are given by
code point, a few of them by a letter.
-/

namespace OntoWorlds.Text

/-- A character inside a quoted string. -/
def visibleChar (c : Char) : String :=
  match c with
  | '\x00' => "\\0"
  | '\t' => "\\t"
  | '\n' => "\\n"
  | '\r' => "\\r"
  | '"' => "\\\""
  | '\\' => "\\\\"
  | c =>
    if isHidden c then "\\u\x7b" ++ String.ofList (Nat.toDigits 16 c.toNat) ++ "\x7d"
    else String.singleton c

/-- The characters of a quoted string. -/
def visibleAll : List Char → String
  | [] => ""
  | c :: cs => visibleChar c ++ visibleAll cs

/-- The string in quotes. -/
def visible (s : String) : String := "\"" ++ visibleAll s.toList ++ "\""

end OntoWorlds.Text
