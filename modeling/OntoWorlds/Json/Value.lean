/-!
# OntoWorlds — writing JSON

The values that documents are written from, and their text: two spaces of indentation for each
level, one line for each item or member, and nothing inside an empty array or object. In a string
only the quote, the backslash and the control characters below U+0020 are escaped.
-/

namespace OntoWorlds.Json

mutual

/-- A document to be written. -/
inductive Value
  | null
  | bool (b : Bool)
  | number (n : Nat)
  | text (s : String)
  | array (items : Values)
  | object (entries : Entries)

/-- The items of an array. -/
inductive Values
  | nil
  | cons (v : Value) (rest : Values)

/-- The entries of an object, with their keys in order. -/
inductive Entries
  | nil
  | cons (key : String) (v : Value) (rest : Entries)

end

/-- The items, from a list. -/
def Values.ofList : List Value → Values
  | [] => .nil
  | v :: vs => .cons v (ofList vs)

/-- The entries, from a list. -/
def Entries.ofList : List (String × Value) → Entries
  | [] => .nil
  | (k, v) :: es => .cons k v (ofList es)

/-- The hexadecimal digit of a number below 16. -/
def hexDigit (n : Nat) : Char := (Nat.toDigits 16 n).headD '0'

/-- The written form of a character of a string. -/
def escape (c : Char) : String :=
  match c with
  | '"' => "\\\""
  | '\\' => "\\\\"
  | '\x08' => "\\b"
  | '\t' => "\\t"
  | '\n' => "\\n"
  | '\x0c' => "\\f"
  | '\r' => "\\r"
  | c =>
    if c.toNat < 32 then
      "\\u00" ++ String.ofList [hexDigit (c.toNat / 16), hexDigit (c.toNat % 16)]
    else String.singleton c

/-- The characters of a string, each escaped where it has to be. -/
def escapeAll : List Char → String
  | [] => ""
  | c :: cs => escape c ++ escapeAll cs

/-- The string in quotation marks. -/
def quoted (s : String) : String := "\"" ++ escapeAll s.toList ++ "\""

/-- A line feed and the indentation of a level. -/
def newline (level : Nat) : String :=
  "\n" ++ String.ofList (List.replicate (2 * level) ' ')

mutual

/-- The text of a value whose first line is indented already. -/
def Value.written (level : Nat) : Value → String
  | .null => "null"
  | .bool b => if b then "true" else "false"
  | .number n => toString n
  | .text s => quoted s
  | .array .nil => "[]"
  | .array (.cons v rest) =>
    "[" ++ newline (level + 1) ++ v.written (level + 1) ++ rest.written level ++ "]"
  | .object .nil => "\x7b\x7d"
  | .object (.cons k v rest) =>
    "\x7b" ++ newline (level + 1) ++ quoted k ++ ": " ++ v.written (level + 1) ++ rest.written level
      ++ "\x7d"

/-- The items behind the first, and the line break before the closing bracket. -/
def Values.written (level : Nat) : Values → String
  | .nil => newline level
  | .cons v rest => "," ++ newline (level + 1) ++ v.written (level + 1) ++ rest.written level

/-- The members behind the first, and the line break before the closing brace. -/
def Entries.written (level : Nat) : Entries → String
  | .nil => newline level
  | .cons k v rest =>
    "," ++ newline (level + 1) ++ quoted k ++ ": " ++ v.written (level + 1) ++ rest.written level

end

/-- The text of a whole document. -/
def Value.document (v : Value) : String := v.written 0

end OntoWorlds.Json
