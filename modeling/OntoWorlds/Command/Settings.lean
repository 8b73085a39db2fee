import OntoWorlds.RunScope
import OntoWorlds.Text.Numeral

/-!
# OntoWorlds — settings files

A settings file gives run scopes in TOML. Only three keys are known and each takes a whole number,
so a file is a list of lines, each of them blank, a comment, or `key = number` with an optional
comment; a key may be quoted, a number may be hexadecimal, octal or binary and have underscores
between its digits.

* `Settings.parse` reads a file; none if it has any other line, a key twice or a number out of
  range.
-/

namespace OntoWorlds

/-- The settings a file may give. -/
inductive Setting
  | scope | intBitwidth | worlds
deriving DecidableEq, Repr

namespace Setting

/-- The key of the setting. -/
def key : Setting → String
  | scope => "scope"
  | intBitwidth => "intBitwidth"
  | worlds => "worlds"

/-- The setting with the key. -/
def ofKey? (k : String) : Option Setting := [scope, intBitwidth, worlds].find? (·.key == k)

/-- The options with the setting at a value. -/
def set (n : Nat) (o : RunScope) : Setting → RunScope
  | scope => { o with scope := n }
  | intBitwidth => { o with intBitwidth := n }
  | worlds => { o with worlds := n }

end Setting

namespace Settings

/-! ## Lines -/

/-- The lines of a text, ended by a line feed with or without a carriage return before it. -/
def splitLines : List Char → List (List Char)
  | [] => [[]]
  | '\r' :: '\n' :: cs => [] :: splitLines cs
  | '\n' :: cs => [] :: splitLines cs
  | c :: cs =>
    match splitLines cs with
    | l :: ls => (c :: l) :: ls
    | [] => [[c]]

/-- A blank between the parts of a line. -/
def isGap (c : Char) : Bool := c == ' ' || c == '\t'

/-- The line from its first part on. -/
def dropGap (cs : List Char) : List Char := cs.dropWhile isGap

/-- A character that may stand in a comment or in quotes. -/
def isPlain (c : Char) : Bool := c == '\t' || (32 ≤ c.toNat && c.toNat != 127)

/-- Nothing but a gap and a comment. -/
def isRestBlank (cs : List Char) : Bool :=
  match dropGap cs with
  | [] => true
  | '#' :: cs => cs.all isPlain
  | _ => false

/-! ## Keys -/

/-- The value of a digit below the base. -/
def digitValue? (base : Nat) (c : Char) : Option Nat :=
  let value :=
    if '0' ≤ c && c ≤ '9' then some (c.toNat - '0'.toNat)
    else if 'a' ≤ c && c ≤ 'f' then some (c.toNat - 'a'.toNat + 10)
    else if 'A' ≤ c && c ≤ 'F' then some (c.toNat - 'A'.toNat + 10)
    else none
  value.filter (· < base)

/-- The value of digits, if there are any and all are digits of the base. -/
def readBase (base : Nat) : List Char → Option Nat
  | [] => none
  | cs => cs.foldl (fun n c => do return (← n) * base + (← digitValue? base c)) (some 0)

/-- A key in double quotes, behind the opening one; the escapes are those by code point. -/
def readQuoted : List Char → Option (List Char × List Char)
  | [] => none
  | c :: cs =>
    if c = '"' then some ([], cs)
    else if c = '\\' then
      match cs with
      | 'u' :: a :: b :: c :: d :: cs => do
        let code ← readBase 16 [a, b, c, d]
        let (key, rest) ← readQuoted cs
        return (Char.ofNat code :: key, rest)
      | 'U' :: a :: b :: c :: d :: e :: f :: g :: h :: cs => do
        let code ← readBase 16 [a, b, c, d, e, f, g, h]
        let (key, rest) ← readQuoted cs
        return (Char.ofNat code :: key, rest)
      | _ => none
    else if isPlain c then (readQuoted cs).map fun (key, rest) => (c :: key, rest)
    else none

/-- A key in single quotes, behind the opening one. -/
def readLiteral : List Char → Option (List Char × List Char)
  | [] => none
  | c :: cs =>
    if c = '\'' then some ([], cs)
    else if isPlain c then (readLiteral cs).map fun (key, rest) => (c :: key, rest)
    else none

/-- A character of a key without quotation marks. -/
def isKeyChar (c : Char) : Bool := c.isAlphanum || c == '_' || c == '-'

/-- Reads a key, bare or in quotation marks of either kind. -/
def readKey : List Char → Option (List Char × List Char)
  | '"' :: cs => readQuoted cs
  | '\'' :: cs => readLiteral cs
  | cs => some (cs.takeWhile isKeyChar, cs.dropWhile isKeyChar)

/-! ## Numbers -/

/-- The digits without the single underscores between them. -/
def dropUnderscores : List Char → Option (List Char)
  | [] => some []
  | '_' :: _ => none
  | c :: '_' :: d :: cs => if d == '_' then none else (dropUnderscores (d :: cs)).map (c :: ·)
  | [_, '_'] => none
  | c :: cs => (dropUnderscores cs).map (c :: ·)

/-- A decimal number has no leading zero. -/
def readDecimal : List Char → Option Nat
  | ['0'] => some 0
  | '0' :: _ => none
  | cs => (dropUnderscores cs).bind (readBase 10)

/-- Reads a number in one of its four bases. Only decimals have a sign, and a minus stands before
zero alone. -/
def readNumber : List Char → Option Nat
  | '0' :: 'x' :: cs => (dropUnderscores cs).bind (readBase 16)
  | '0' :: 'o' :: cs => (dropUnderscores cs).bind (readBase 8)
  | '0' :: 'b' :: cs => (dropUnderscores cs).bind (readBase 2)
  | '+' :: cs => readDecimal cs
  | '-' :: cs => (readDecimal cs).filter (· == 0)
  | cs => readDecimal cs

/-- What may follow a number on its line. -/
def isNumberEnd (c : Char) : Bool := isGap c || c == '#'

/-! ## Files -/

/-- The setting behind a gap, from its key on. -/
def readSetting (cs : List Char) : Option (Setting × Nat) := do
  let (key, rest) ← readKey cs
  let setting ← Setting.ofKey? (String.ofList key)
  match dropGap rest with
  | '=' :: rest =>
    let rest := dropGap rest
    let n ← readNumber (rest.takeWhile fun c => !isNumberEnd c)
    if n ≤ Text.maxWord && isRestBlank (rest.dropWhile fun c => !isNumberEnd c) then
      some (setting, n)
    else none
  | _ => none

/-- The settings of the lines, in order. -/
def readLines : List (List Char) → Option (List (Setting × Nat))
  | [] => some []
  | l :: ls =>
    if isRestBlank l then readLines ls
    else do
      let s ← readSetting (dropGap l)
      return s :: (← readLines ls)

/-- Changes run scopes by settings, none of which may be given twice. -/
def apply : List (Setting × Nat) → RunScope → Option RunScope
  | [], o => some o
  | (s, n) :: rest, o => if (rest.lookup s).isSome then none else apply rest (s.set n o)

/-- The text without a byte order mark. -/
def dropMark : List Char → List Char
  | '\uFEFF' :: cs => cs
  | cs => cs

/-- The options that the text of a settings file gives. -/
def parse (text : String) : Option RunScope := do
  apply (← readLines (splitLines (dropMark text.toList))) {}

end Settings

end OntoWorlds
