import OntoWorlds.Json.Number

/-!
# OntoWorlds — JSON tokens

The text of a document as a list of tokens, up to the first place where it stops being JSON. That
place is the last token, `broken`.

A reader meets some values only to skip them, and skipping is more lenient than reading in two
ways: a string with an unpaired surrogate is passed over (`text none`), and so is a number of any
size. It is also stricter about where the text ends: a number that is cut short is unfinished to a
reader but malformed to one who skips it. A broken token says how it fails either way.
-/

namespace OntoWorlds.Json

/-- How a text fails to be JSON: it ends too early, or it goes wrong before. -/
inductive Fault
  | unfinished | malformed
deriving DecidableEq, Repr, Inhabited

/-- What a broken token began as. -/
inductive Lead
  | nullWord | quote | other
deriving DecidableEq, Repr, Inhabited

/-- The parts a text is cut into. -/
inductive Token
  | openBrace | closeBrace | openBracket | closeBracket | colon | comma
  | null
  | bool (b : Bool)
  | number (n : Number)
  /-- A string; none if it holds an unpaired surrogate. -/
  | text (s : Option String)
  | broken (lead : Lead) (onRead onSkip : Fault)
deriving DecidableEq, Repr, Inhabited

/-- A token that is malformed for every reader. -/
def Token.misplaced : Token := .broken .other .malformed .malformed

/-! ## Strings -/

/-- A piece of a string: a character, or an escaped half of a surrogate pair. -/
inductive Piece
  | char (c : Char)
  | half (code : Nat)
deriving DecidableEq, Repr, Inhabited

namespace Piece

/-- The code is the first half of a surrogate pair. -/
def isLead (code : Nat) : Bool := 0xD800 ≤ code && code ≤ 0xDBFF

/-- The code is the second half of a surrogate pair. -/
def isTrail (code : Nat) : Bool := 0xDC00 ≤ code && code ≤ 0xDFFF

/-- The piece that a four-digit escape stands for. -/
def ofCode (code : Nat) : Piece :=
  if isLead code || isTrail code then .half code else .char (Char.ofNat code)

/-- The character of a surrogate pair. -/
def pair (lead trail : Nat) : Char :=
  Char.ofNat (0x10000 + (lead - 0xD800) * 0x400 + (trail - 0xDC00))

/-- The characters of the pieces, if every half is part of a pair. -/
def join : List Piece → Option (List Char)
  | [] => some []
  | .char c :: rest => (join rest).map (c :: ·)
  | .half lead :: .half trail :: rest =>
    if isLead lead && isTrail trail then (join rest).map (pair lead trail :: ·) else none
  | .half _ :: _ => none

/-- The pieces without a leading half at their end, which may still be waiting for its pair. -/
def dropWaiting (pieces : List Piece) : List Piece :=
  match pieces.getLast? with
  | some (.half code) => if isLead code then pieces.dropLast else pieces
  | _ => pieces

end Piece

/-- The value of a hexadecimal digit of either case. -/
def hexDigit? (c : Char) : Option Nat :=
  if '0' ≤ c && c ≤ '9' then some (c.toNat - '0'.toNat)
  else if 'a' ≤ c && c ≤ 'f' then some (c.toNat - 'a'.toNat + 10)
  else if 'A' ≤ c && c ≤ 'F' then some (c.toNat - 'A'.toNat + 10)
  else none

/-- The value of four hexadecimal digits. -/
def hexCode? (a b c d : Char) : Option Nat := do
  return (((← hexDigit? a) * 16 + (← hexDigit? b)) * 16 + (← hexDigit? c)) * 16 + (← hexDigit? d)

/-- The character behind a backslash, other than `u`. -/
def escaped? (c : Char) : Option Char :=
  match c with
  | '"' => some '"'
  | '\\' => some '\\'
  | '/' => some '/'
  | 'b' => some '\x08'
  | 'f' => some '\x0c'
  | 'n' => some '\n'
  | 'r' => some '\r'
  | 't' => some '\t'
  | _ => none

/-- What follows an opening quote: the pieces, and then the text behind the closing quote or the
fault that comes before it. -/
structure StringScan where
  pieces : List Piece
  rest : Except Fault (List Char)

namespace StringScan

/-- A scan that ends at a fault. -/
def stop (f : Fault) : StringScan := ⟨[], .error f⟩

/-- A scan with one more piece in front. -/
def push (p : Piece) (s : StringScan) : StringScan := ⟨p :: s.pieces, s.rest⟩

end StringScan

/-- Fewer than four characters behind `u` are too few digits, unless they take four bytes. -/
def shortEscapeFault (cs : List Char) : Fault :=
  if (String.ofList cs).utf8ByteSize < 4 then .unfinished else .malformed

/-- Scans a string after its opening quotation mark, up to the closing one or a fault. -/
def scanString : List Char → StringScan
  | [] => .stop .unfinished
  | c :: cs =>
    if c = '"' then ⟨[], .ok cs⟩
    else if c = '\\' then
      match cs with
      | [] => .stop .unfinished
      | e :: cs =>
        if e = 'u' then
          match cs with
          | h₁ :: h₂ :: h₃ :: h₄ :: cs =>
            match hexCode? h₁ h₂ h₃ h₄ with
            | some code => (scanString cs).push (.ofCode code)
            | none => .stop .malformed
          | cs => .stop (shortEscapeFault cs)
        else
          match escaped? e with
          | some c => (scanString cs).push (.char c)
          | none => .stop .malformed
    else if c.toNat < 32 then .stop .malformed
    else (scanString cs).push (.char c)

/-- The token of a string and the text behind it. -/
def StringScan.token (s : StringScan) : Token × List Char :=
  match s.rest with
  | .ok rest => (.text ((Piece.join s.pieces).map String.ofList), rest)
  | .error f =>
    let onRead := if (Piece.join (Piece.dropWaiting s.pieces)).isNone then .malformed else f
    (.broken .quote onRead f, [])

/-! ## Numbers -/

/-- A number that is cut short, or malformed if text follows. -/
def numberBroken (rest : List Char) : Token × List Char :=
  (.broken .other (if rest.isEmpty then .unfinished else .malformed) .malformed, [])

/-- The exponent part, behind the sign and all before it. -/
def lexExponent (n : Number) (negative : Bool) (cs : List Char) : Token × List Char :=
  let digits := cs.takeWhile Char.isDigit
  let rest := cs.dropWhile Char.isDigit
  if digits.isEmpty then numberBroken rest
  else
    let e : Int := Nat.ofDigitChars 10 digits 0
    (.number { n with exponent := some (if negative then -e else e) }, rest)

/-- Reads the exponent of a number, if there is one. -/
def lexExponentMark (n : Number) : List Char → Token × List Char
  | c :: cs =>
    if c == 'e' || c == 'E' then
      match cs with
      | '+' :: cs => lexExponent n false cs
      | '-' :: cs => lexExponent n true cs
      | cs => lexExponent n false cs
    else (.number n, c :: cs)
  | [] => (.number n, [])

/-- Reads the fraction and exponent of a number, as far as there are any. -/
def lexFraction (n : Number) : List Char → Token × List Char
  | '.' :: cs =>
    let digits := cs.takeWhile Char.isDigit
    let rest := cs.dropWhile Char.isDigit
    if digits.isEmpty then numberBroken rest
    else lexExponentMark { n with fraction := digits } rest
  | cs => lexExponentMark n cs

/-- A number behind its sign: a zero is followed by no digit. -/
def lexNumber (negative : Bool) (cs : List Char) : Token × List Char :=
  let digits := cs.takeWhile Char.isDigit
  let rest := cs.dropWhile Char.isDigit
  match digits with
  | [] => numberBroken rest
  | '0' :: _ :: _ => (.misplaced, [])
  | digits => lexFraction ⟨negative, digits, [], none⟩ rest

/-! ## All tokens -/

/-- A word that is to be spelled out in full. -/
def lexWord (t : Token) (lead : Lead) : (spelling : List Char) → List Char → Token × List Char
  | [], cs => (t, cs)
  | _ :: _, [] => (.broken lead .unfinished .unfinished, [])
  | w :: ws, c :: cs =>
    if c == w then lexWord t lead ws cs else (.broken lead .malformed .malformed, [])

/-- The blanks between tokens. -/
def isLayout (c : Char) : Bool := c == ' ' || c == '\t' || c == '\n' || c == '\r'

/-- The token that starts with a character. -/
def lexToken (c : Char) (cs : List Char) : Token × List Char :=
  match c with
  | '\x7b' => (.openBrace, cs)
  | '\x7d' => (.closeBrace, cs)
  | '[' => (.openBracket, cs)
  | ']' => (.closeBracket, cs)
  | ':' => (.colon, cs)
  | ',' => (.comma, cs)
  | '"' => (scanString cs).token
  | 'n' => lexWord .null .nullWord "ull".toList cs
  | 't' => lexWord (.bool true) .other "rue".toList cs
  | 'f' => lexWord (.bool false) .other "alse".toList cs
  | '-' => lexNumber true cs
  | c => if c.isDigit then lexNumber false (c :: cs) else (.misplaced, [])

/-- The tokens of a text of at most `size` characters. -/
def tokensWithin : (size : Nat) → List Char → List Token
  | 0, _ => []
  | _ + 1, [] => []
  | size + 1, c :: cs =>
    if isLayout c then tokensWithin size cs
    else
      let (t, rest) := lexToken c cs
      t :: tokensWithin size rest

/-- The tokens of a text. -/
def tokens (text : String) : List Token := tokensWithin text.toList.length text.toList

end OntoWorlds.Json
