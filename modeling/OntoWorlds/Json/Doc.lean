import OntoWorlds.Json.Token

/-!
# OntoWorlds — JSON documents

The tree of a document, as far as its text is JSON. A fault is kept in the tree at the place where
a reader going from left to right meets it, so that what stands before it can be read first.

* `Doc.ofTokens` builds the tree and returns the tokens behind it.
* `Doc.skip` is the first fault met by a reader who ignores the value.
-/

namespace OntoWorlds.Json

mutual

inductive Doc
  /-- A value of one token, a token that starts no value, or the end of the text. -/
  | atom (head : Option Token)
  | array (items : Items)
  | object (members : Members)

inductive Items
  | closed
  /-- Neither a separator nor the closing bracket follows. -/
  | cut (f : Fault)
  | item (d : Doc) (rest : Items)

inductive Members
  | closed
  /-- Neither a separator nor the closing brace follows. -/
  | cut (f : Fault)
  /-- No key stands where one should. -/
  | stray (head : Option Token)
  /-- A key, absent if it holds an unpaired surrogate, and its value. -/
  | member (key : Option String) (d : Doc) (rest : Members)

end

/-- The fault of a text that goes on with the wrong token, or ends. -/
def faultAt : List Token → Fault
  | [] => .unfinished
  | _ :: _ => .malformed

mutual

/-- The value that the tokens start with; `depth` bounds the recursion. -/
def Doc.parse : (depth : Nat) → List Token → Doc × List Token
  | 0, ts => (.atom none, ts)
  | _ + 1, [] => (.atom none, [])
  | depth + 1, .openBracket :: ts =>
    match ts with
    | .closeBracket :: ts => (.array .closed, ts)
    | [] => (.array (.cut .unfinished), [])
    | ts => let (items, rest) := Items.parse depth ts; (.array items, rest)
  | depth + 1, .openBrace :: ts =>
    match ts with
    | .closeBrace :: ts => (.object .closed, ts)
    | ts => let (members, rest) := Members.parse depth ts; (.object members, rest)
  | _ + 1, t :: ts => (.atom (some t), ts)

/-- The items of an array, from an item on. -/
def Items.parse : (depth : Nat) → List Token → Items × List Token
  | 0, ts => (.cut .malformed, ts)
  | depth + 1, ts =>
    let (d, rest) := Doc.parse depth ts
    match rest with
    | .closeBracket :: rest => (.item d .closed, rest)
    | .comma :: rest => let (items, rest) := Items.parse depth rest; (.item d items, rest)
    | rest => (.item d (.cut (faultAt rest)), rest)

/-- The members of an object, from a key on. -/
def Members.parse : (depth : Nat) → List Token → Members × List Token
  | 0, ts => (.cut .malformed, ts)
  | depth + 1, .text key :: .colon :: ts =>
    let (d, rest) := Doc.parse depth ts
    match rest with
    | .closeBrace :: rest => (.member key d .closed, rest)
    | .comma :: rest =>
      let (members, rest) := Members.parse depth rest; (.member key d members, rest)
    | rest => (.member key d (.cut (faultAt rest)), rest)
  | _ + 1, .text key :: [] => (.member key (.atom none) .closed, [])
  | _ + 1, .text key :: ts => (.member key (.atom (some .misplaced)) .closed, ts)
  | _ + 1, ts => (.stray ts.head?, ts)

end

/-- The document of the tokens, and the tokens behind it. -/
def Doc.ofTokens (ts : List Token) : Doc × List Token := Doc.parse (2 * ts.length + 1) ts

/-- How skipping fails at a single token, if it is not a value. -/
def skipToken : Option Token → Option Fault
  | none => some .unfinished
  | some (.broken _ _ onSkip) => some onSkip
  | some .null | some (.bool _) | some (.number _) | some (.text _) => none
  | some _ => some .malformed

/-- The fault of a token that stands where a key should. -/
def strayFault : Option Token → Fault
  | none => .unfinished
  | some (.broken .quote onRead _) => onRead
  | some _ => .malformed

/-- The same fault for a reader who skips the object. -/
def straySkipFault : Option Token → Fault
  | none => .unfinished
  | some (.broken .quote _ onSkip) => onSkip
  | some _ => .malformed

mutual

/-- What is wrong with a value that is passed over, if anything is. -/
def Doc.skip : Doc → Option Fault
  | .atom head => skipToken head
  | .array items => items.skip
  | .object members => members.skip

/-- What is wrong with the items of an array that is passed over. -/
def Items.skip : Items → Option Fault
  | .closed => none
  | .cut f => some f
  | .item d rest => match d.skip with
    | some f => some f
    | none => rest.skip

/-- What is wrong with the members of an object that is passed over. -/
def Members.skip : Members → Option Fault
  | .closed => none
  | .cut f => some f
  | .stray head => some (straySkipFault head)
  | .member _ d rest => match d.skip with
    | some f => some f
    | none => rest.skip

end

end OntoWorlds.Json
