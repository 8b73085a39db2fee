import OntoWorlds.Json.Problem
import OntoWorlds.Json.Value
import OntoWorlds.Text.Numeral

/-!
# OntoWorlds — reading and writing typed values

A codec reads a type from documents and writes it as values. A document is read from left to right
and the first problem met is reported.

* `Codec.text`, `Codec.bool`, `Codec.word`, `Codec.nullable`, `Codec.list`, `Codec.variant` are the
  codecs of plain types.
* `Record` describes a type with named fields; `Record.codec` reads it from an object in any order
  of the keys, or from an array of the fields in declared order, and writes an object.
-/

namespace OntoWorlds.Json

/-- How values of a type are read from a document and written to one. -/
structure Codec (α : Type) where
  read : Doc → Except Problem α
  write : α → Value

/-- A document that is well formed but does not fit. -/
def refuse {α : Type} (m : Misfit) : Except Problem α := .error (.misfit m)

/-- A document that is not well formed. -/
def fail {α : Type} (f : Fault) : Except Problem α := .error (.fault f)

namespace Codec

/-! ## Plain types -/

/-- Strings. -/
def text : Codec String where
  read
    | .atom (some (.text (some s))) => .ok s
    | d => .error (d.unexpected "a string")
  write := .text

/-- Truth values. -/
def bool : Codec Bool where
  read
    | .atom (some (.bool b)) => .ok b
    | d => .error (d.unexpected "a boolean")
  write := .bool

/-- A number from 0 to `Text.maxWord`. -/
def word : Codec Nat where
  read
    | .atom (some (.number n)) =>
      match n.value with
      | some (.integer i) =>
        if 0 ≤ i ∧ i ≤ Text.maxWord then .ok i.toNat else refuse (.invalidInteger i "u32")
      | some v => refuse (.invalidType (.number v) "u32")
      | none => fail .malformed
    | d => .error (d.unexpected "u32")
  write := .number

/-- A type with `null` for none. -/
def nullable {α : Type} (c : Codec α) : Codec (Option α) where
  read
    | .atom (some .null) => .ok none
    -- a word that begins like `null` and goes on differently is not taken for another value
    | .atom (some (.broken .nullWord onRead _)) => fail onRead
    | d => (c.read d).map some
  write
    | none => .null
    | some a => c.write a

/-- A type read and written in the form of another. -/
def convert {α β : Type} (c : Codec α) (into : α → β) (of : β → α) : Codec β where
  read d := (c.read d).map into
  write b := c.write (of b)

/-- The items of an array. -/
def readItems {α : Type} (read : Doc → Except Problem α) : Items → Except Problem (List α)
  | .closed => .ok []
  | .cut f => fail f
  | .item d rest => do
    let a ← read d
    let as ← readItems read rest
    return a :: as

/-- Sequences, read item by item. -/
def list {α : Type} (c : Codec α) : Codec (List α) where
  read
    | .array items => readItems c.read items
    | d => .error (d.unexpected "a sequence")
  write as := .array (.ofList (as.map c.write))

/-! ## Variants

A variant is written as its word. It may also be read from an object whose only key is the word and
whose value is `null`.
-/

/-- The value that a word stands for, among the known ones. -/
def readVariant {α : Type} (ofWord : String → Option α) (known : List String) (w : String) :
    Except Problem α :=
  match ofWord w with
  | some a => .ok a
  | none => refuse (.unknownVariant w known)

/-- The value that stands for nothing more. -/
def readUnit : Doc → Except Problem Unit
  | .atom (some .null) => .ok ()
  | d => .error (d.unexpected "unit")

/-- The end of an object behind its only member. -/
def endOfVariant : Members → Except Problem Unit
  | .closed => .ok ()
  | .cut f => fail f
  | .stray _ | .member .. => fail .malformed

/-- Values that are written as a word; a word may also be the only key of an object. -/
def variant {α : Type} (word : α → String) (ofWord : String → Option α) (known : List String) :
    Codec α where
  read
    | .atom (some (.text (some w))) => readVariant ofWord known w
    -- the word as a key: the rest of the object is looked at only behind a known word
    | .object (.member (some w) d rest) => do
      let a ← readVariant ofWord known w
      readUnit d
      endOfVariant rest
      return a
    | .object (.stray head) => fail (strayFault head)
    | .atom none => fail .unfinished
    | .atom (some (.broken .quote onRead _)) => fail onRead
    | _ => fail .malformed
  write a := .text (word a)

end Codec

/-! ## Records -/

/-- A field of a record type: how it is read into a record and written from one. -/
structure Field (α : Type) where
  name : String
  isRequired : Bool
  read : Doc → Except Problem (α → α)
  write : α → Value

/-- A field given by a codec of its values. -/
def Codec.field {α β : Type} (c : Codec β) (name : String) (isRequired : Bool) (get : α → β)
    (set : β → α → α) : Field α :=
  ⟨name, isRequired, fun d => (c.read d).map set, fun a => c.write (get a)⟩

/-- A record type: its fields in declared order, and the record in which every field has its
default. -/
structure Record (α : Type) where
  title : String
  fields : List (Field α)
  blank : α
  /-- Unknown keys are refused, not ignored. -/
  isClosed : Bool := false

namespace Record

variable {α : Type} (r : Record α)

/-- The field of the name. -/
def find (name : String) : Option (Field α) := r.fields.find? (·.name == name)

/-- The record once no key is left: a required field that was not seen is missing. -/
def finish (seen : List String) (a : α) : Except Problem α :=
  match r.fields.find? (fun f => f.isRequired && !seen.contains f.name) with
  | some f => refuse (.missingField f.name)
  | none => .ok a

/-- Reads members into a record in which the seen fields are set. -/
def readMembers : Members → (seen : List String) → α → Except Problem α
  | .closed, seen, a => r.finish seen a
  | .cut f, _, _ => fail f
  | .stray head, _, _ => fail (strayFault head)
  -- a key that cannot be read
  | .member none _ _, _, _ => fail .malformed
  | .member (some key) d rest, seen, a =>
    match r.find key with
    | none =>
      if r.isClosed then refuse (.unknownField key (r.fields.map (·.name)))
      -- the value of an unknown key is skipped, but it has to be well formed
      else match d.skip with
        | some f => fail f
        | none => readMembers rest seen a
    | some field =>
      -- a field may be set once only
      if seen.contains key then refuse (.duplicateField key)
      else match field.read d with
        | .error p => .error p
        | .ok set => readMembers rest (key :: seen) (set a)

/-- The end of an array behind all fields. -/
def endOfItems : Items → Except Problem Unit
  | .closed => .ok ()
  | .cut f => fail f
  | .item .. => fail .malformed

/-- Reads items as the fields in declared order; those left out at the end keep their default. -/
def readItems : List (Field α) → (index : Nat) → Items → α → Except Problem α
  -- behind the last field the array has to end
  | [], _, items, a => (endOfItems items).map fun _ => a
  | field :: fields, index, .closed, a =>
    if field.isRequired then refuse (.invalidLength index r.title r.fields.length)
    -- fields left out keep what the blank record has
    else readItems fields (index + 1) .closed a
  | _ :: _, _, .cut f, _ => fail f
  | field :: fields, index, .item d rest, a =>
    match field.read d with
    | .error p => .error p
    | .ok set => readItems fields (index + 1) rest (set a)

/-- Reads a record from an object, by its keys, or from an array, by position. -/
def read : Doc → Except Problem α
  | .array items => r.readItems r.fields 0 items r.blank
  | .object members => r.readMembers members [] r.blank
  | d => .error (d.unexpected r.title)

/-- Writes every field, in order. -/
def write (a : α) : Value :=
  .object (.ofList (r.fields.map fun f => (f.name, f.write a)))

/-- The record as a codec, for fields of other records. -/
def codec : Codec α := ⟨r.read, r.write⟩

end Record

/-! ## Whole documents -/

/-- Reads a text that holds one document and nothing else. -/
def readDocument {α : Type} (read : Doc → Except Problem α) (text : String) : Except Problem α :=
  match Doc.ofTokens (tokens text) with
  | (d, rest) =>
    match read d with
    | .error p => .error p
    | .ok a => if rest.isEmpty then .ok a else fail .malformed

end OntoWorlds.Json
