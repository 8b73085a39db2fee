import OntoWorlds.Alloy.Sheet
import OntoWorlds.Multiplicity

/-!
# OntoWorlds — declarations of a module

The declarations and constraints that a generated module is made of, as data, and the text of each.
All of them hold identifiers only, never raw names.

* `WorldField` — a field of the signature `World`, with the columns of its relation.
* `Accessor` — a function that reads a field in a given world.
* `Fact` — a named block of constraints.
* `Fragment` — any of these, or another part of the module.
-/

namespace OntoWorlds.Alloy

/-- The signatures that endurants are drawn from. -/
inductive BaseSignature
  | object | aspect | endurant
deriving DecidableEq, Repr, Inhabited

/-- The signature as a module spells it. -/
def BaseSignature.word : BaseSignature → String
  | object => "Object"
  | aspect => "Aspect"
  | endurant => "Endurant"

/-! ## World fields -/

/-- The relation that a world field holds. -/
inductive FieldShape
  /-- The instances of a class, among the existing individuals of a base signature. -/
  | extension (base : BaseSignature)
  /-- Pairs, with the quantifier of each side. -/
  | binary (source : String) (atSource atTarget : Quantifier) (target : String)
  /-- A material relation with the relators that found it. -/
  | founded (source relator target : String)
  /-- Sequences: the targets of each source, by position. -/
  | indexed (source target : String)
deriving DecidableEq, Repr

/-- A field of `World` and the relation it holds. -/
structure WorldField where
  name : String
  shape : FieldShape
deriving DecidableEq, Repr

/-- The field's type as written: the columns with their quantifiers. -/
def FieldShape.text : FieldShape → String
  | extension base => "set exists:>" ++ base.word
  | binary source atSource atTarget target =>
    "set " ++ source ++ " " ++ atSource.keyword ++ " -> " ++ atTarget.keyword ++ " " ++ target
  | founded source relator target =>
    "set " ++ source ++ " -> set " ++ relator ++ " -> set " ++ target
  | indexed source target => "set " ++ source ++ " set -> set Int set -> set " ++ target

/-- The declaration of the field, without the separator. -/
def WorldField.text (f : WorldField) : String := f.name ++ ": " ++ f.shape.text

/-! ## Extents -/

/-- A set of values: a signature, or the instances of a class in the world at hand or in any. -/
inductive Extent
  | signature (name : String)
  | inWorld (field : String)
  | acrossWorlds (field : String)
deriving DecidableEq, Repr

/-- A field of the world at hand is read off the variable `w`, one of any world off the signature.
-/
def Extent.text : Extent → String
  | signature name => name
  | inWorld field => "w." ++ field
  | acrossWorlds field => "World." ++ field

/-! ## Facts -/

/-- A line of a generalization set. -/
inductive SetLine
  | disjoint (a b : String)
  | covered (general : String) (specifics : List String)
deriving DecidableEq, Repr

/-- A line of the fact: two fields do not overlap, or several make up another. -/
def SetLine.text : SetLine → String
  | disjoint a b => "no " ++ a ++ " & " ++ b
  | covered general specifics => general ++ " = " ++ String.intercalate "+" specifics

/-- The values that a multiplicity counts: those of an inline field of a datatype, or those that an
accessor gives in the world at hand. -/
inductive Counted
  | inline (datatype field : String)
  | accessed (domain : Extent) (accessor : String)
deriving DecidableEq, Repr

/-- The bounds of a count, at least one of them. -/
inductive Bounds
  | atLeast (lower : Nat)
  | atMost (upper : Nat)
  | between (lower upper : Nat)
deriving DecidableEq, Repr

/-- The bounds that a multiplicity states, if it states any. -/
def Bounds.of? (m : Multiplicity) : Option Bounds :=
  match m.lower?, m.upper? with
  | some lower, some upper => some (.between lower upper)
  | some lower, none => some (.atLeast lower)
  | none, some upper => some (.atMost upper)
  | none, none => none

/-- The bounds of `term` as a condition. -/
def Bounds.text (term : String) : Bounds → String
  | atLeast lower => term ++ ">=" ++ toString lower
  | atMost upper => term ++ "<=" ++ toString upper
  | between lower upper =>
    term ++ ">=" ++ toString lower ++ " and " ++ term ++ "<=" ++ toString upper

/-- A named block of constraints, each kind with what its lines mention. -/
inductive Fact
  | rigid (name : String) (base : BaseSignature)
  | antirigid (name : String) (base : BaseSignature)
  | generalization (specific general : String)
  | generalizationSet (lines : List SetLine)
  /-- A material relation holds by a relator that mediates both of its ends. -/
  | derivation (source target : Extent) (relator material sourceMediation targetMediation : String)
  /-- The positions of an indexed field form a sequence. -/
  | ordering (domain : Extent) (field : String)
  /-- So they do, with at most one value at each position. -/
  | functionalOrdering (domain : Extent) (field : String)
  | multiplicity (counted : Counted) (bounds : Bounds)
deriving DecidableEq, Repr

/-- A field in the world at hand. -/
def inThisWorld (field : String) : String := "(w." ++ field ++ ")"

namespace Fact

/-- The positions of each value of the domain form a sequence. -/
def orderingLine (domain : Extent) (field : String) : String :=
  "all w: World, x: " ++ domain.text ++ " | isSeq[x." ++ inThisWorld field ++ "]"

/-- There is at most one value at each position. -/
def positionLine (domain : Extent) (field : String) : String :=
  "all w: World, x: " ++ domain.text ++ ", i: Int | lone i.(x." ++ inThisWorld field ++ ")"

/-- Facts are named for their kind, so several facts of a module may share a name. -/
def header : Fact → String
  | rigid .. => "fact rigid"
  | antirigid .. => "fact antirigid"
  | generalization .. => "fact generalization"
  | generalizationSet .. => "fact generalizationSet"
  | derivation .. => "fact derivations"
  | ordering .. | functionalOrdering .. => "fact ordering"
  | multiplicity .. => "fact multiplicity"

/-- The lines in the block of the fact. -/
def lines : Fact → List String
  | rigid name base => ["rigidity[" ++ name ++ "," ++ base.word ++ ",exists]"]
  | antirigid name base => ["antirigidity[" ++ name ++ "," ++ base.word ++ ",exists]"]
  | generalization specific general => [specific ++ " in " ++ general]
  | generalizationSet lines => lines.map SetLine.text
  | derivation source target relator material sourceMediation targetMediation =>
    ["all w: World, x: " ++ source.text ++ ", y: " ++ target.text ++ ", r: w." ++ relator
      ++ " | x -> r -> y in w." ++ material ++ " iff x in r." ++ inThisWorld sourceMediation
      ++ " and y in r." ++ inThisWorld targetMediation]
  | ordering domain field => [orderingLine domain field]
  | functionalOrdering domain field => [orderingLine domain field, positionLine domain field]
  | multiplicity (.inline datatype field) bounds =>
    ["all x: " ++ datatype ++ " | " ++ bounds.text ("#x." ++ field)]
  | multiplicity (.accessed domain accessor) bounds =>
    ["all w: World, x: " ++ domain.text ++ " | " ++ bounds.text ("#" ++ accessor ++ "[x,w]")]

/-- The fact as a block. -/
def text (f : Fact) : String := block f.header f.lines

end Fact

/-! ## Accessors -/

/-- A world field as a binary relation: as it is, or its first and last column. -/
inductive Projection
  | whole (field : String)
  | outer (field : String)
deriving DecidableEq, Repr

/-- The field in the world at hand, or the first and last column of it. -/
def Projection.text : Projection → String
  | whole field => "(w." ++ field ++ ")"
  | outer field => "(select13[w." ++ field ++ "])"

/-- What an accessor gives for `x` in the world `w`. -/
inductive AccessorBody
  /-- The values that `x` is related to. -/
  | image (p : Projection)
  /-- The values that are related to `x`. -/
  | preimage (p : Projection)
  /-- The elements of the sequence of `x`. -/
  | elements (field : String)
deriving DecidableEq, Repr

/-- The expression the accessor returns. -/
def AccessorBody.text : AccessorBody → String
  | image p => "x." ++ p.text
  | preimage p => p.text ++ ".x"
  | elements field => "elems[x." ++ inThisWorld field ++ "]"

/-- A function of a value `x` and a world `w`. -/
structure Accessor where
  name : String
  domain : Extent
  range : Extent
  body : AccessorBody
deriving DecidableEq, Repr

/-- The function as a block with one line. -/
def Accessor.text (a : Accessor) : String :=
  block ("fun " ++ a.name ++ " [x: " ++ a.domain.text ++ ", w: World] : set " ++ a.range.text)
    [a.body.text]

/-! ## Datatypes and enumerations -/

/-- A field of a datatype signature; without a quantifier it has exactly one value. -/
structure InlineField where
  name : String
  quantifier : Option Quantifier
  type : String
deriving DecidableEq, Repr

/-- The declaration of the field; a quantifier stands before the type. -/
def InlineField.text (f : InlineField) : String :=
  f.name ++ ": " ++ match f.quantifier with
    | some q => q.keyword ++ " " ++ f.type
    | none => f.type

/-- A datatype signature with the fields that were found for it. -/
structure Datatype where
  name : String
  /-- The module declares the signature; a built-in one is only referred to. -/
  isDeclared : Bool
  fields : List InlineField := []
deriving DecidableEq, Repr

/-- An `enum` signature. -/
structure Enumeration where
  name : String
  literals : List String
deriving DecidableEq, Repr

/-- The literals stand on the line of the signature. -/
def Enumeration.text (e : Enumeration) : String :=
  "enum " ++ e.name ++ " \x7b " ++ String.intercalate ", " e.literals ++ " \x7d"

/-! ## Fragments -/

/-- The classes that together hold every existing individual of a base signature. -/
structure Covering where
  base : BaseSignature
  classes : List String
deriving DecidableEq, Repr

/-- The individuals of the base are among the instances of the classes. -/
def Covering.text (c : Covering) : String :=
  "exists:>" ++ c.base.word ++ " in " ++ String.intercalate "+" c.classes

/-- A column of a field that is fixed over time. -/
inductive Immutability
  | source (domain field : String)
  | target (domain field : String)
deriving DecidableEq, Repr

/-- The predicate that fixes the column. -/
def Immutability.text : Immutability → String
  | source domain field => "immutable_source[" ++ domain ++ "," ++ field ++ "]"
  | target domain field => "immutable_target[" ++ domain ++ "," ++ field ++ "]"

/-- A field whose values a visualization shows. -/
structure Selector where
  field : String
deriving DecidableEq, Repr

/-- The first and last column of the field are shown. -/
def Selector.text (s : Selector) : String := "select13[" ++ s.field ++ "]"

/-- A part of the module, in the order in which parts are emitted. -/
inductive Fragment
  | worldField (f : WorldField)
  | covering (c : Covering)
  | fact (f : Fact)
  | immutability (i : Immutability)
  | accessor (a : Accessor)
  | selector (s : Selector)
  | enumeration (e : Enumeration)
  | datatype (name : String) (isDeclared : Bool)
  | inlineField (datatype : String) (f : InlineField)
deriving DecidableEq, Repr

end OntoWorlds.Alloy
