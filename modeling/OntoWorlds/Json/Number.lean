import OntoWorlds.Json.Binary64

/-!
# OntoWorlds — JSON numbers

A number as it is written, and the value it stands for. Whole numbers that fit in 64 bits are
integers; every other number is a binary one, computed from the digits that fit in 64 bits and one
scaling by a power of ten.
-/

namespace OntoWorlds.Json

/-- A number as written. -/
structure Number where
  negative : Bool
  /-- The digits before the point. -/
  whole : List Char
  /-- The digits after the point; none if there is no point. -/
  fraction : List Char
  exponent : Option Int
deriving DecidableEq, Repr, Inhabited

/-- What a number stands for. -/
inductive NumberValue
  | integer (i : Int)
  | binary (negative : Bool) (x : Binary64)
deriving DecidableEq, Repr, Inhabited

namespace NumberValue

/-- The number as it is printed. -/
def text : NumberValue → String
  | integer i => toString i
  | binary true x => "-" ++ x.text
  | binary false x => x.text

end NumberValue

namespace Number

/-- The largest significand. -/
def maxSignificand : Nat := 18446744073709551615

/-- Takes digits into the significand while it fits; the digits that are left over follow. -/
def absorb (significand : Nat) : List Char → Nat × List Char
  | [] => (significand, [])
  | c :: cs =>
    let next := significand * 10 + (c.toNat - '0'.toNat)
    if next ≤ maxSignificand then absorb next cs else (significand, c :: cs)

/-- The number `x * 10 ^ e`, if it is in range. Powers beyond 308 are divided out in steps, of which
three reach zero. -/
def scale (x : Binary64) (e : Int) : (steps : Nat) → Option Binary64
  | 0 => some .zero
  | steps + 1 =>
    if e.natAbs ≤ 308 then do
      let power ← Binary64.ofFraction (Nat.pow 10 e.natAbs) 1
      if 0 ≤ e then x.mul power else x.div power
    else if x.isZero then some x
    else if 0 ≤ e then none
    else do
      let power ← Binary64.ofFraction (Nat.pow 10 308) 1
      scale (← x.div power) (e + 308) steps

/-- The value of a number; none if it is too large. -/
def value (n : Number) : Option NumberValue :=
  let (significand, wholeLeft) := absorb 0 n.whole
  if n.fraction.isEmpty && n.exponent.isNone && wholeLeft.isEmpty
      && (!n.negative || (0 < significand && significand ≤ Nat.pow 2 63)) then
    some (.integer (if n.negative then -significand else significand))
  else do
    let (significand, fractionLeft) := absorb significand n.fraction
    let e : Int := wholeLeft.length - (n.fraction.length - fractionLeft.length : Nat)
      + n.exponent.getD 0
    let x ← Binary64.ofFraction significand 1
    return .binary n.negative (← scale x e 5)

end Number

end OntoWorlds.Json
