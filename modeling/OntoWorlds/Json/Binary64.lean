/-!
# OntoWorlds — binary floating-point numbers

Nonnegative numbers with a significand of 53 bits, in exact arithmetic: rounding a fraction to the
nearest such number, products and quotients, and the shortest decimal that reads back.

* `Binary64.ofFraction` rounds to nearest, a tie going to the even significand.
* `Binary64.shortest` gives the fewest digits that lie in the number's rounding interval, and of
  two such decimals the nearer one.
* `Binary64.text` writes the digits positionally for decimal exponents from -5 to 15.
-/

namespace OntoWorlds.Json

/-- The number `significand * 2 ^ exponent`. -/
structure Binary64 where
  significand : Nat
  exponent : Int
deriving DecidableEq, Repr, Inhabited

namespace Binary64

/-- The number 0. -/
def zero : Binary64 := ⟨0, 0⟩

/-- The number is 0, whatever its exponent. -/
def isZero (x : Binary64) : Bool := x.significand == 0

/-- The least exponent of a significand. -/
def minExponent : Int := -1074

/-- The greatest exponent of a significand of full length. -/
def maxExponent : Int := 971

/-- The fraction `n * 2 ^ e` as numerator and denominator. -/
def scaled (n : Nat) (e : Int) : Nat × Nat :=
  if 0 ≤ e then (n * Nat.pow 2 e.toNat, 1) else (n, Nat.pow 2 (-e).toNat)

/-- The quotient to the nearest whole number, a tie to the even one. -/
def roundDiv (num den : Nat) : Nat :=
  let q := num / den
  let r := num % den
  if 2 * r > den || (2 * r == den && q % 2 == 1) then q + 1 else q

/-- The exponent at which a positive fraction has a significand of 53 bits, or the least one. -/
def exponentOf (num den : Nat) : Int :=
  let e : Int := num.log2 - den.log2 - 53
  let (n, d) := scaled num (-e)
  let e := if n / (d * den) < Nat.pow 2 53 then e else e + 1
  if e < minExponent then minExponent else e

/-- The nearest number to a fraction, if it is in range. -/
def ofFraction (num den : Nat) : Option Binary64 :=
  if num == 0 then some zero
  else
    let e := exponentOf num den
    let (n, d) := scaled num (-e)
    let q := roundDiv n (d * den)
    let x : Binary64 := if q == Nat.pow 2 53 then ⟨Nat.pow 2 52, e + 1⟩ else ⟨q, e⟩
    if x.exponent > maxExponent then none else some x

/-- The number as numerator and denominator. -/
def fraction (x : Binary64) : Nat × Nat := scaled x.significand x.exponent

/-- The product, rounded to nearest; none if it is too large. -/
def mul (x y : Binary64) : Option Binary64 :=
  let (a, b) := x.fraction
  let (c, d) := y.fraction
  ofFraction (a * c) (b * d)

/-- The quotient, rounded to nearest; none if it is too large. -/
def div (x y : Binary64) : Option Binary64 :=
  let (a, b) := x.fraction
  let (c, d) := y.fraction
  ofFraction (a * d) (b * c)

/-! ## The shortest decimal -/

/-- The decimal exponent of the leading digit of a positive fraction; `tries` bounds the search for
a fraction below one. -/
def leadingExponent (num den : Nat) : (tries : Nat) → Int
  | 0 => 0
  | tries + 1 =>
    if num ≥ den then (Nat.toDigits 10 (num / den)).length - 1
    else leadingExponent (num * 10) den tries - 1

/-- Whether `d * 10 ^ k` rounds to the positive number `x`: it lies between the midpoints to the
two neighbours, which belong to the interval if the significand is even. -/
def roundsTo (x : Binary64) (d : Nat) (k : Int) : Bool :=
  let narrow := x.significand == Nat.pow 2 52 && x.exponent > minExponent
  let (num, den) := scaled 1 (x.exponent - 2)
  let lower := (4 * x.significand - if narrow then 1 else 2) * num
  let upper := (4 * x.significand + 2) * num
  let (p, q) := if 0 ≤ k then (d * Nat.pow 10 k.toNat, 1) else (d, Nat.pow 10 (-k).toNat)
  if x.significand % 2 == 0 then lower * q ≤ p * den && p * den ≤ upper * q
  else lower * q < p * den && p * den < upper * q

/-- The shortest digits `d` and exponent `k` with `d * 10 ^ k` rounding to `x`, trying numbers of
`digits` digits and more. -/
def shortestFrom (x : Binary64) (leading : Int) : (tries digits : Nat) → Nat × Int
  | 0, _ => (x.significand, 0)
  | tries + 1, digits =>
    let k : Int := leading - digits + 1
    let (num, den) := x.fraction
    let (n, d) := if 0 ≤ k then (num, den * Nat.pow 10 k.toNat)
      else (num * Nat.pow 10 (-k).toNat, den)
    let below := n / d
    let nearest := roundDiv n d
    if x.roundsTo nearest k then (nearest, k)
    else if x.roundsTo below k then (below, k)
    else if x.roundsTo (below + 1) k then (below + 1, k)
    else shortestFrom x leading tries (digits + 1)

/-- The shortest decimal that rounds to the number: its digits and their exponent. -/
def shortest (x : Binary64) : Nat × Int :=
  let (num, den) := x.fraction
  x.shortestFrom (leadingExponent num den 400) 18 1

/-- The digits without trailing zeros, and how many were dropped. -/
def dropZeros (digits : List Char) : List Char × Nat :=
  let kept := (digits.reverse.dropWhile (· == '0')).reverse
  (kept, digits.length - kept.length)

/-- The decimal `digits * 10 ^ k`: positional if the leading digit stands between the exponents -5
and 15, else with one digit before the point and a signed exponent. -/
def layout (digits : List Char) (k : Int) : String :=
  let point : Int := digits.length + k
  if 0 ≤ k && point ≤ 16 then
    String.ofList (digits ++ List.replicate k.toNat '0') ++ ".0"
  else if 0 < point && point ≤ 16 then
    String.ofList (digits.take point.toNat) ++ "." ++ String.ofList (digits.drop point.toNat)
  else if -5 < point && point ≤ 0 then
    "0." ++ String.ofList (List.replicate (-point).toNat '0' ++ digits)
  else
    let mantissa := match digits with
      | d :: [] => String.ofList [d]
      | d :: ds => String.ofList (d :: '.' :: ds)
      | [] => ""
    mantissa ++ (if 0 < point then "e+" else "e") ++ toString (point - 1)

/-- The number as it is printed. -/
def text (x : Binary64) : String :=
  if x.isZero then "0.0"
  else
    let (d, k) := x.shortest
    let (digits, dropped) := dropZeros (Nat.toDigits 10 d)
    layout digits (k + dropped)

end Binary64

end OntoWorlds.Json
