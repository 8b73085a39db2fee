/-!
# OntoWorlds — decimal numerals

Reading whole numbers written in ASCII digits. `readWord` is the reading used for multiplicities:
an optional plus sign, any number of leading zeros, and a value that fits in 32 bits.
-/

namespace OntoWorlds.Text

/-- The largest number that fits in 32 bits. -/
def maxWord : Nat := 4294967295

/-- The value of a nonempty run of ASCII digits. -/
def readDigits (cs : List Char) : Option Nat :=
  if !cs.isEmpty && cs.all Char.isDigit then some (Nat.ofDigitChars 10 cs 0) else none

/-- The text without one leading plus sign. -/
def dropPlus : List Char → List Char
  | '+' :: cs => cs
  | cs => cs

/-- The value of a numeral with an optional plus sign, if it fits in 32 bits. -/
def readWord (cs : List Char) : Option Nat :=
  (readDigits (dropPlus cs)).filter (· ≤ maxWord)

end OntoWorlds.Text
