import StoryGraph.Numeric.Decimal

/-!
# Numerals

A numeral is a number as it stands in a text: digits before and behind the point and an exponent.
Several numerals name one number, so a numeral keeps its digits as they were written and
`Numeral.decimal` says what they mean.
-/

namespace StoryGraph

def natOfDigits (s : List Char) : Nat := Nat.ofDigitChars 10 s 0

/-- The power of ten behind a numeral. A plus sign is written or left out, so the sign has three
values. -/
structure Exponent where
  sign : Option Char
  digits : List Char
deriving DecidableEq

namespace Exponent

def value (e : Exponent) : Int :=
  if e.sign = some '-' then -(natOfDigits e.digits : Int) else natOfDigits e.digits

def chars (e : Exponent) : List Char := 'e' :: (e.sign.toList ++ e.digits)

end Exponent

/-- A number as it is written. The point stands only in front of further digits. -/
structure Numeral where
  negative : Bool
  whole : List Char
  places : List Char := []
  exponent : Option Exponent := none
deriving DecidableEq

namespace Numeral

def decimal (n : Numeral) : Decimal :=
  ⟨natOfDigits (n.whole ++ n.places), (n.exponent.elim 0 Exponent.value) - n.places.length⟩

def chars (n : Numeral) : List Char :=
  (if n.negative then ['-'] else []) ++ n.whole ++
    (if n.places = [] then [] else '.' :: n.places) ++ (n.exponent.elim [] Exponent.chars)

def ofInt (n : Int) : Numeral :=
  { negative := decide (n < 0), whole := Nat.toDigits 10 n.natAbs }

end Numeral

def splitDigits (s : List Char) : List Char × List Char :=
  (s.takeWhile Char.isDigit, s.dropWhile Char.isDigit)

def splitSign : List Char → Option Char × List Char
  | '-' :: rest => (some '-', rest)
  | '+' :: rest => (some '+', rest)
  | s => (none, s)

/-- Reads the exponent that ends a numeral and may be missing: a letter `e`, an optional sign and
at least one digit. -/
def readExponent? : List Char → Option (Option Exponent)
  | [] => some none
  | c :: s =>
    let (sign, digits) := splitSign s
    if (c = 'e' ∨ c = 'E') ∧ digits ≠ [] ∧ digits.all Char.isDigit then
      some (some ⟨sign, digits⟩)
    else none

end StoryGraph
