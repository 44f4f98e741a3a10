import StoryGraph.Numeric.Numeral
import StoryGraph.Numeric.Shortest

/-!
# How numbers are laid out

Selecting digits and laying them out are separate: `Binary.shortest` does the one, and a `Layout`
records the decisions of the other. Each place that writes numbers has its own `Layout` value,
beside the text format that it belongs to.
-/

namespace StoryGraph

structure Layout where
  /-- The powers of ten of the first digit, least and greatest, between which no exponent is
  written. All numbers are written without one if there are no bounds. -/
  positional : Option (Int × Int) := none
  /-- Whole numbers keep a point and a zero behind it. -/
  point : Bool := false
  /-- An exponent that is not negative has a plus sign. -/
  plus : Bool := false
  /-- Which of two equally near neighbours is written. -/
  tie : Tie := .greater
deriving DecidableEq

namespace Layout

/-- The form for people: never an exponent, and no point behind whole numbers. -/
def plain : Layout := {}

/-- The form for people who look for faults: a point in every number, and an exponent for what is
very large or very small. -/
def exactPlain : Layout := { positional := some (-4, 15), point := true }

/-- Digits with the point in its place, and zeros to fill the gap to it. -/
def positionalNumeral (l : Layout) (negative : Bool) (d : Decimal) : Numeral :=
  let digits := Nat.toDigits 10 d.digits
  let whole := digits.length + d.exponent
  if 0 ≤ d.exponent then
    { negative
      whole := digits ++ List.replicate d.exponent.toNat '0'
      places := if l.point then ['0'] else [] }
  else if 0 < whole then
    { negative, whole := digits.take whole.toNat, places := digits.drop whole.toNat }
  else
    { negative, whole := ['0'], places := List.replicate (-whole).toNat '0' ++ digits }

/-- One digit, the others behind a point, and the power of ten of the first digit. -/
def exponentNumeral (l : Layout) (negative : Bool) (d : Decimal) : Numeral :=
  let digits := Nat.toDigits 10 d.digits
  let sign := if d.leading < 0 then some '-' else if l.plus then some '+' else none
  { negative
    whole := digits.take 1
    places := digits.drop 1
    exponent := some ⟨sign, Nat.toDigits 10 d.leading.natAbs⟩ }

def decimalNumeral (l : Layout) (negative : Bool) (d : Decimal) : Numeral :=
  match l.positional with
  | none => l.positionalNumeral negative d
  | some (least, greatest) =>
    if least ≤ d.leading ∧ d.leading ≤ greatest then l.positionalNumeral negative d
    else l.exponentNumeral negative d

/-- The numeral of a finite number. The zeros keep their sign. -/
def numeral {F : Format} (l : Layout) (x : Binary F) : Numeral :=
  if x.isZero then l.positionalNumeral x.negative ⟨0, 0⟩
  else l.decimalNumeral x.negative (x.shortest l.tie)

/-- The text of a number, with words for what no numeral names. What is no number has no sign. -/
def text {F : Format} (l : Layout) (x : Binary F) : String :=
  if x.isNaN then "NaN"
  else if x.isInfinite then if x.negative then "-inf" else "inf"
  else String.ofList (l.numeral x).chars

end Layout

def Binary.toText {F : Format} (x : Binary F) : String := Layout.plain.text x

end StoryGraph
