import StoryGraph.Numeric.Numeral

/-!
# Values written by people

The texts that are read as a whole number, a floating point number or a truth value. A text is
read only as a whole: blanks, underscores and marks of other bases are refused. Digits are those
of ASCII.
-/

namespace StoryGraph

def FitsSigned (n : Int) : Prop := -0x8000000000000000 ≤ n ∧ n < 0x8000000000000000

instance (n : Int) : Decidable (FitsSigned n) := inferInstanceAs (Decidable (_ ∧ _))

/-- Reads a whole number: digits behind an optional sign, within 64 bits. -/
def readInt? (s : List Char) : Option { n : Int // FitsSigned n } :=
  let (sign, digits) := splitSign s
  if digits ≠ [] ∧ digits.all Char.isDigit then
    let n : Int := if sign = some '-' then -(natOfDigits digits : Int) else natOfDigits digits
    if h : FitsSigned n then some ⟨n, h⟩ else none
  else none

/-- Reads a decimal without a sign: digits with an optional point before, among or behind them, at
least one digit in all, and an optional exponent. -/
def readDecimal? (s : List Char) : Option Decimal :=
  let (whole, rest) := splitDigits s
  let (places, rest) := match rest with
    | '.' :: rest => splitDigits rest
    | rest => ([], rest)
  if whole = [] ∧ places = [] then none
  else (readExponent? rest).map fun e =>
    ({ negative := false, whole, places, exponent := e } : Numeral).decimal

/-- Reads a floating point number: a decimal, or one of the words for infinity and for what is no
number in letters of either case, behind an optional sign. -/
def readFloat? (F : Format) (s : List Char) : Option (Binary F) :=
  let (sign, rest) := splitSign s
  let negative := decide (sign = some '-')
  match readDecimal? rest with
  | some d => some (d.toBinary F negative)
  | none =>
    let word := String.ofList (rest.map Char.toLower)
    if word = "nan" then some (.nan negative)
    else if word = "inf" ∨ word = "infinity" then some (.infinite negative)
    else none

def readBool? (s : List Char) : Option Bool :=
  if s = "true".toList then some true
  else if s = "false".toList then some false
  else none

end StoryGraph
