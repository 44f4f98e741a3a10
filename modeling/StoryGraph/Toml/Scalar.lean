import StoryGraph.Numeric.Reading
import StoryGraph.Toml.Text

/-!
# The scalars of TOML that are not in quotes

Whole numbers in four bases, floating point numbers, truth values, dates and times. Digits may be
grouped by underscores, each between two digits.
-/

namespace StoryGraph.Toml

def ungroup? (isDigit : Char → Bool) : List Char → Option (List Char)
  | [] => none
  | [c] => if isDigit c then some [c] else none
  | c :: '_' :: rest => if isDigit c then (ungroup? isDigit rest).map (c :: ·) else none
  | c :: rest => if isDigit c then (ungroup? isDigit rest).map (c :: ·) else none

/-- Decimal digits without underscores and without leading zeros. -/
def wholeDigits? (s : List Char) : Option (List Char) :=
  (ungroup? Char.isDigit s).filter fun digits => digits.head? != some '0' || digits == ['0']

def inBase? (base : Nat) (s : List Char) : Option Int := do
  let digits ← ungroup? (fun c => (Json.hexDigit? c).any (· < base)) s
  return digits.foldl (fun n c => n * base + (Json.hexDigit? c).getD 0) 0

def integer? (s : List Char) : Option { n : Int // FitsSigned n } := do
  let n ← match s with
    | '0' :: 'x' :: s => inBase? 16 s
    | '0' :: 'o' :: s => inBase? 8 s
    | '0' :: 'b' :: s => inBase? 2 s
    | s =>
      let (sign, s) := splitSign s
      (wholeDigits? s).map fun digits =>
        if sign = some '-' then -(natOfDigits digits : Int) else natOfDigits digits
  if h : FitsSigned n then some ⟨n, h⟩ else none

def exponent? : List Char → Option (Option Exponent)
  | [] => some none
  | c :: s =>
    let (sign, s) := splitSign s
    if c = 'e' ∨ c = 'E' then
      (ungroup? Char.isDigit s).map fun digits => some ⟨sign, digits⟩
    else none

def splitGroups (s : List Char) : List Char × List Char :=
  let inGroup (c : Char) : Bool := c.isDigit || c == '_'
  (s.takeWhile inGroup, s.dropWhile inGroup)

/-- The numeral of a floating point number: without a point it needs an exponent. -/
def numeral? (s : List Char) : Option Numeral := do
  let (sign, s) := splitSign s
  let (whole, s) := splitGroups s
  let (places, s) ← match s with
    | '.' :: s =>
      (ungroup? Char.isDigit (splitGroups s).1).map fun places => (places, (splitGroups s).2)
    | [] => none
    | s => some ([], s)
  return { negative := decide (sign = some '-'), whole := ← wholeDigits? whole, places
           exponent := ← exponent? s }

/-- A floating point number. Only a negative one may be too great for the format. -/
def float? (s : List Char) : Option Double :=
  let (sign, word) := splitSign s
  if word = "inf".toList then some (.infinite (decide (sign = some '-')))
  else if word = "nan".toList then some (.nan (decide (sign = some '-')))
  else (numeral? s).bind fun n =>
    let x := n.decimal.toBinary .double n.negative
    if x.isInfinite && !n.negative then none else some x

/-! ### Dates and times -/

def within? (low high : Nat) (digits : List Char) : Option Nat :=
  if digits.all Char.isDigit then some (natOfDigits digits) |>.filter fun n => low ≤ n && n ≤ high
  else none

def daysOf (year month : Nat) : Nat :=
  if month = 2 then
    if year % 4 = 0 ∧ (year % 100 ≠ 0 ∨ year % 400 = 0) then 29 else 28
  else if month = 4 ∨ month = 6 ∨ month = 9 ∨ month = 11 then 30
  else 31

def date? : List Char → Option (List Char)
  | y :: y' :: y'' :: y''' :: '-' :: m :: m' :: '-' :: d :: d' :: rest => do
    let year ← within? 0 9999 [y, y', y'', y''']
    let month ← within? 1 12 [m, m']
    let _ ← within? 1 (daysOf year month) [d, d']
    return rest
  | _ => none

def time? : List Char → Option (List Char)
  | h :: h' :: ':' :: m :: m' :: ':' :: s :: s' :: rest => do
    let _ ← within? 0 23 [h, h']
    let _ ← within? 0 59 [m, m']
    let _ ← within? 0 60 [s, s']
    match rest with
    | '.' :: rest => if (splitDigits rest).1 = [] then none else some (splitDigits rest).2
    | rest => some rest
  | _ => none

def isOffset : List Char → Bool
  | [] | ['Z'] | ['z'] => true
  | [sign, h, h', ':', m, m'] =>
    (sign == '+' || sign == '-') && (within? 0 23 [h, h']).isSome && (within? 0 59 [m, m']).isSome
  | _ => false

/-- Whether a text is a date, a time, or both with a letter between them. -/
def isMoment (s : List Char) : Bool :=
  match date? s with
  | some [] => true
  | some (c :: rest) => (c == 'T' || c == 't') && (time? rest).any isOffset
  | none => (time? s).any List.isEmpty

end StoryGraph.Toml
