import StoryGraph.Numeric.Layout

/-!
# The numbers of JSON

A number is a whole number of 64 bits, with or without a sign, or a finite floating point number.
A numeral with a point or an exponent, one that is out of range and the negative zero name
floating point numbers.

Such a numeral is not read by rounding its exact value. The leading digits that fit 64 bits are
turned into a floating point number, which is multiplied or divided by a power of ten; each of the
two steps rounds, so the result may be a neighbour of the nearest number. What overflows is no
number at all.
-/

namespace StoryGraph.Json

/-- Whether a whole number fits 64 bits, with or without a sign. -/
def IsWhole (n : Int) : Prop := -0x8000000000000000 ≤ n ∧ n < 0x10000000000000000

instance (n : Int) : Decidable (IsWhole n) := inferInstanceAs (Decidable (_ ∧ _))

inductive Number where
  | whole (n : Int) (isWhole : IsWhole n)
  | real (x : Double) (isFinite : x.isFinite = true)
deriving DecidableEq

namespace Number

/-- Numbers in files have a point or an exponent unless they are whole by nature. -/
def layout : Layout :=
  { positional := some (-5, 15), point := true, plus := true, tie := .even }

def numeral : Number → Numeral
  | whole n _ => .ofInt n
  | real x _ => layout.numeral x

/-- Equality of values: whole numbers and floating point numbers are never the same. -/
def same : Number → Number → Bool
  | whole m _, whole n _ => m == n
  | real x _, real y _ => x.same y
  | _, _ => false

def toSingle : Number → Single
  | whole n _ => .ofInt .single n
  | real x _ => x.convert .single

/-- Extends `n` by digits as long as the number fits 64 bits; the digits that are left. -/
def gather (n : Nat) : List Char → Nat × List Char
  | [] => (n, [])
  | c :: rest =>
    let m := n * 10 + (c.toNat - '0'.toNat)
    if m < 0x10000000000000000 then gather m rest else (n, c :: rest)

def tenPow (k : Nat) : Double := (⟨1, k⟩ : Decimal).toBinary .double false

/-- A floating point number times a power of ten, or nothing if that overflows. The powers beyond
the range of the format are divided out in steps. -/
def scale? (x : Double) (e : Int) : Option Double :=
  if x.isZero then some x
  else if 308 < e then none
  else if 0 ≤ e then
    let y := x * tenPow e.toNat
    if y.isInfinite then none else some y
  else if -308 ≤ e then some (x / tenPow (-e).toNat)
  else scale? (x / tenPow 308) (e + 308)
termination_by (-e).toNat

def ofReal? (x : Double) : Option Number :=
  if h : x.isFinite = true then some (.real x h) else none

def ofNumeral? (n : Numeral) : Option Number :=
  let (significand, moreWhole) := gather 0 n.whole
  let whole : Int := if n.negative then -significand else significand
  if h : (n.places = [] ∧ n.exponent = none ∧ moreWhole = [] ∧ ¬(n.negative ∧ whole = 0)) ∧
      IsWhole whole then
    some (.whole whole h.2)
  else do
    let (significand, morePlaces) := gather significand n.places
    let places := n.places.length - morePlaces.length
    let e := n.exponent.elim 0 Exponent.value
    let x ← scale? (.ofInt .double significand) (moreWhole.length - places + e)
    ofReal? (if n.negative then -x else x)

end Number

end StoryGraph.Json
