import StoryGraph.Numeric.Binary

/-!
# Rounding to the nearest number

Every operation on binary numbers is the exact result, rounded once to the nearest number of the
format, a tie going to the even magnitude. The exact result is a fraction counted in units
(`Binary.nearest`), so one rounding function serves reading decimals, changing the format and the
four operations that the canvas needs.
-/

namespace StoryGraph

/-- The integer nearest to `num / den`; halfway between two integers, the even one. -/
def roundHalfEven (num den : Nat) : Nat :=
  let floor := num / den
  match compare (2 * (num % den)) den with
  | .lt => floor
  | .gt => floor + 1
  | .eq => floor + floor % 2

/-- The integer nearest to `num / den`; halfway between two integers, the greater one. -/
def roundHalfUp (num den : Nat) : Nat := (2 * num + den) / (2 * den)

namespace Binary

variable {F : Format}

/-- The magnitude nearest to `num / den` units. With `q` the whole part, `k` is the step exponent
at `q`, and the rounded count of steps is added to the magnitude at which that step begins; a
count that rounds up to the next power of two lands on the first magnitude of the next step. -/
def nearestMagnitude (F : Format) (num den : Nat) : Nat :=
  let k := (num / den).log2 - F.fraction
  k * Nat.pow 2 F.fraction + roundHalfEven num (den * Nat.pow 2 k)

def nearest (F : Format) (negative : Bool) (num den : Nat) : Binary F :=
  ofMagnitude negative (nearestMagnitude F num den)

def ofInt (F : Format) (n : Int) : Binary F := nearest F (decide (n < 0)) (n.natAbs * F.one) 1

/-- The same value in another format, rounded if that format is coarser. -/
def convert (G : Format) (x : Binary F) : Binary G :=
  if x.isNaN then nan x.negative
  else if x.isInfinite then infinite x.negative
  else nearest G x.negative (x.units * G.one) F.one

/-- The sum. Opposite values cancel to the positive zero. -/
def add (x y : Binary F) : Binary F :=
  if x.isNaN || y.isNaN then nan false
  else if x.isInfinite then
    if y.isInfinite && x.negative != y.negative then nan false else x
  else if y.isInfinite then y
  else
    let sum := x.signedUnits + y.signedUnits
    if sum = 0 then zero (x.negative && y.negative)
    else nearest F (decide (sum < 0)) sum.natAbs 1

def mul (x y : Binary F) : Binary F :=
  let negative := x.negative != y.negative
  if x.isNaN || y.isNaN then nan false
  else if x.isInfinite || y.isInfinite then
    if x.isZero || y.isZero then nan false else infinite negative
  else nearest F negative (x.units * y.units) F.one

def div (x y : Binary F) : Binary F :=
  let negative := x.negative != y.negative
  if x.isNaN || y.isNaN then nan false
  else if x.isInfinite then if y.isInfinite then nan false else infinite negative
  else if y.isInfinite then zero negative
  else if y.isZero then if x.isZero then nan false else infinite negative
  else nearest F negative (x.units * F.one) y.units

instance : Add (Binary F) := ⟨add⟩
instance : Mul (Binary F) := ⟨mul⟩
instance : Div (Binary F) := ⟨div⟩

/-- The nearest whole number; halfway between two, the one farther from zero. The sign stays, so
that a small negative number becomes the negative zero. -/
def round (x : Binary F) : Binary F :=
  if x.isFinite then nearest F x.negative (roundHalfUp x.units F.one * F.one) 1 else x

end Binary

end StoryGraph
