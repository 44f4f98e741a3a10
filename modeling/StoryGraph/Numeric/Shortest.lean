import StoryGraph.Numeric.Decimal

/-!
# The fewest digits that identify a number

Among all decimals that round to a given binary number, the one to write is one with the fewest
digits, and of those the nearest. A grid of decimals with `n` digits around the number has one
neighbour of it on either side; the coarsest grid with a neighbour that reads back settles the
matter. Reading back is tested by reading, so what is written is never more than a search away
from what `Decimal.toBinary` understands.
-/

namespace StoryGraph

inductive Tie where
  | greater
  | even
deriving DecidableEq

namespace Binary

variable {F : Format}

/-- Whether a decimal, with the sign of the number, is read as this number. -/
def ReadsBack (x : Binary F) (d : Decimal) : Prop := d.toBinary F x.negative = x

instance (x : Binary F) (d : Decimal) : Decidable (x.ReadsBack d) :=
  inferInstanceAs (Decidable (_ = _))

/-- The exact value of a finite number as a decimal: a power of two in the denominator becomes a
power of ten when the digits are multiplied by as many fives. -/
def exact (x : Binary F) : Decimal := ⟨x.units * Nat.pow 5 F.unitShift, -F.unitShift⟩

/-- The least `k` with `num / den < 10 ^ k`, for a positive fraction: the place just above its
first digit. -/
def scale (num den : Nat) : Int :=
  if den ≤ num then digitCount (num / den) else 1 - digitCount ((den - 1) / num)

/-- Whether the whole number above `num / den` is to be preferred to the one below. -/
def prefersAbove (tie : Tie) (num den : Nat) : Bool :=
  match compare (2 * (num % den)) den with
  | .lt => false
  | .gt => true
  | .eq => match tie with
    | .greater => true
    | .even => num / den % 2 == 1

/-- The neighbour of the number on the grid of multiples of `10 ^ exponent` that reads back, the
nearer one if both do. -/
def onGrid? (tie : Tie) (x : Binary F) (exponent : Int) : Option Decimal :=
  let num := x.units * Nat.pow 10 (-exponent).toNat
  let den := F.one * Nat.pow 10 exponent.toNat
  let below : Decimal := ⟨num / den, exponent⟩
  let above : Decimal := ⟨num / den + 1, exponent⟩
  let candidates := if prefersAbove tie num den then [above, below] else [below, above]
  candidates.find? fun d => decide (x.ReadsBack d)

/-- The fewest digits that read back as the given finite positive or negative number. Seventeen
digits tell any two numbers of the supported formats apart; the exact value stands behind them. -/
def shortest (tie : Tie) (x : Binary F) : Decimal :=
  let k := scale x.units F.one
  let found := (List.range 17).findSome? fun n => x.onGrid? tie (k - (n + 1 : Nat))
  (found.getD x.exact).normalize

end Binary

end StoryGraph
