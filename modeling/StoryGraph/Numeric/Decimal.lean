import StoryGraph.Numeric.Rounding

/-!
# Decimals

A decimal is a natural number of digits scaled by a power of ten. Reading one as a binary number
rounds its exact value once; the value of `Decimal.toBinary` depends on nothing else, so trailing
zeros and the place of the point do not matter.
-/

namespace StoryGraph

/-- The number `digits * 10 ^ exponent`. -/
structure Decimal where
  digits : Nat
  exponent : Int
deriving DecidableEq

/-- How many decimal digits a number has; zero has one. -/
def digitCount (n : Nat) : Nat := (Nat.toDigits 10 n).length

namespace Decimal

/-- The power of ten of the first digit. -/
def leading (d : Decimal) : Int := d.exponent + digitCount d.digits - 1

/-- The binary number nearest to the decimal, with the given sign.

A decimal whose first digit stands beyond `2 ^ F.exponent` places in either direction is out of
the reach of the format, which ends near `2 ^ (2 ^ (F.exponent - 1))`. It is answered without
computing the power of ten, so that an exponent of any size is read at once. -/
def toBinary (F : Format) (negative : Bool) (d : Decimal) : Binary F :=
  let reach : Int := Nat.pow 2 F.exponent
  if d.digits = 0 then .zero negative
  else if reach ≤ d.leading then .infinite negative
  else if d.leading < -reach then .zero negative
  else .nearest F negative (d.digits * Nat.pow 10 d.exponent.toNat * F.one)
    (Nat.pow 10 (-d.exponent).toNat)

def normalize (d : Decimal) : Decimal :=
  if 0 < d.digits ∧ d.digits % 10 = 0 then normalize ⟨d.digits / 10, d.exponent + 1⟩ else d
termination_by d.digits
decreasing_by exact Nat.div_lt_self (by omega) (by decide)

end Decimal

end StoryGraph
