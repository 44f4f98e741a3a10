/-!
# Binary floating point numbers

A number of a binary interchange format is its sign together with the rest of its bits read as
one natural number, the *magnitude*. The formats are laid out so that magnitudes order as the
absolute values do: zero is magnitude `0`, the least positive number is magnitude `1`, the
successor of a number is the next magnitude, and past the greatest finite number come infinity
and then the numbers that are no numbers. Rounding therefore becomes arithmetic on magnitudes.

Absolute values are counted in *units*, multiples of the least positive number of the format, so
that every finite number is an integer count of units and no fractions are needed.
-/

namespace StoryGraph

/-- A binary interchange format: how many bits hold the fraction and how many the exponent. One
further bit holds the sign. -/
structure Format where
  fraction : Nat
  exponent : Nat
  /-- The first fraction bit marks the quiet values that are no number. -/
  fraction_pos : 0 < fraction := by decide
deriving DecidableEq

namespace Format

def double : Format := { fraction := 52, exponent := 11 }

def single : Format := { fraction := 23, exponent := 8 }

/-- Magnitudes are below this number. -/
def magnitudes (F : Format) : Nat := Nat.pow 2 (F.exponent + F.fraction)

/-- The magnitude of infinity: all exponent bits set and no fraction bit. -/
def infinity (F : Format) : Nat := (Nat.pow 2 F.exponent - 1) * Nat.pow 2 F.fraction

/-- The number of units in one, as a power of two. -/
def unitShift (F : Format) : Nat := Nat.pow 2 (F.exponent - 1) + F.fraction - 2

def one (F : Format) : Nat := Nat.pow 2 F.unitShift

/-- The magnitude of the plain value that is no number: infinity with the first fraction bit. -/
def quiet (F : Format) : Nat := F.infinity + Nat.pow 2 (F.fraction - 1)

theorem quiet_lt_magnitudes (F : Format) : F.quiet < F.magnitudes := by
  have hp := Nat.two_pow_pred_add_two_pow_pred F.fraction_pos
  have h := Nat.two_pow_pos (F.fraction - 1)
  obtain ⟨k, hk⟩ := Nat.exists_eq_add_one_of_ne_zero (Nat.ne_of_gt (Nat.two_pow_pos F.exponent))
  rw [quiet, magnitudes, infinity]
  simp only [Nat.pow_eq]
  rw [Nat.pow_add, hk, Nat.add_sub_cancel, Nat.add_mul, Nat.one_mul, ← hp]
  exact Nat.add_lt_add_left (Nat.lt_add_of_pos_right h) _

theorem infinity_lt_magnitudes (F : Format) : F.infinity < F.magnitudes :=
  Nat.lt_of_le_of_lt (Nat.le_add_right _ _) F.quiet_lt_magnitudes

end Format

/-- A number of the format `F`, kept bit for bit: two values are equal exactly when their bits
are, so the two zeros differ and a number that is no number equals itself. The comparison that
arithmetic uses is `Binary.same`. -/
structure Binary (F : Format) where
  negative : Bool
  magnitude : Nat
  magnitude_lt : magnitude < F.magnitudes
deriving DecidableEq

abbrev Double := Binary .double

abbrev Single := Binary .single

namespace Binary

variable {F : Format}

@[ext] theorem ext {x y : Binary F} (hn : x.negative = y.negative)
    (hm : x.magnitude = y.magnitude) : x = y := by
  cases x; cases y; simp_all

def zero (negative : Bool) : Binary F := ⟨negative, 0, Nat.two_pow_pos _⟩

def infinite (negative : Bool) : Binary F := ⟨negative, F.infinity, F.infinity_lt_magnitudes⟩

instance : Inhabited (Binary F) := ⟨zero false⟩

/-- The number with the given sign and magnitude, or infinity if the magnitude is too great to
belong to a finite number. -/
def ofMagnitude (negative : Bool) (magnitude : Nat) : Binary F :=
  if h : magnitude < F.infinity then
    ⟨negative, magnitude, Nat.lt_trans h F.infinity_lt_magnitudes⟩
  else infinite negative

def nan (negative : Bool) : Binary F := ⟨negative, F.quiet, F.quiet_lt_magnitudes⟩

def isNaN (x : Binary F) : Bool := decide (F.infinity < x.magnitude)

def isInfinite (x : Binary F) : Bool := decide (x.magnitude = F.infinity)

def isFinite (x : Binary F) : Bool := decide (x.magnitude < F.infinity)

def isZero (x : Binary F) : Bool := decide (x.magnitude = 0)

def neg (x : Binary F) : Binary F := { x with negative := !x.negative }

instance : Neg (Binary F) := ⟨neg⟩

/-- The exponent of the unit step at a magnitude: neighbouring magnitudes there are
`2 ^ step` units apart. The lowest two exponents share the step of one unit. -/
def step (F : Format) (magnitude : Nat) : Nat := magnitude / Nat.pow 2 F.fraction - 1

/-- The absolute value of a finite number, in units. -/
def units (x : Binary F) : Nat :=
  (x.magnitude - step F x.magnitude * Nat.pow 2 F.fraction) * Nat.pow 2 (step F x.magnitude)

def signedUnits (x : Binary F) : Int := if x.negative then -(x.units : Int) else x.units

/-- The position of a value on the number line, as an integer that orders values as their
magnitudes do. Both zeros stand at `0`. -/
def place (x : Binary F) : Int := if x.negative then -(x.magnitude : Int) else x.magnitude

/-- Equality of numbers: the zeros are the same number, and what is no number is not even the
same as itself. -/
def same (x y : Binary F) : Bool := !x.isNaN && !y.isNaN && decide (x.place = y.place)

def lessOrSame (x y : Binary F) : Bool := !x.isNaN && !y.isNaN && decide (x.place ≤ y.place)

theorem same_self_iff {x : Binary F} : x.same x = true ↔ x.isNaN = false := by
  simp [same]

theorem same_comm (x y : Binary F) : x.same y = y.same x := by
  simp only [same, eq_comm, Bool.and_comm (!x.isNaN)]

end Binary

end StoryGraph
