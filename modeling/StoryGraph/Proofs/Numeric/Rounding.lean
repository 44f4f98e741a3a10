import StoryGraph.Proofs.Json.Numeral

/-!
# What rounding depends on

The number nearest to a fraction depends on the value of the fraction alone, and so does the number
that a decimal is read as: a zero may be moved from the digits into the power of ten
(`Decimal.toBinary_mul_pow`). A number is nearest to itself (`Binary.nearest_units`), so a number of
the 64 bit format is read back from its exact value, and from the fewest digits that identify it.
-/

namespace StoryGraph

/-! ### Fractions -/

theorem roundHalfEven_mul_right (num den : Nat) {c : Nat} (hc : 0 < c) :
    roundHalfEven (num * c) (den * c) = roundHalfEven num den := by
  have hcompare : compare (2 * (num * c % (den * c))) (den * c) =
      compare (2 * (num % den)) den := by
    rw [Nat.mul_mod_mul_right, ← Nat.mul_assoc]
    rcases Nat.lt_trichotomy (2 * (num % den)) den with h | h | h
    · rw [Nat.compare_eq_lt.2 h, Nat.compare_eq_lt.2 (Nat.mul_lt_mul_of_pos_right h hc)]
    · rw [h, Nat.compare_eq_eq.2 rfl, Nat.compare_eq_eq.2 rfl]
    · rw [Nat.compare_eq_gt.2 h, Nat.compare_eq_gt.2 (Nat.mul_lt_mul_of_pos_right h hc)]
  rw [roundHalfEven, roundHalfEven, hcompare, Nat.mul_div_mul_right _ _ hc]

theorem roundHalfEven_mul_self (n : Nat) {den : Nat} (hden : 0 < den) :
    roundHalfEven (n * den) den = n := by
  rw [roundHalfEven, Nat.mul_mod_left, Nat.mul_div_left n hden]
  rw [Nat.compare_eq_lt.2 (by omega)]

namespace Binary

variable {F : Format}

theorem nearest_mul_right (negative : Bool) (num den : Nat) {c : Nat} (hc : 0 < c) :
    nearest F negative (num * c) (den * c) = nearest F negative num den := by
  have hmagnitude : nearestMagnitude F (num * c) (den * c) = nearestMagnitude F num den := by
    simp only [nearestMagnitude, Nat.mul_div_mul_right _ _ hc]
    rw [Nat.mul_right_comm, roundHalfEven_mul_right _ _ hc]
  rw [nearest, nearest, hmagnitude]

/-- The step of a number can be told from its units. -/
theorem log2_units (x : Binary F) :
    x.units.log2 - F.fraction = step F x.magnitude := by
  obtain ⟨negative, m, hm⟩ := x
  have hpos : 0 < 2 ^ F.fraction := Nat.two_pow_pos _
  have hdiv := Nat.div_add_mod m (2 ^ F.fraction)
  have hmod := Nat.mod_lt m hpos
  simp only [units, step, Nat.pow_eq]
  rcases Nat.lt_or_ge (m / 2 ^ F.fraction) 2 with hlow | hhigh
  · have hstep : m / 2 ^ F.fraction - 1 = 0 := by omega
    have hlt : m < 2 ^ (F.fraction + 1) := by
      rw [Nat.pow_succ, Nat.mul_comm]
      exact (Nat.div_lt_iff_lt_mul hpos).1 hlow
    rw [hstep, Nat.zero_mul, Nat.sub_zero, Nat.pow_zero, Nat.mul_one]
    rcases Nat.eq_zero_or_pos m with rfl | hm
    · simp
    · have := (Nat.log2_lt hm.ne').2 hlt
      omega
  · generalize hs : m / 2 ^ F.fraction - 1 = s at *
    have hq : m / 2 ^ F.fraction = s + 1 := by omega
    have hrest : m - s * 2 ^ F.fraction = 2 ^ F.fraction + m % 2 ^ F.fraction := by
      rw [hq, Nat.mul_comm, Nat.add_mul] at hdiv
      omega
    have hlog : ((m - s * 2 ^ F.fraction) * 2 ^ s).log2 = F.fraction + s := by
      have hne : (m - s * 2 ^ F.fraction) * 2 ^ s ≠ 0 := by
        rw [hrest]
        exact (Nat.mul_pos (by omega) (Nat.two_pow_pos s)).ne'
      rw [Nat.log2_eq_iff hne, hrest]
      constructor
      · rw [Nat.pow_add]
        exact Nat.mul_le_mul_right _ (by omega)
      · rw [Nat.add_right_comm, Nat.pow_add, Nat.pow_succ]
        exact Nat.mul_lt_mul_of_pos_right (by omega) (Nat.two_pow_pos s)
    rw [hlog]
    omega

theorem step_mul_le (x : Binary F) :
    step F x.magnitude * Nat.pow 2 F.fraction ≤ x.magnitude := by
  rw [step, Nat.sub_mul]
  exact (Nat.sub_le _ _).trans (Nat.div_mul_le_self _ _)

/-- A finite number is nearest to itself. -/
theorem nearest_units {x : Binary F} (hx : x.isFinite = true) :
    nearest F x.negative x.units 1 = x := by
  have hmagnitude : nearestMagnitude F x.units 1 = x.magnitude := by
    have hpos : 0 < Nat.pow 2 (step F x.magnitude) := Nat.two_pow_pos _
    simp only [nearestMagnitude, Nat.div_one, Nat.one_mul, log2_units]
    rw [units, roundHalfEven_mul_self _ hpos]
    exact Nat.add_sub_cancel' x.step_mul_le
  rw [nearest, hmagnitude, ofMagnitude, dif_pos (of_decide_eq_true hx)]

end Binary

/-! ### Decimals -/

theorem digitCount_le_iff {n k : Nat} (hk : 0 < k) : digitCount n ≤ k ↔ n < 10 ^ k :=
  Nat.length_toDigits_le_iff (by decide) hk

theorem digitCount_mul_ten {n : Nat} (hn : 0 < n) : digitCount (n * 10) = digitCount n + 1 := by
  rw [digitCount, Nat.toDigits_eq_if (by decide), if_neg (by omega), List.length_append,
    Nat.mul_div_left n (by decide)]
  rfl

namespace Decimal

variable (F : Format) (negative : Bool)

/-- A zero at the end of the digits may be left out. -/
theorem toBinary_mul_ten (digits : Nat) (exponent : Int) :
    toBinary F negative ⟨digits * 10, exponent⟩ = toBinary F negative ⟨digits, exponent + 1⟩ := by
  rcases Nat.eq_zero_or_pos digits with rfl | hpos
  · rfl
  have hleading : leading ⟨digits * 10, exponent⟩ = leading ⟨digits, exponent + 1⟩ := by
    simp only [leading, digitCount_mul_ten hpos]
    omega
  have hzero : digits * 10 ≠ 0 := by omega
  simp only [toBinary, hleading, if_neg hzero, if_neg hpos.ne', Nat.pow_eq]
  congr 2
  rcases lt_or_ge exponent 0 with hneg | hneg
  · obtain ⟨k, rfl⟩ : ∃ k : Nat, exponent = -(k + 1 : Nat) := ⟨(-exponent - 1).toNat, by omega⟩
    have htop : (-((k + 1 : Nat) : Int)).toNat = 0 := by omega
    have htop' : (-((k + 1 : Nat) : Int) + 1).toNat = 0 := by omega
    have hbottom : (-(-((k + 1 : Nat) : Int))).toNat = k + 1 := by omega
    have hbottom' : (-(-((k + 1 : Nat) : Int) + 1)).toNat = k := by omega
    rw [htop, htop', hbottom, hbottom', Nat.pow_zero, Nat.mul_one, Nat.mul_one, Nat.pow_succ,
      Nat.mul_right_comm, Binary.nearest_mul_right _ _ _ (by decide)]
  · obtain ⟨k, rfl⟩ := Int.eq_ofNat_of_zero_le hneg
    have htop : ((k : Int) + 1).toNat = k + 1 := by omega
    have hbottom : (-(k : Int)).toNat = 0 := by omega
    have hbottom' : (-((k : Int) + 1)).toNat = 0 := by omega
    rw [htop, hbottom, hbottom', Int.toNat_natCast, Nat.pow_succ, Nat.mul_assoc digits,
      Nat.mul_comm 10]

/-- Zeros at the end of the digits may be left out. -/
theorem toBinary_mul_pow (digits k : Nat) (exponent : Int) :
    toBinary F negative ⟨digits * 10 ^ k, exponent⟩ =
      toBinary F negative ⟨digits, exponent + k⟩ := by
  induction k generalizing exponent with
  | zero => simp
  | succ k ih =>
      rw [Nat.pow_succ, ← Nat.mul_assoc, toBinary_mul_ten, ih]
      congr 2
      push_cast
      omega

theorem toBinary_normalize (d : Decimal) :
    toBinary F negative d.normalize = toBinary F negative d := by
  induction d using normalize.induct with
  | case1 d hzero ih =>
      obtain ⟨digits, exponent⟩ := d
      rw [normalize, if_pos hzero, ih, ← toBinary_mul_ten]
      congr 2
      exact Nat.div_mul_cancel (Nat.dvd_of_mod_eq_zero hzero.2)
  | case2 d hzero => rw [normalize, if_neg hzero]

end Decimal

namespace Format

/-- The units of a format are small, but within its reach, so that every finite number is read back
from its exact value. -/
structure Fine (F : Format) : Prop where
  fraction_le : F.fraction ≤ F.unitShift
  le_reach : F.unitShift ≤ Nat.pow 2 F.exponent

theorem fine_double : double.Fine := ⟨by decide, by decide⟩

end Format

namespace Binary

variable {F : Format}

theorem units_lt {x : Binary F} (hx : x.isFinite = true) :
    x.units < 2 ^ (F.fraction + Nat.pow 2 F.exponent) := by
  have hm : x.magnitude < F.infinity := of_decide_eq_true hx
  have hpos : 0 < 2 ^ F.fraction := Nat.two_pow_pos _
  have hstep : x.magnitude / 2 ^ F.fraction < 2 ^ F.exponent - 1 :=
    (Nat.div_lt_iff_lt_mul hpos).2 hm
  have hcount : x.magnitude - step F x.magnitude * 2 ^ F.fraction < 2 ^ (F.fraction + 1) := by
    have hdiv := Nat.div_add_mod' x.magnitude (2 ^ F.fraction)
    have hmod := Nat.mod_lt x.magnitude hpos
    rw [step, Nat.pow_eq, Nat.sub_mul, Nat.pow_succ]
    omega
  have hexponent : F.fraction + 1 + step F x.magnitude ≤ F.fraction + Nat.pow 2 F.exponent := by
    rw [step, Nat.pow_eq, Nat.pow_eq]
    generalize x.magnitude / 2 ^ F.fraction = q at hstep
    omega
  calc x.units < 2 ^ (F.fraction + 1) * 2 ^ step F x.magnitude :=
        Nat.mul_lt_mul_of_pos_right hcount (Nat.two_pow_pos _)
    _ = 2 ^ (F.fraction + 1 + step F x.magnitude) := (Nat.pow_add ..).symm
    _ ≤ 2 ^ (F.fraction + Nat.pow 2 F.exponent) :=
        Nat.pow_le_pow_right (by decide) hexponent

/-- The first digit of the exact value is within reach. -/
theorem leading_exact (hF : F.Fine) {x : Binary F} (hx : x.isFinite = true) :
    -(Nat.pow 2 F.exponent : Int) ≤ x.exact.leading ∧
      x.exact.leading < (Nat.pow 2 F.exponent : Int) := by
  obtain ⟨hfraction, hreach⟩ := hF
  have hpos : 0 < Nat.pow 2 F.exponent := Nat.two_pow_pos _
  have hcount : digitCount x.exact.digits ≤ F.unitShift + Nat.pow 2 F.exponent := by
    rw [digitCount_le_iff (by omega)]
    calc x.units * 5 ^ F.unitShift
        < 2 ^ (F.fraction + Nat.pow 2 F.exponent) * 5 ^ F.unitShift :=
          Nat.mul_lt_mul_of_pos_right (units_lt hx) (Nat.pow_pos (by decide))
      _ ≤ 2 ^ (F.unitShift + Nat.pow 2 F.exponent) * 5 ^ (F.unitShift + Nat.pow 2 F.exponent) :=
          Nat.mul_le_mul (Nat.pow_le_pow_right (by decide) (by omega))
            (Nat.pow_le_pow_right (by decide) (by omega))
      _ = 10 ^ (F.unitShift + Nat.pow 2 F.exponent) := (Nat.mul_pow 2 5 _).symm
  have hlow : 0 < digitCount x.exact.digits := Nat.length_toDigits_pos
  have hexponent : x.exact.exponent = -F.unitShift := rfl
  rw [Decimal.leading, hexponent]
  omega

/-- A finite number is read back from its exact value. -/
theorem readsBack_exact (hF : F.Fine) {x : Binary F} (hx : x.isFinite = true)
    (hzero : x.isZero = false) : x.ReadsBack x.exact := by
  obtain ⟨hlow, hhigh⟩ := leading_exact hF hx
  have hdigits : x.exact.digits ≠ 0 :=
    (Nat.mul_pos (units_pos hzero) (Nat.pow_pos (by decide))).ne'
  have hone : 0 < 10 ^ F.unitShift := Nat.pow_pos (by decide)
  rw [ReadsBack, Decimal.toBinary]
  simp only [if_neg hdigits, if_neg (not_le.2 hhigh), if_neg (not_lt.2 hlow)]
  have hnum : x.exact.digits * Nat.pow 10 x.exact.exponent.toNat * F.one =
      x.units * 10 ^ F.unitShift := by
    have hexponent : x.exact.exponent.toNat = 0 := by simp [exact]
    rw [hexponent, Format.one, exact, Nat.pow_eq, Nat.pow_eq, Nat.pow_eq, Nat.pow_zero,
      Nat.mul_one, Nat.mul_assoc, ← Nat.mul_pow]
  have hden : Nat.pow 10 (-x.exact.exponent).toNat = 1 * 10 ^ F.unitShift := by
    simp [exact]
  rw [hnum, hden, nearest_mul_right _ _ _ hone, nearest_units hx]

/-- The fewest digits that identify a number are read as that number. -/
theorem readsBack_shortest (hF : F.Fine) {x : Binary F} (hx : x.isFinite = true)
    (hzero : x.isZero = false) (tie : Tie) : x.ReadsBack (x.shortest tie) := by
  rw [ReadsBack, shortest, Decimal.toBinary_normalize]
  cases hfound : (List.range 17).findSome? fun n =>
      x.onGrid? tie (scale x.units F.one - (n + 1 : Nat)) with
  | none => exact readsBack_exact hF hx hzero
  | some d =>
      obtain ⟨n, -, hn⟩ := List.exists_of_findSome?_eq_some hfound
      have hd := List.find?_some (p := fun d => decide (x.ReadsBack d)) hn
      exact of_decide_eq_true hd

end Binary

end StoryGraph
