import StoryGraph.Numeric.Reading
import StoryGraph.Proofs.Numeric.Rounding

/-!
# Numbers that are written for people

Whole numbers, truth values and floating point numbers are read as they were written, whatever the
layout. The two zeros and the infinities keep their sign. What is no number is written as a word,
and its bits are lost.
-/

namespace StoryGraph

/-! ### Whole numbers and truth values -/

theorem splitSign_digits {digits : List Char} (h : ∀ c ∈ digits, c.isDigit = true) :
    splitSign digits = (none, digits) := by
  unfold splitSign
  split
  · exact absurd (h '-' List.mem_cons_self) (by decide)
  · exact absurd (h '+' List.mem_cons_self) (by decide)
  · rfl

theorem readInt?_ofInt {n : Int} (h : FitsSigned n) :
    readInt? (Numeral.ofInt n).chars = some ⟨n, h⟩ := by
  obtain ⟨hne, hdigits⟩ := isDigits_toDigits n.natAbs
  have hall : (Nat.toDigits 10 n.natAbs).all Char.isDigit = true := List.all_eq_true.2 hdigits
  have hvalue : natOfDigits (Nat.toDigits 10 n.natAbs) = n.natAbs :=
    Nat.ofDigitChars_ten_toDigits
  rcases lt_or_ge n 0 with hneg | hpos
  · have hchars : (Numeral.ofInt n).chars = '-' :: Nat.toDigits 10 n.natAbs := by
      simp [Numeral.ofInt, Numeral.chars, hneg]
    have hn : -(n.natAbs : Int) = n := by omega
    rw [hchars, readInt?]
    simp only [splitSign, if_pos (And.intro hne hall), if_true, hvalue, hn]
    exact dif_pos h
  · have hchars : (Numeral.ofInt n).chars = Nat.toDigits 10 n.natAbs := by
      simp [Numeral.ofInt, Numeral.chars, hpos]
    have hn : (n.natAbs : Int) = n := by omega
    rw [hchars, readInt?, splitSign_digits hdigits]
    simp only [if_pos (And.intro hne hall), reduceCtorEq, if_false, hvalue, hn]
    exact dif_pos h

theorem readBool?_toString (b : Bool) : readBool? (toString b).toList = some b := by
  cases b <;> rfl

/-! ### Numerals -/

namespace Numeral

variable {n : Numeral}

/-- A numeral without a sign is read as the decimal that it names. -/
theorem readDecimal?_append (hn : n.WellFormed) :
    readDecimal? (n.whole ++ n.tail) = some n.decimal := by
  have hsome : ¬(n.whole = [] ∧ n.places = []) := fun h => hn.whole.1 h.1
  have hdecimal : (readExponent? (n.exponent.elim [] Exponent.chars)).map (fun e =>
      ({ negative := false, whole := n.whole, places := n.places, exponent := e } : Numeral).decimal)
        = some n.decimal := by
    rw [readExponent?_elim hn, Option.map_some]
    rfl
  rw [readDecimal?, splitDigits_append hn.whole.2 n.endsDigits_tail]
  by_cases hplaces : n.places = []
  · have htail : n.tail = n.exponent.elim [] Exponent.chars := by rw [tail, if_pos hplaces]; rfl
    rw [hplaces] at hdecimal hsome
    rw [htail, ← hdecimal]
    -- Behind the digits stands an exponent, or nothing.
    cases n.exponent with
    | none => exact if_neg hsome
    | some e => exact if_neg hsome
  · have htail : n.tail = '.' :: (n.places ++ n.exponent.elim [] Exponent.chars) := by
      rw [tail, if_neg hplaces]
      rfl
    rw [htail]
    simp only [splitDigits_append hn.places (endsDigits_exponent n.exponent)]
    rw [if_neg hsome, hdecimal]

theorem splitSign_chars (hn : n.WellFormed) :
    splitSign n.chars = (if n.negative then some '-' else none, n.whole ++ n.tail) := by
  rw [chars_eq]
  cases n.negative with
  | true => rfl
  | false =>
      obtain ⟨c, rest, hc⟩ := List.exists_cons_of_ne_nil hn.whole.1
      have hdigit := hn.whole.2 c (hc ▸ List.mem_cons_self)
      rw [hc]
      change splitSign (c :: (rest ++ n.tail)) = (none, c :: (rest ++ n.tail))
      unfold splitSign
      split
      · rename_i heq
        obtain ⟨rfl, -⟩ := List.cons.inj heq
        exact absurd hdigit (by decide)
      · rename_i heq
        obtain ⟨rfl, -⟩ := List.cons.inj heq
        exact absurd hdigit (by decide)
      · rfl

theorem readFloat?_chars (F : Format) (hn : n.WellFormed) :
    readFloat? F n.chars = some (n.decimal.toBinary F n.negative) := by
  rw [readFloat?, splitSign_chars hn]
  simp only [readDecimal?_append hn]
  cases n.negative <;> rfl

end Numeral

/-! ### Floating point numbers -/

namespace Layout

variable {F : Format} (l : Layout) (negative : Bool)

theorem natOfDigits_toDigits (n : Nat) : natOfDigits (Nat.toDigits 10 n) = n :=
  Nat.ofDigitChars_ten_toDigits

theorem natOfDigits_append_zeros (n k : Nat) :
    natOfDigits (Nat.toDigits 10 n ++ List.replicate k '0') = n * 10 ^ k := by
  rw [natOfDigits, Nat.ofDigitChars_append, Nat.ofDigitChars_ten_toDigits,
    Nat.ofDigitChars_replicate_zero, Nat.mul_comm]

theorem natOfDigits_zeros_append (n k : Nat) :
    natOfDigits (List.replicate k '0' ++ Nat.toDigits 10 n) = n := by
  rw [natOfDigits, Nat.ofDigitChars_append, Nat.ofDigitChars_replicate_zero, Nat.mul_zero,
    Nat.ofDigitChars_ten_toDigits]

/-- Digits with the point in its place name the decimal that they are laid out from. -/
theorem toBinary_positionalNumeral (d : Decimal) :
    (l.positionalNumeral negative d).decimal.toBinary F negative = d.toBinary F negative := by
  obtain ⟨digits, exponent⟩ := d
  unfold positionalNumeral
  by_cases hexp : 0 ≤ exponent
  · obtain ⟨k, rfl⟩ := Int.eq_ofNat_of_zero_le hexp
    simp only [if_pos hexp, Numeral.decimal, Int.toNat_natCast, Option.elim_none]
    cases l.point with
    | false =>
        rw [if_neg (by decide), List.append_nil, natOfDigits_append_zeros,
          Decimal.toBinary_mul_pow]
        congr 2
        simp
    | true =>
        rw [if_pos rfl, List.append_assoc, ← List.replicate_succ', natOfDigits_append_zeros,
          Decimal.toBinary_mul_pow]
        congr 2
        simp
  by_cases hwhole : 0 < (Nat.toDigits 10 digits).length + exponent
  · simp only [if_neg hexp, if_pos hwhole, Numeral.decimal, List.take_append_drop,
      natOfDigits_toDigits, List.length_drop, Option.elim_none]
    congr 2
    omega
  · simp only [if_neg hexp, if_neg hwhole, Numeral.decimal, ← List.append_assoc,
      List.singleton_append, ← List.replicate_succ, natOfDigits_zeros_append, List.length_append,
      List.length_replicate, Option.elim_none]
    congr 2
    omega

theorem value_exponent (e : Int) :
    Exponent.value ⟨if e < 0 then some '-' else if l.plus then some '+' else none,
      Nat.toDigits 10 e.natAbs⟩ = e := by
  rw [Exponent.value, natOfDigits_toDigits]
  by_cases he : e < 0
  · rw [if_pos he, if_pos rfl]
    omega
  · have hsign : ¬(if l.plus then some '+' else none) = some '-' := by
      cases l.plus <;> decide
    rw [if_neg he, if_neg hsign]
    omega

/-- One digit in front of the point and the power of ten name the decimal that they are laid out
from. -/
theorem decimal_exponentNumeral (d : Decimal) : (l.exponentNumeral negative d).decimal = d := by
  have hpos : 0 < (Nat.toDigits 10 d.digits).length := Nat.length_toDigits_pos
  rw [Numeral.decimal, exponentNumeral, List.take_append_drop, natOfDigits_toDigits,
    Option.elim_some, l.value_exponent, List.length_drop, Decimal.leading, digitCount]
  obtain ⟨digits, exponent⟩ := d
  congr 1
  dsimp only at hpos ⊢
  omega

theorem toBinary_decimalNumeral (d : Decimal) :
    (l.decimalNumeral negative d).decimal.toBinary F negative = d.toBinary F negative := by
  unfold decimalNumeral
  split
  · exact l.toBinary_positionalNumeral negative d
  · split_ifs
    · exact l.toBinary_positionalNumeral negative d
    · rw [decimal_exponentNumeral]

theorem negative_decimalNumeral (d : Decimal) :
    (l.decimalNumeral negative d).negative = negative := by
  have hpositional : (l.positionalNumeral negative d).negative = negative := by
    unfold positionalNumeral
    dsimp only
    split_ifs <;> rfl
  unfold decimalNumeral
  split
  · exact hpositional
  · split_ifs
    · exact hpositional
    · rfl

/-- A finite number is read as it was written. -/
theorem readFloat?_numeral (hF : F.Fine) {x : Binary F} (hx : x.isFinite = true) :
    readFloat? F (l.numeral x).chars = some x := by
  rw [Numeral.readFloat?_chars F (l.wellFormed_numeral x), numeral]
  split_ifs with hzero
  · have hx0 : x = .zero x.negative := Binary.ext rfl (of_decide_eq_true hzero)
    have hnegative : (l.positionalNumeral x.negative ⟨0, 0⟩).negative = x.negative := rfl
    rw [hnegative, toBinary_positionalNumeral, Decimal.toBinary, if_pos rfl, ← hx0]
  · rw [negative_decimalNumeral, toBinary_decimalNumeral]
    exact congrArg some (Binary.readsBack_shortest hF hx (Bool.not_eq_true _ ▸ hzero) l.tie)

/-- Every number is read as it was written. -/
theorem readFloat?_text (hF : F.Fine) {x : Binary F} (hx : x.isNaN = false) :
    readFloat? F (l.text x).toList = some x := by
  rw [text, hx, if_neg (by decide)]
  by_cases hinfinite : x.isInfinite = true
  · have hmagnitude : x.magnitude = F.infinity := of_decide_eq_true hinfinite
    rw [if_pos hinfinite]
    cases hnegative : x.negative with
    | false =>
        rw [if_neg (by decide), show x = .infinite false from Binary.ext hnegative hmagnitude]
        rfl
    | true =>
        rw [if_pos rfl, show x = .infinite true from Binary.ext hnegative hmagnitude]
        rfl
  · have hfinite : x.isFinite = true := by
      have hle : ¬F.infinity < x.magnitude := of_decide_eq_false hx
      have hne : x.magnitude ≠ F.infinity := fun h => hinfinite (decide_eq_true h)
      exact decide_eq_true (by omega)
    rw [if_neg hinfinite, String.toList_ofList]
    exact l.readFloat?_numeral hF hfinite

/-- What is no number is read as the plain one of that sort. -/
theorem readFloat?_text_of_isNaN {x : Binary F} (hx : x.isNaN = true) :
    readFloat? F (l.text x).toList = some (.nan false) := by
  rw [text, if_pos hx]
  rfl

end Layout

/-! ### What is no number -/

section notNumbers

variable {F : Format} {s : List Char} {x : Binary F}

theorem Binary.isNaN_infinite (negative : Bool) : (infinite negative : Binary F).isNaN = false :=
  decide_eq_false (lt_irrefl F.infinity)

theorem Binary.isNaN_nan (negative : Bool) : (nan negative : Binary F).isNaN = true :=
  decide_eq_true (Nat.lt_add_of_pos_right (Nat.two_pow_pos _))

theorem Binary.isNaN_ofMagnitude (negative : Bool) (magnitude : Nat) :
    (ofMagnitude negative magnitude : Binary F).isNaN = false := by
  unfold ofMagnitude
  split
  · rename_i h
    exact decide_eq_false (lt_asymm h)
  · exact isNaN_infinite negative

theorem Decimal.isNaN_toBinary (F : Format) (negative : Bool) (d : Decimal) :
    (d.toBinary F negative).isNaN = false := by
  unfold toBinary
  dsimp only
  split_ifs
  · exact decide_eq_false (Nat.not_lt_zero F.infinity)
  · exact Binary.isNaN_infinite negative
  · exact decide_eq_false (Nat.not_lt_zero F.infinity)
  · exact Binary.isNaN_ofMagnitude negative _

theorem eq_cons_of_splitSign (h : (splitSign s).1 = some '-') : s = '-' :: (splitSign s).2 := by
  unfold splitSign at h ⊢
  split at h
  · rfl
  · cases h
  · cases h

theorem toLower_eq_hyphen_iff {c : Char} : c.toLower = '-' ↔ c = '-' := by
  refine ⟨fun h => ?_, fun h => by rw [h]; rfl⟩
  have hletter : c.isAlpha = false := by rw [← Char.isAlpha_toLower_eq_isAlpha, h]; rfl
  have hupper : ¬c.isUpper = true := fun hupper => by simp [Char.isAlpha, hupper] at hletter
  rwa [Char.toLower_eq_of_not_isUpper hupper] at h

theorem readDecimal?_of_isAlpha {c : Char} (hc : c.isAlpha = true) (s : List Char) :
    readDecimal? (c :: s) = none := by
  have hdigit : ¬c.isDigit = true := by
    simp only [Char.isAlpha, Char.isUpper, Char.isLower, Char.isDigit] at hc ⊢
    grind
  have hpoint : ∀ rest, c :: s ≠ '.' :: rest := fun rest h => by
    obtain ⟨rfl, -⟩ := List.cons.inj h
    exact absurd hc (by decide)
  have hsplit : splitDigits (c :: s) = ([], c :: s) := by simp [splitDigits, hdigit]
  simp [readDecimal?, hsplit]

/-- What is read as no number is a word with or without a sign, and keeps nothing but the sign. -/
theorem eq_nan_of_readFloat? (h : readFloat? F s = some x) (hx : x.isNaN = true) :
    (splitSign s).2.map Char.toLower = "nan".toList ∧
      x = .nan (decide ((splitSign s).1 = some '-')) := by
  unfold readFloat? at h
  dsimp only at h
  split at h
  · obtain rfl := Option.some.inj h
    rw [Decimal.isNaN_toBinary] at hx
    cases hx
  · split_ifs at h with hword
    · refine ⟨?_, (Option.some.inj h).symm⟩
      rw [← hword, String.toList_ofList]
    · obtain rfl := Option.some.inj h
      rw [Binary.isNaN_infinite] at hx
      cases hx

/-- The word for what is no number is read with its sign. -/
theorem readFloat?_of_signed (h : s.map Char.toLower = "-nan".toList) :
    readFloat? F s = some (.nan true) := by
  obtain ⟨c, rest, rfl, hc, hrest⟩ := List.map_eq_cons_iff.1 h
  obtain rfl := toLower_eq_hyphen_iff.1 hc
  obtain ⟨n, tail, rfl, hn, -⟩ := List.map_eq_cons_iff.1 hrest
  have hletter : n.isAlpha = true := by rw [← Char.isAlpha_toLower_eq_isAlpha, hn]; rfl
  have hword : String.ofList ((n :: tail).map Char.toLower) = "nan" := by
    rw [hrest]
    rfl
  unfold readFloat?
  simp only [splitSign, readDecimal?_of_isAlpha hletter, if_pos hword, decide_true]

/-- Whatever is read has the bits that it is written with again, but for one word. -/
theorem plain_iff_of_readFloat? (h : readFloat? F s = some x) :
    (x.isNaN = true → x = .nan false) ↔ s.map Char.toLower ≠ "-nan".toList := by
  constructor
  · intro hplain hword
    obtain rfl := Option.some.inj (h.symm.trans (readFloat?_of_signed hword))
    have hsign : true = false := congrArg Binary.negative (hplain (Binary.isNaN_nan true))
    cases hsign
  · intro hword hx
    obtain ⟨hrest, hnan⟩ := eq_nan_of_readFloat? h hx
    have hsign : ¬(splitSign s).1 = some '-' := by
      intro hsign
      refine hword ?_
      rw [eq_cons_of_splitSign hsign, List.map_cons, hrest]
      rfl
    rwa [decide_eq_false hsign] at hnan

end notNumbers

end StoryGraph
