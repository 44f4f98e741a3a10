import Mathlib
import StoryGraph.Json.Number
import StoryGraph.Json.Token

/-!
# Numerals that are written

A layout writes a finite number as a numeral that a document can hold: digits on both sides of the
point, and no leading zero. Such a numeral is read as it was written. Whole numbers are read as the
number they were as well, whatever their size.
-/

namespace StoryGraph

def IsDigits (s : List Char) : Prop := s ≠ [] ∧ ∀ c ∈ s, c.isDigit = true

theorem isDigits_toDigits (n : Nat) : IsDigits (Nat.toDigits 10 n) :=
  ⟨Nat.toDigits_ne_nil, fun _ hc => Nat.isDigit_of_mem_toDigits (by decide) (by decide) hc⟩

theorem head?_toDigits {n : Nat} (hn : 0 < n) : (Nat.toDigits 10 n).head? ≠ some '0' := by
  induction n using Nat.strongRecOn with
  | ind n ih =>
      rw [Nat.toDigits_eq_if (by decide)]
      split_ifs with hlt
      · rw [List.head?_cons, ne_eq, Option.some.injEq, Nat.digitChar_eq_zero]
        exact hn.ne'
      · rw [List.head?_append_of_ne_nil _ Nat.toDigits_ne_nil]
        exact ih (n / 10) (Nat.div_lt_self hn (by decide)) (Nat.div_pos (not_lt.1 hlt) (by decide))

def EndsDigits (s : List Char) : Prop := ∀ c ∈ s.head?, c.isDigit = false

theorem splitDigits_append {digits s : List Char} (hdigits : ∀ c ∈ digits, c.isDigit = true)
    (hs : EndsDigits s) : splitDigits (digits ++ s) = (digits, s) := by
  have hend : s.takeWhile Char.isDigit = [] ∧ s.dropWhile Char.isDigit = s := by
    cases s with
    | nil => exact ⟨rfl, rfl⟩
    | cons c s => simp [hs c rfl]
  rw [splitDigits, List.takeWhile_append_of_pos hdigits, List.dropWhile_append_of_pos hdigits,
    hend.1, hend.2, List.append_nil]

namespace Exponent

structure WellFormed (e : Exponent) : Prop where
  sign : e.sign = none ∨ e.sign = some '-' ∨ e.sign = some '+'
  digits : IsDigits e.digits

variable {e : Exponent}

theorem splitSign_append (he : e.WellFormed) :
    splitSign (e.sign.toList ++ e.digits) = (e.sign, e.digits) := by
  obtain ⟨sign, digits⟩ := e
  obtain ⟨hsign, hne, hdigits⟩ := he
  rcases hsign with rfl | rfl | rfl
  · cases digits with
    | nil => exact absurd rfl hne
    | cons c rest =>
        have hc := hdigits c List.mem_cons_self
        change splitSign (c :: rest) = (none, c :: rest)
        unfold splitSign
        split
        · simp_all
        · simp_all
        · rfl
  · rfl
  · rfl

theorem readExponent?_chars (he : e.WellFormed) : readExponent? e.chars = some (some e) := by
  rw [chars, readExponent?, splitSign_append he]
  simp only [true_or, true_and]
  rw [if_pos ⟨he.digits.1, List.all_eq_true.2 he.digits.2⟩]

end Exponent

namespace Numeral

structure WellFormed (n : Numeral) : Prop where
  whole : IsDigits n.whole
  leading : n.whole.head? = some '0' → n.whole = ['0']
  places : ∀ c ∈ n.places, c.isDigit = true
  exponent : ∀ e ∈ n.exponent, e.WellFormed

variable {n : Numeral}

theorem endsDigits_exponent (e : Option Exponent) : EndsDigits (e.elim [] Exponent.chars) := by
  cases e with
  | none => simp [EndsDigits]
  | some e => simp [EndsDigits, Exponent.chars]

theorem readExponent?_elim (hn : n.WellFormed) :
    readExponent? (n.exponent.elim [] Exponent.chars) = some n.exponent := by
  cases h : n.exponent with
  | none => rfl
  | some e => exact Exponent.readExponent?_chars (hn.exponent e h)

def tail (n : Numeral) : List Char :=
  (if n.places = [] then [] else '.' :: n.places) ++ n.exponent.elim [] Exponent.chars

theorem chars_eq (n : Numeral) :
    n.chars = (if n.negative then ['-'] else []) ++ (n.whole ++ n.tail) := by
  rw [chars, tail, List.append_assoc, List.append_assoc]

theorem endsDigits_tail (n : Numeral) : EndsDigits n.tail := by
  rw [tail]
  split_ifs
  · exact endsDigits_exponent n.exponent
  · simp [EndsDigits]

theorem ne_minus_of_isDigit {c : Char} (hc : c.isDigit = true) : c ≠ '-' := by
  rintro rfl
  exact absurd hc (by decide)

end Numeral

namespace Json

open Numeral

variable {n : Numeral}

def readUnsigned? (negative : Bool) (s : List Char) : Option Numeral :=
  let (whole, s) := splitDigits s
  if whole = [] ∨ (whole.head? = some '0' ∧ whole ≠ ['0']) then none
  else match s with
    | '.' :: s =>
      let (places, s) := splitDigits s
      if places = [] then none
      else (readExponent? s).map fun exponent => { negative, whole, places, exponent }
    | s => (readExponent? s).map fun exponent => { negative, whole, exponent }

theorem readNumeral?_unsigned {c : Char} (hc : c ≠ '-') (s : List Char) :
    readNumeral? (c :: s) = readUnsigned? false (c :: s) := by
  unfold readNumeral? readUnsigned?
  split
  rename_i heq
  split at heq
  · simp_all
  · obtain ⟨rfl, rfl⟩ := Prod.mk.inj heq
    rfl

theorem readUnsigned?_append (hn : n.WellFormed) :
    readUnsigned? n.negative (n.whole ++ n.tail) = some n := by
  have hwhole : ¬(n.whole = [] ∨ n.whole.head? = some '0' ∧ n.whole ≠ ['0']) := by
    rintro (h | ⟨hzero, hne⟩)
    · exact hn.whole.1 h
    · exact hne (hn.leading hzero)
  rw [readUnsigned?, splitDigits_append hn.whole.2 n.endsDigits_tail]
  simp only [if_neg hwhole]
  by_cases hplaces : n.places = []
  · have htail : n.tail = n.exponent.elim [] Exponent.chars := by rw [tail, if_pos hplaces]; rfl
    rw [htail]
    split
    · rename_i s hs
      cases hexp : n.exponent with
      | none => simp [hexp] at hs
      | some e => simp [hexp, Exponent.chars] at hs
    · rw [readExponent?_elim hn, Option.map_some, ← hplaces]
  · have htail : n.tail = '.' :: (n.places ++ n.exponent.elim [] Exponent.chars) := by
      rw [tail, if_neg hplaces]
      rfl
    rw [htail]
    simp only [splitDigits_append hn.places (endsDigits_exponent n.exponent), if_neg hplaces,
      readExponent?_elim hn, Option.map_some]

/-- A numeral is read as it was written. -/
theorem readNumeral?_chars (hn : n.WellFormed) : readNumeral? n.chars = some n := by
  rw [chars_eq]
  cases hneg : n.negative with
  | true =>
      rw [← readUnsigned?_append hn, hneg]
      rfl
  | false =>
      rw [← readUnsigned?_append hn, hneg]
      obtain ⟨c, rest, hc⟩ := List.exists_cons_of_ne_nil hn.whole.1
      have hminus := ne_minus_of_isDigit (hn.whole.2 c (hc ▸ List.mem_cons_self))
      rw [hc]
      exact readNumeral?_unsigned hminus _

theorem isNumeralChar_of_isDigit {c : Char} (hc : c.isDigit = true) : isNumeralChar c = true := by
  simp [isNumeralChar, hc]

theorem isNumeralChar_of_mem (hn : n.WellFormed) {c : Char} (hc : c ∈ n.chars) :
    isNumeralChar c = true := by
  rw [chars_eq, List.mem_append, List.mem_append, tail, List.mem_append] at hc
  rcases hc with hc | hc | hc | hc
  · split_ifs at hc
    · obtain rfl := List.mem_singleton.1 hc
      decide
    · cases hc
  · exact isNumeralChar_of_isDigit (hn.whole.2 c hc)
  · split_ifs at hc
    · cases hc
    · rcases List.mem_cons.1 hc with rfl | hc
      · decide
      · exact isNumeralChar_of_isDigit (hn.places c hc)
  · cases hexp : n.exponent with
    | none => simp [hexp] at hc
    | some e =>
        obtain ⟨hsign, -, hdigits⟩ := hn.exponent e hexp
        rw [hexp, Option.elim_some, Exponent.chars, List.mem_cons, List.mem_append] at hc
        rcases hc with rfl | hc | hc
        · decide
        · rcases hsign with h | h | h <;> rw [h] at hc
          · cases hc
          · obtain rfl := List.mem_singleton.1 hc
            decide
          · obtain rfl := List.mem_singleton.1 hc
            decide
        · exact isNumeralChar_of_isDigit (hdigits c hc)

end Json

/-! ### What is written -/

namespace Decimal

/-- Without trailing zeros a number that is not zero stays so. -/
theorem digits_normalize_pos {d : Decimal} (hd : 0 < d.digits) : 0 < d.normalize.digits := by
  induction d using normalize.induct with
  | case1 d hzero ih =>
      rw [normalize, if_pos hzero]
      have : 0 < d.digits / 10 := by omega
      exact ih this
  | case2 d hzero =>
      rw [normalize, if_neg hzero]
      exact hd

end Decimal

namespace Binary

variable {F : Format} {x : Binary F}

theorem units_pos (hx : x.isZero = false) : 0 < x.units := by
  have hmag : 0 < x.magnitude := Nat.pos_of_ne_zero (of_decide_eq_false hx)
  have hstep : step F x.magnitude * Nat.pow 2 F.fraction < x.magnitude := by
    have hpos : 0 < Nat.pow 2 F.fraction := Nat.two_pow_pos _
    rw [step, Nat.sub_mul, Nat.one_mul]
    have hle := Nat.div_mul_le_self x.magnitude (Nat.pow 2 F.fraction)
    omega
  exact Nat.mul_pos (Nat.sub_pos_of_lt hstep) (Nat.two_pow_pos _)

/-- Only a zero reads back from no digits. -/
theorem digits_pos_of_readsBack (hx : x.isZero = false) {d : Decimal} (hd : x.ReadsBack d) :
    0 < d.digits := by
  apply Nat.pos_of_ne_zero
  intro hzero
  rw [ReadsBack, Decimal.toBinary] at hd
  simp only [hzero, if_true] at hd
  rw [← hd] at hx
  exact absurd hx (by simp [isZero, zero])

theorem digits_shortest_pos (hx : x.isZero = false) (tie : Tie) : 0 < (x.shortest tie).digits := by
  apply Decimal.digits_normalize_pos
  cases hfound : (List.range 17).findSome? fun n =>
      x.onGrid? tie (scale x.units F.one - (n + 1 : Nat)) with
  | none => exact Nat.mul_pos (units_pos hx) (Nat.pow_pos (by decide))
  | some d =>
      obtain ⟨n, -, hn⟩ := List.exists_of_findSome?_eq_some hfound
      have hd := List.find?_some (p := fun d => decide (x.ReadsBack d)) hn
      exact digits_pos_of_readsBack hx (of_decide_eq_true hd)

end Binary

namespace Layout

open Numeral

variable {d : Decimal}

theorem isDigit_zeros {k : Nat} {c : Char} (hc : c ∈ List.replicate k '0') : c.isDigit = true := by
  rw [List.eq_of_mem_replicate hc]
  decide

theorem wellFormed_positionalNumeral (l : Layout) (negative : Bool) (hd : 0 < d.digits) :
    (l.positionalNumeral negative d).WellFormed := by
  obtain ⟨hne, hdigits⟩ := isDigits_toDigits d.digits
  have hhead := head?_toDigits hd
  unfold positionalNumeral
  by_cases hexp : 0 ≤ d.exponent
  · simp only [if_pos hexp]
    refine ⟨⟨by simp [hne], ?_⟩, ?_, ?_, by simp⟩
    · intro c hc
      rcases List.mem_append.1 hc with hc | hc
      · exact hdigits c hc
      · exact isDigit_zeros hc
    · intro h
      rw [List.head?_append_of_ne_nil _ hne] at h
      exact absurd h hhead
    · intro c hc
      dsimp only at hc
      split_ifs at hc
      · obtain rfl := List.mem_singleton.1 hc
        decide
      · cases hc
  simp only [if_neg hexp]
  by_cases hwhole : 0 < (Nat.toDigits 10 d.digits).length + d.exponent
  · simp only [if_pos hwhole]
    refine ⟨⟨?_, fun c hc => hdigits c (List.mem_of_mem_take hc)⟩, ?_,
      fun c hc => hdigits c (List.mem_of_mem_drop hc), by simp⟩
    · rw [ne_eq, List.take_eq_nil_iff]
      rintro (h | h)
      · omega
      · exact hne h
    · intro h
      rw [List.head?_take, if_neg (by omega)] at h
      exact absurd h hhead
  · simp only [if_neg hwhole]
    refine ⟨⟨by simp, by simp⟩, fun _ => rfl, ?_, by simp⟩
    intro c hc
    rcases List.mem_append.1 hc with hc | hc
    · exact isDigit_zeros hc
    · exact hdigits c hc

theorem wellFormed_zero (l : Layout) (negative : Bool) :
    (l.positionalNumeral negative ⟨0, 0⟩).WellFormed := by
  obtain ⟨positional, point, plus, tie⟩ := l
  refine ⟨⟨by simp [positionalNumeral], by simp [positionalNumeral]⟩, fun _ => rfl, ?_,
    by simp [positionalNumeral]⟩
  cases point <;> simp [positionalNumeral]

theorem wellFormed_exponentNumeral (l : Layout) (negative : Bool) (hd : 0 < d.digits) :
    (l.exponentNumeral negative d).WellFormed := by
  obtain ⟨hne, hdigits⟩ := isDigits_toDigits d.digits
  refine ⟨⟨by simp [exponentNumeral, hne], fun c hc => hdigits c (List.mem_of_mem_take hc)⟩, ?_,
    fun c hc => hdigits c (List.mem_of_mem_drop hc), ?_⟩
  · intro h
    rw [exponentNumeral, List.head?_take, if_neg (by decide)] at h
    exact absurd h (head?_toDigits hd)
  · intro e he
    obtain rfl := Option.some.inj he
    refine ⟨?_, isDigits_toDigits _⟩
    dsimp only
    split_ifs <;> simp

theorem wellFormed_decimalNumeral (l : Layout) (negative : Bool) (hd : 0 < d.digits) :
    (l.decimalNumeral negative d).WellFormed := by
  unfold decimalNumeral
  split
  · exact wellFormed_positionalNumeral l negative hd
  · split_ifs
    · exact wellFormed_positionalNumeral l negative hd
    · exact wellFormed_exponentNumeral l negative hd

/-- Every layout writes numerals that a document can hold. -/
theorem wellFormed_numeral {F : Format} (l : Layout) (x : Binary F) : (l.numeral x).WellFormed := by
  rw [numeral]
  split_ifs with hx
  · exact wellFormed_zero l x.negative
  · exact wellFormed_decimalNumeral l x.negative
      (Binary.digits_shortest_pos (Bool.not_eq_true _ ▸ hx) l.tie)

end Layout

/-! ### Whole numbers -/

theorem Numeral.wellFormed_ofInt (n : Int) : (Numeral.ofInt n).WellFormed := by
  refine ⟨isDigits_toDigits n.natAbs, ?_, by simp [ofInt], by simp [ofInt]⟩
  intro h
  rcases Nat.eq_zero_or_pos n.natAbs with hzero | hpos
  · rw [ofInt, hzero]
    rfl
  · exact absurd h (head?_toDigits hpos)

namespace Json.Number

theorem wellFormed_numeral (n : Number) : n.numeral.WellFormed := by
  cases n with
  | whole n h => exact Numeral.wellFormed_ofInt n
  | real x h => exact Layout.wellFormed_numeral layout x

/-- Digits whose number fits are all read. -/
theorem gather_eq {n : Nat} {s : List Char}
    (h : Nat.ofDigitChars 10 s n < 0x10000000000000000) :
    gather n s = (Nat.ofDigitChars 10 s n, []) := by
  induction s generalizing n with
  | nil => rfl
  | cons c s ih =>
      rw [Nat.ofDigitChars_cons, Nat.mul_comm 10 n] at h ⊢
      have hle : n * 10 + (c.toNat - '0'.toNat) < 0x10000000000000000 := by
        refine lt_of_le_of_lt ?_ h
        rw [Nat.ofDigitChars_eq_ofDigitChars_zero]
        exact le_add_right (Nat.le_mul_of_pos_left _ (Nat.pow_pos (by decide)))
      rw [gather]
      simp only [if_pos hle]
      exact ih h

/-- A number that is written is read as the same number. -/
def ReadsBack (n : Number) : Prop := ofNumeral? n.numeral = some n

/-- Whole numbers are read as they were. -/
theorem readsBack_whole {n : Int} (h : IsWhole n) : (whole n h).ReadsBack := by
  have hnat : n.natAbs < 0x10000000000000000 := by
    obtain ⟨hlow, hhigh⟩ := h
    omega
  have hgather : gather 0 (Nat.toDigits 10 n.natAbs) = (n.natAbs, []) := by
    have hvalue := Nat.ofDigitChars_ten_toDigits (n := n.natAbs)
    rw [gather_eq (by rw [hvalue]; exact hnat), hvalue]
  have hwhole : (if decide (n < 0) = true then -(n.natAbs : Int) else n.natAbs) = n := by
    split_ifs with hneg
    · have := of_decide_eq_true hneg
      omega
    · have : ¬n < 0 := fun hlt => hneg (decide_eq_true hlt)
      omega
  have hnegative : ¬(decide (n < 0) = true ∧ n = 0) := by
    rintro ⟨hneg, rfl⟩
    exact absurd hneg (by decide)
  rw [ReadsBack, numeral, ofNumeral?, Numeral.ofInt, hgather]
  simp only [hwhole]
  exact dif_pos ⟨⟨trivial, trivial, trivial, hnegative⟩, h⟩

end Json.Number

end StoryGraph
