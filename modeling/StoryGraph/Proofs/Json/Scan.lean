import StoryGraph.Json.Tree
import StoryGraph.Proofs.Json.Numeral

/-!
# Tokens that are written

Tokens that are spread over lines, or stand side by side, are found again by the scan, as long as no
two numbers follow each other. A text in quotes is read part by part; a control character is written
as a unit of 16 bits, which is never half of a pair.
-/

namespace StoryGraph.Json

/-! ### Strings -/

theorem joinParts?_unit {n : Nat} (hhigh : isHigh n = false) (hlow : isLow n = false)
    (parts : List Part) :
    joinParts? (.unit n :: parts) = (joinParts? parts).map (Char.ofNat n :: ·) := by
  cases parts with
  | nil => simp [joinParts?, hhigh, hlow]
  | cons part parts =>
      cases part with
      | char c => simp [joinParts?, hhigh, hlow]
      | unit m => simp [joinParts?, hhigh, hlow]

structure Part.Shows (part : Part) (c : Char) : Prop where
  read : ∀ rest, readParts? (escape c ++ rest) =
    (readParts? rest).map fun r => (part :: r.1, r.2)
  join : ∀ parts, joinParts? (part :: parts) = (joinParts? parts).map (c :: ·)

theorem readParts?_letter {letter c : Char} (hletter : letter ≠ 'u')
    (hc : unescape? letter = some c) (rest : List Char) :
    readParts? ('\\' :: letter :: rest) = (readParts? rest).map fun r => (.char c :: r.1, r.2) := by
  rw [readParts?]
  · rw [hc]
    cases readParts? rest <;> rfl
  · simp_all

theorem readParts?_plain {c : Char} (hquote : c ≠ '"') (hslash : c ≠ '\\')
    (hc : ¬c.toNat < 0x20) (rest : List Char) :
    readParts? (c :: rest) = (readParts? rest).map fun r => (.char c :: r.1, r.2) := by
  rw [readParts?, if_neg hc]
  · cases readParts? rest <;> rfl
  all_goals simp_all

theorem hexDigit?_digitChar : ∀ n < 16, hexDigit? (Nat.digitChar n) = some n := by decide

theorem readParts?_control {n : Nat} (hn : n < 0x20) (rest : List Char) :
    readParts? ('\\' :: 'u' :: '0' :: '0' :: Nat.digitChar (n / 16) :: Nat.digitChar (n % 16) ::
      rest) = (readParts? rest).map fun r => (.unit n :: r.1, r.2) := by
  have hhigh := hexDigit?_digitChar (n / 16) (by omega)
  have hlow := hexDigit?_digitChar (n % 16) (Nat.mod_lt _ (by decide))
  have hzero : hexDigit? '0' = some 0 := by decide
  have hunit : hexUnit? '0' '0' (Nat.digitChar (n / 16)) (Nat.digitChar (n % 16)) = some n := by
    simp only [hexUnit?, hzero, hhigh, hlow]
    change some (((0 * 16 + 0) * 16 + n / 16) * 16 + n % 16) = some n
    congr 1
    omega
  rw [readParts?, hunit]
  cases readParts? rest <;> rfl

/-- The three forms of a character inside quotes: a letter behind a backslash, a unit of 16 bits,
and itself. -/
theorem escape_cases (c : Char) :
    (∃ letter, letter ≠ 'u' ∧ unescape? letter = some c ∧ escape c = ['\\', letter]) ∨
      (c.toNat < 0x20 ∧ escape c =
        ['\\', 'u', '0', '0', Nat.digitChar (c.toNat / 16), Nat.digitChar (c.toNat % 16)]) ∨
      c ≠ '"' ∧ c ≠ '\\' ∧ ¬c.toNat < 0x20 ∧ escape c = [c] := by
  unfold escape
  split
  · exact .inl ⟨'"', by decide, rfl, rfl⟩
  · exact .inl ⟨'\\', by decide, rfl, rfl⟩
  · exact .inl ⟨'b', by decide, rfl, rfl⟩
  · exact .inl ⟨'f', by decide, rfl, rfl⟩
  · exact .inl ⟨'n', by decide, rfl, rfl⟩
  · exact .inl ⟨'r', by decide, rfl, rfl⟩
  · exact .inl ⟨'t', by decide, rfl, rfl⟩
  · rename_i hquote hslash _ _ _ _ _
    split_ifs with hc
    · exact .inr (.inl ⟨hc, rfl⟩)
    · exact .inr (.inr ⟨hquote, hslash, hc, rfl⟩)

/-- Every character is read as the character it is. -/
theorem exists_shows (c : Char) : ∃ part : Part, part.Shows c := by
  rcases escape_cases c with ⟨letter, hletter, hc, hescape⟩ | ⟨hc, hescape⟩ |
    ⟨hquote, hslash, hc, hescape⟩
  · refine ⟨.char c, ?_, fun _ => rfl⟩
    intro rest
    rw [hescape]
    exact readParts?_letter hletter hc rest
  · have hhigh : isHigh c.toNat = false := by simp [isHigh]; omega
    have hlow : isLow c.toNat = false := by simp [isLow]; omega
    refine ⟨.unit c.toNat, ?_, ?_⟩
    · intro rest
      rw [hescape]
      exact readParts?_control hc rest
    · intro parts
      rw [joinParts?_unit hhigh hlow, Char.ofNat_toNat]
  · refine ⟨.char c, ?_, fun _ => rfl⟩
    intro rest
    rw [hescape]
    exact readParts?_plain hquote hslash hc rest

/-- A text in quotes is read as it was written. -/
theorem readParts?_quoted (s rest : List Char) :
    ∃ parts, readParts? (s.flatMap escape ++ '"' :: rest) = some (parts, rest) ∧
      joinParts? parts = some s := by
  induction s with
  | nil => exact ⟨[], rfl, rfl⟩
  | cons c s ih =>
      obtain ⟨parts, hread, hjoin⟩ := ih
      obtain ⟨part, hpart⟩ := exists_shows c
      refine ⟨part :: parts, ?_, ?_⟩
      · rw [List.flatMap_cons, List.append_assoc, hpart.read, hread]
        rfl
      · rw [hpart.join, hjoin]
        rfl

/-! ### Tokens -/

namespace Token

/-- A token that is read as it is written. A string without a text is not, and its form is never
asked for. -/
def WellFormed : Token → Prop
  | .number n => n.WellFormed
  | .string s => s.isSome
  | _ => True

def IsNumber : Token → Prop
  | .number _ => True
  | _ => False

def EndsNumber (s : List Char) : Prop := ∀ c ∈ s.head?, isNumeralChar c = false

theorem next?_number {n : Numeral} (hn : n.WellFormed) {rest : List Char}
    (hrest : EndsNumber rest) : next? (n.chars ++ rest) = some (.number n, rest) := by
  have hend : rest.takeWhile isNumeralChar = [] ∧ rest.dropWhile isNumeralChar = rest := by
    cases rest with
    | nil => exact ⟨rfl, rfl⟩
    | cons c rest => simp [hrest c rfl]
  have hall : ∀ c ∈ n.chars, isNumeralChar c = true := fun c hc => isNumeralChar_of_mem hn hc
  have hne : n.chars ≠ [] := by
    intro h
    have hwhole := hn.whole.1
    simp [Numeral.chars, hwhole] at h
  have hread : (readNumeral? ((n.chars ++ rest).takeWhile isNumeralChar)).map
      (fun numeral => (Token.number numeral, (n.chars ++ rest).dropWhile isNumeralChar)) =
        some (.number n, rest) := by
    rw [List.takeWhile_append_of_pos hall, List.dropWhile_append_of_pos hall, hend.1, hend.2,
      List.append_nil, readNumeral?_chars hn]
    rfl
  obtain ⟨c, cs, hc⟩ := List.exists_cons_of_ne_nil hne
  have hfirst : isNumeralChar c = true := hall c (hc ▸ List.mem_cons_self)
  rw [hc, List.cons_append] at hread ⊢
  -- No other token starts with a character of numbers.
  unfold next?
  split
  case h_11 => exact hread
  all_goals
    rename_i heq
    obtain ⟨rfl, -⟩ := List.cons.inj heq
    exact absurd hfirst (by decide)

/-- A token is found where it is written. -/
theorem next?_chars {t : Token} (ht : t.WellFormed) {rest : List Char}
    (hrest : t.IsNumber → EndsNumber rest) : next? (t.chars ++ rest) = some (t, rest) := by
  cases t with
  | number n => exact next?_number ht (hrest trivial)
  | bool b => cases b <;> rfl
  | string s =>
      obtain ⟨text, rfl⟩ := Option.isSome_iff_exists.1 ht
      obtain ⟨parts, hread, hjoin⟩ := readParts?_quoted text.toList rest
      have hchars : (Token.string (some text)).chars ++ rest =
          '"' :: (text.toList.flatMap escape ++ '"' :: rest) := by
        change quote text ++ rest = _
        rw [quote, List.cons_append, List.append_assoc, List.singleton_append]
      rw [hchars, next?, hread]
      simp only [Option.map_some, hjoin, String.ofList_toList]
  | _ => rfl

theorem exists_chars_eq {t : Token} (ht : t.WellFormed) :
    ∃ c cs, t.chars = c :: cs ∧ isBlank c = false ∧ (¬t.IsNumber → isNumeralChar c = false) := by
  cases t with
  | number n =>
      have hne : n.chars ≠ [] := by
        intro h
        have hwhole := ht.whole.1
        simp [Numeral.chars, hwhole] at h
      obtain ⟨c, cs, hc⟩ := List.exists_cons_of_ne_nil hne
      have hfirst := isNumeralChar_of_mem ht (hc ▸ List.mem_cons_self)
      refine ⟨c, cs, hc, ?_, fun h => absurd trivial h⟩
      by_contra hblank
      rw [Bool.not_eq_false, isBlank] at hblank
      simp only [Bool.or_eq_true, beq_iff_eq] at hblank
      rcases hblank with ((rfl | rfl) | rfl) | rfl <;> exact absurd hfirst (by decide)
  | bool b => cases b <;> exact ⟨_, _, rfl, by decide, fun _ => by decide⟩
  | string s =>
      obtain ⟨text, rfl⟩ := Option.isSome_iff_exists.1 ht
      exact ⟨_, _, rfl, by decide, fun _ => by decide⟩
  | _ => exact ⟨_, _, rfl, by decide, fun _ => by decide⟩

end Token

/-! ### Splitting -/

section

variable {s s' cs rest : List Char} {c : Char} {t : Token} {ts : List Token}

theorem scan_of_nil (hs : s.dropWhile isBlank = []) : scan s = some [] := by
  rw [scan]
  split <;> simp_all

theorem scan_of_none (hs : s.dropWhile isBlank = c :: cs) (hnext : Token.next? (c :: cs) = none) :
    scan s = none := by
  rw [scan]
  split
  · simp_all
  · split <;> simp_all

theorem scan_of_some (hs : s.dropWhile isBlank = c :: cs)
    (hnext : Token.next? (c :: cs) = some (t, rest)) : scan s = (scan rest).map (t :: ·) := by
  rw [scan]
  split
  · simp_all
  · split <;> simp_all

theorem scan_congr (h : s.dropWhile isBlank = s'.dropWhile isBlank) : scan s = scan s' := by
  cases hs : s.dropWhile isBlank with
  | nil => rw [scan_of_nil hs, scan_of_nil (h.symm.trans hs)]
  | cons c cs =>
      have hs' := h.symm.trans hs
      cases hnext : Token.next? (c :: cs) with
      | none => rw [scan_of_none hs hnext, scan_of_none hs' hnext]
      | some r => rw [scan_of_some hs hnext, scan_of_some hs' hnext]

theorem scan_newLine (depth : Nat) (s : List Char) : scan (Tree.newLine depth ++ s) = scan s := by
  apply scan_congr
  apply List.dropWhile_append_of_pos
  intro c hc
  rcases List.mem_cons.1 hc with rfl | hc
  · decide
  · rw [List.eq_of_mem_replicate hc]
    decide

theorem scan_chars (ht : t.WellFormed) (hrest : t.IsNumber → Token.EndsNumber rest)
    (h : scan rest = some ts) : scan (t.chars ++ rest) = some (t :: ts) := by
  obtain ⟨c, cs, hc, hblank, -⟩ := Token.exists_chars_eq ht
  have hnext := Token.next?_chars ht hrest
  rw [hc, List.cons_append] at hnext ⊢
  rw [scan_of_some _ hnext, h, Option.map_some]
  rw [List.dropWhile_cons, if_neg (Bool.eq_false_iff.1 hblank)]

theorem scan_chars_newLine (ht : t.WellFormed) (hnumber : ¬t.IsNumber) {depth : Nat}
    (h : scan rest = some ts) : scan (t.chars ++ (Tree.newLine depth ++ rest)) = some (t :: ts) :=
  scan_chars ht (fun h => absurd h hnumber) ((scan_newLine depth rest).trans h)

/-- Tokens that can be told from each other: of two numbers in a row it could not be said where the
one ends. -/
structure Legible (ts : List Token) : Prop where
  wellFormed : ∀ t ∈ ts, t.WellFormed
  apart : ts.IsChain fun t u => ¬(t.IsNumber ∧ u.IsNumber)

theorem legible_nil : Legible [] := ⟨by simp, .nil⟩

theorem legible_cons_iff : Legible (t :: ts) ↔
    t.WellFormed ∧ (t.IsNumber → ∀ u ∈ ts.head?, ¬u.IsNumber) ∧ Legible ts := by
  constructor
  · rintro ⟨hwf, hapart⟩
    obtain ⟨hhead, hapart⟩ := List.isChain_cons.1 hapart
    exact ⟨hwf t List.mem_cons_self, fun ht u hu hnumber => hhead u hu ⟨ht, hnumber⟩,
      fun u hu => hwf u (List.mem_cons_of_mem t hu), hapart⟩
  · rintro ⟨ht, hhead, hwf, hapart⟩
    refine ⟨?_, List.isChain_cons.2 ⟨fun u hu h => hhead h.1 u hu h.2, hapart⟩⟩
    intro u hu
    rcases List.mem_cons.1 hu with rfl | hu
    · exact ht
    · exact hwf u hu

theorem Legible.tail (h : Legible (t :: ts)) : Legible ts := (legible_cons_iff.1 h).2.2

/-- What is spread over lines starts like its first token, or with a new line. -/
theorem endsNumber_spread (depth : Nat) (hts : ∀ t ∈ ts.head?, t.WellFormed ∧ ¬t.IsNumber) :
    Token.EndsNumber (Tree.spread depth ts) := by
  unfold Tree.spread
  split <;> intro c hc
  case h_9 t _ _ _ _ _ _ _ _ _ =>
    obtain ⟨ht, hnumber⟩ := hts t rfl
    obtain ⟨d, cs, hchars, -, hd⟩ := Token.exists_chars_eq ht
    rw [hchars] at hc
    obtain rfl := Option.some.inj hc
    exact hd hnumber
  case h_10 => cases hc
  all_goals
    obtain rfl := Option.some.inj hc
    decide

/-- Tokens that are spread over lines are found again. -/
theorem scan_spread (depth : Nat) (hts : Legible ts) : scan (Tree.spread depth ts) = some ts := by
  fun_induction Tree.spread depth ts with
  | case1 depth rest ih =>
      exact scan_chars (t := .openArray) trivial nofun
        (scan_chars (t := .closeArray) trivial nofun (ih hts.tail.tail))
  | case2 depth rest ih =>
      exact scan_chars (t := .openObject) trivial nofun
        (scan_chars (t := .closeObject) trivial nofun (ih hts.tail.tail))
  | case3 depth rest _ ih =>
      exact scan_chars_newLine (t := .openArray) trivial id (ih hts.tail)
  | case4 depth rest _ ih =>
      exact scan_chars_newLine (t := .openObject) trivial id (ih hts.tail)
  | case5 depth rest ih =>
      rw [scan_newLine]
      exact scan_chars (t := .closeArray) trivial nofun (ih hts.tail)
  | case6 depth rest ih =>
      rw [scan_newLine]
      exact scan_chars (t := .closeObject) trivial nofun (ih hts.tail)
  | case7 depth rest ih => exact scan_chars_newLine (t := .comma) trivial id (ih hts.tail)
  | case8 depth rest ih =>
      have hdrop : (' ' :: Tree.spread depth rest).dropWhile isBlank =
          (Tree.spread depth rest).dropWhile isBlank := rfl
      exact scan_chars (t := .colon) trivial nofun ((scan_congr hdrop).trans (ih hts.tail))
  | case9 depth t rest _ _ _ _ _ _ _ _ ih =>
      obtain ⟨ht, hhead, hrest⟩ := legible_cons_iff.1 hts
      refine scan_chars ht (fun hnumber => ?_) (ih hrest)
      apply endsNumber_spread
      intro u hu
      exact ⟨hrest.wellFormed u (List.mem_of_head? hu), hhead hnumber u hu⟩
  | case10 => exact scan_of_nil rfl

/-- Tokens that stand side by side are found again. -/
theorem scan_flatMap_chars (hts : Legible ts) : scan (ts.flatMap Token.chars) = some ts := by
  induction ts with
  | nil => exact scan_of_nil rfl
  | cons t ts ih =>
      obtain ⟨ht, hhead, hrest⟩ := legible_cons_iff.1 hts
      rw [List.flatMap_cons]
      refine scan_chars ht (fun hnumber => ?_) (ih hrest)
      cases ts with
      | nil => exact fun c hc => absurd hc (by simp)
      | cons u ts =>
          obtain ⟨d, cs, hchars, -, hd⟩ :=
            Token.exists_chars_eq (hrest.wellFormed u List.mem_cons_self)
          intro c hc
          rw [List.flatMap_cons, hchars] at hc
          obtain rfl := Option.some.inj hc
          exact hd (hhead hnumber u rfl)

end

end StoryGraph.Json
