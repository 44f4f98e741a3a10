import StoryGraph.Numeric.Numeral

/-!
# The tokens of JSON

A text is split into tokens before its structure is looked at. A token that can be written in
several ways keeps what matters for its value: a number its numeral, a string its characters.

Escapes in a string stand for units of 16 bits, and two of them may stand for one character. A
string with half of such a pair on its own holds no text; its token says so by holding `none`, and
whether that is a fault is decided where the string is used.
-/

namespace StoryGraph.Json

inductive Token where
  | openObject
  | closeObject
  | openArray
  | closeArray
  | colon
  | comma
  | null
  | bool (value : Bool)
  | number (numeral : Numeral)
  | string (text : Option String)
deriving DecidableEq

/-! ### Numbers -/

/-- Reads a number: no leading zeros, digits on both sides of a point, no plus sign in front. -/
def readNumeral? (s : List Char) : Option Numeral :=
  let (negative, s) := match s with
    | '-' :: rest => (true, rest)
    | s => (false, s)
  let (whole, s) := splitDigits s
  if whole = [] ∨ (whole.head? = some '0' ∧ whole ≠ ['0']) then none
  else match s with
    | '.' :: s =>
      let (places, s) := splitDigits s
      if places = [] then none
      else (readExponent? s).map fun exponent => { negative, whole, places, exponent }
    | s => (readExponent? s).map fun exponent => { negative, whole, exponent }

/-- The characters that numbers consist of. Two numbers never touch, so the longest run of these
characters is one number or a fault. -/
def isNumeralChar (c : Char) : Bool :=
  c.isDigit || c == '-' || c == '+' || c == '.' || c == 'e' || c == 'E'

/-! ### Strings -/

/-- A part of a string: a character, or a unit of 16 bits given by its number. -/
inductive Part where
  | char (c : Char)
  | unit (n : Nat)
deriving DecidableEq

def hexDigit? (c : Char) : Option Nat :=
  if c.isDigit then some (c.toNat - '0'.toNat)
  else if 'a' ≤ c ∧ c ≤ 'f' then some (c.toNat - 'a'.toNat + 10)
  else if 'A' ≤ c ∧ c ≤ 'F' then some (c.toNat - 'A'.toNat + 10)
  else none

def hexUnit? (a b c d : Char) : Option Nat := do
  let a ← hexDigit? a
  let b ← hexDigit? b
  let c ← hexDigit? c
  let d ← hexDigit? d
  return ((a * 16 + b) * 16 + c) * 16 + d

def unescape? : Char → Option Char
  | '"' => some '"'
  | '\\' => some '\\'
  | '/' => some '/'
  | 'b' => some '\x08'
  | 'f' => some '\x0c'
  | 'n' => some '\n'
  | 'r' => some '\r'
  | 't' => some '\t'
  | _ => none

/-- The parts of a string up to its closing quote, and what follows the quote. Control characters
must be escaped. -/
def readParts? : List Char → Option (List Part × List Char)
  | [] => none
  | '"' :: rest => some ([], rest)
  | '\\' :: 'u' :: a :: b :: c :: d :: rest => do
    let n ← hexUnit? a b c d
    let (parts, rest) ← readParts? rest
    return (.unit n :: parts, rest)
  | '\\' :: letter :: rest => do
    let c ← unescape? letter
    let (parts, rest) ← readParts? rest
    return (.char c :: parts, rest)
  | c :: rest =>
    if c.toNat < 0x20 then none
    else do
      let (parts, rest) ← readParts? rest
      return (.char c :: parts, rest)

def isHigh (n : Nat) : Bool := decide (0xD800 ≤ n ∧ n < 0xDC00)

def isLow (n : Nat) : Bool := decide (0xDC00 ≤ n ∧ n < 0xE000)

/-- The characters that the parts stand for, unless half of a pair stands on its own. -/
def joinParts? : List Part → Option (List Char)
  | [] => some []
  | .char c :: rest => (joinParts? rest).map (c :: ·)
  | .unit high :: .unit low :: rest =>
    if isHigh high then
      if isLow low then
        let c := Char.ofNat (0x10000 + (high - 0xD800) * 0x400 + (low - 0xDC00))
        (joinParts? rest).map (c :: ·)
      else none
    else if isLow high then none
    else (joinParts? (.unit low :: rest)).map (Char.ofNat high :: ·)
  | .unit n :: rest =>
    if isHigh n || isLow n then none else (joinParts? rest).map (Char.ofNat n :: ·)

def escape (c : Char) : List Char :=
  match c with
  | '"' => ['\\', '"']
  | '\\' => ['\\', '\\']
  | '\x08' => ['\\', 'b']
  | '\x0c' => ['\\', 'f']
  | '\n' => ['\\', 'n']
  | '\r' => ['\\', 'r']
  | '\t' => ['\\', 't']
  | c =>
    if c.toNat < 0x20 then
      ['\\', 'u', '0', '0', Nat.digitChar (c.toNat / 16), Nat.digitChar (c.toNat % 16)]
    else [c]

def quote (s : String) : List Char := '"' :: (s.toList.flatMap escape ++ ['"'])

/-! ### Splitting a text -/

def isBlank (c : Char) : Bool := c == ' ' || c == '\t' || c == '\n' || c == '\r'

def Token.next? : List Char → Option (Token × List Char)
  | '{' :: rest => some (.openObject, rest)
  | '}' :: rest => some (.closeObject, rest)
  | '[' :: rest => some (.openArray, rest)
  | ']' :: rest => some (.closeArray, rest)
  | ':' :: rest => some (.colon, rest)
  | ',' :: rest => some (.comma, rest)
  | 'n' :: 'u' :: 'l' :: 'l' :: rest => some (.null, rest)
  | 't' :: 'r' :: 'u' :: 'e' :: rest => some (.bool true, rest)
  | 'f' :: 'a' :: 'l' :: 's' :: 'e' :: rest => some (.bool false, rest)
  | '"' :: rest =>
    (readParts? rest).map fun (parts, rest) =>
      (.string ((joinParts? parts).map String.ofList), rest)
  | s =>
    (readNumeral? (s.takeWhile isNumeralChar)).map fun numeral =>
      (.number numeral, s.dropWhile isNumeralChar)

theorem length_readParts? {s rest : List Char} {parts : List Part}
    (h : readParts? s = some (parts, rest)) : rest.length < s.length := by
  fun_induction readParts? s generalizing parts rest with
  | case1 => simp at h
  | case2 r => simp at h; simp [h.2]
  | case3 a b c d r ih =>
    simp only [bind, Option.bind_eq_some_iff, pure, Option.some.injEq] at h
    obtain ⟨_, -, ⟨p, r'⟩, hr, he⟩ := h
    cases he
    have := ih hr
    simp only [List.length_cons]
    omega
  | case4 letter r _ ih =>
    simp only [bind, Option.bind_eq_some_iff, pure, Option.some.injEq] at h
    obtain ⟨_, -, ⟨p, r'⟩, hr, he⟩ := h
    cases he
    have := ih hr
    simp only [List.length_cons]
    omega
  | case5 => simp at h
  | case6 c r _ _ _ _ ih =>
    simp only [bind, Option.bind_eq_some_iff, pure, Option.some.injEq] at h
    obtain ⟨⟨p, r'⟩, hr, he⟩ := h
    cases he
    have := ih hr
    simp only [List.length_cons]
    omega

theorem readNumeral?_nil : readNumeral? [] = none := by simp [readNumeral?, splitDigits]

theorem Token.length_next? {s rest : List Char} {t : Token} (h : Token.next? s = some (t, rest)) :
    rest.length < s.length := by
  unfold Token.next? at h
  split at h
  case h_10 r =>
    simp only [Option.map_eq_some_iff] at h
    obtain ⟨⟨parts, r'⟩, hr, he⟩ := h
    cases he
    have := length_readParts? hr
    simp only [List.length_cons]
    omega
  case h_11 =>
    simp only [Option.map_eq_some_iff] at h
    obtain ⟨numeral, hn, he⟩ := h
    cases he
    cases s with
    | nil => simp [readNumeral?_nil] at hn
    | cons c s =>
      by_cases hc : isNumeralChar c = true
      · have := (List.dropWhile_suffix isNumeralChar (l := s)).length_le
        simp only [List.dropWhile_cons, hc, if_true, List.length_cons]
        omega
      · simp [hc, readNumeral?_nil] at hn
  all_goals
    simp at h
    obtain ⟨-, rfl⟩ := h
    simp only [List.length_cons]
    omega

/-- The tokens of a text, if it consists of tokens and blanks only. -/
def scan (s : List Char) : Option (List Token) :=
  match _hs : s.dropWhile isBlank with
  | [] => some []
  | c :: rest =>
    match _h : Token.next? (c :: rest) with
    | none => none
    | some (t, rest') => (scan rest').map (t :: ·)
termination_by s.length
decreasing_by
  have h₁ := Token.length_next? _h
  have h₂ := (List.dropWhile_suffix isBlank (l := s)).length_le
  rw [_hs] at h₂
  omega

/-- The form in which a token is written. A string that holds no text is written as half of a
pair. -/
def Token.chars : Token → List Char
  | .openObject => ['{']
  | .closeObject => ['}']
  | .openArray => ['[']
  | .closeArray => [']']
  | .colon => [':']
  | .comma => [',']
  | .null => "null".toList
  | .bool true => "true".toList
  | .bool false => "false".toList
  | .number numeral => numeral.chars
  | .string (some text) => quote text
  | .string none => "\"\\ud800\"".toList

end StoryGraph.Json
