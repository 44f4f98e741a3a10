import StoryGraph.Json.Token

/-!
# The characters of TOML

Blanks, comments, the ends of lines, texts in quotes, and keys. Control characters are refused
wherever they stand; a carriage return stands only in front of a line feed.
-/

namespace StoryGraph.Toml

/-- Reads from the start of a text. The answer holds what follows. -/
abbrev Reader (α : Type) := List Char → Option (α × List Char)

def isBlank (c : Char) : Bool := c == ' ' || c == '\t'

def isPlain (c : Char) : Bool := c == '\t' || (0x20 ≤ c.toNat && c.toNat != 0x7f)

def isBare (c : Char) : Bool := c.isAlphanum || c == '_' || c == '-'

def skipBlanks (s : List Char) : List Char := s.dropWhile isBlank

def newline? : List Char → Option (List Char)
  | '\n' :: rest => some rest
  | '\r' :: '\n' :: rest => some rest
  | _ => none

def lineEnd? (s : List Char) : Option (List Char) :=
  let s := match skipBlanks s with
    | '#' :: rest => rest.dropWhile isPlain
    | s => s
  if s = [] then some [] else newline? s

/-- What follows blanks, ends of lines and comments, of which one may have begun. -/
def skipGap (comment : Bool) : List Char → List Char
  | [] => []
  | '\n' :: rest => skipGap false rest
  | '\r' :: '\n' :: rest => skipGap false rest
  | c :: rest =>
    if comment && isPlain c then skipGap true rest
    else if !comment && isBlank c then skipGap false rest
    else if !comment && c == '#' then skipGap true rest
    else c :: rest

/-! ### Texts in quotes -/

def charOf? (n : Nat) : Option Char := if n.isValidChar then some (Char.ofNat n) else none

def unescape? (letter : Char) : Option Char :=
  if letter = '/' then none else Json.unescape? letter

/-- The text up to a quotation mark, in which escapes are read. -/
def basic? : Reader (List Char)
  | [] => none
  | '"' :: rest => some ([], rest)
  | '\\' :: 'u' :: a :: b :: c :: d :: rest => do
    let c ← Json.hexUnit? a b c d >>= charOf?
    let (text, rest) ← basic? rest
    return (c :: text, rest)
  | '\\' :: 'U' :: a :: b :: c :: d :: e :: f :: g :: h :: rest => do
    let high ← Json.hexUnit? a b c d
    let low ← Json.hexUnit? e f g h
    let c ← charOf? (high * 0x10000 + low)
    let (text, rest) ← basic? rest
    return (c :: text, rest)
  | '\\' :: letter :: rest => do
    let c ← unescape? letter
    let (text, rest) ← basic? rest
    return (c :: text, rest)
  | c :: rest =>
    if isPlain c then (basic? rest).map fun (text, rest) => (c :: text, rest) else none

def literal? : Reader (List Char)
  | [] => none
  | '\'' :: rest => some ([], rest)
  | c :: rest =>
    if isPlain c then (literal? rest).map fun (text, rest) => (c :: text, rest) else none

/-- What follows a text of several lines up to three quotation marks. Up to two more of them belong
to the text. A backslash at the end of a line is allowed. -/
def skipBasic? : List Char → Option (List Char)
  | [] => none
  | '"' :: '"' :: '"' :: '"' :: '"' :: rest => some rest
  | '"' :: '"' :: '"' :: '"' :: rest => some rest
  | '"' :: '"' :: '"' :: rest => some rest
  | '\n' :: rest => skipBasic? rest
  | '\r' :: '\n' :: rest => skipBasic? rest
  | '\\' :: 'u' :: a :: b :: c :: d :: rest =>
    if (Json.hexUnit? a b c d >>= charOf?).isSome then skipBasic? rest else none
  | '\\' :: 'U' :: a :: b :: c :: d :: e :: f :: g :: h :: rest => do
    let high ← Json.hexUnit? a b c d
    let low ← Json.hexUnit? e f g h
    if (charOf? (high * 0x10000 + low)).isSome then skipBasic? rest else none
  | '\\' :: c :: rest =>
    if (unescape? c).isSome then skipBasic? rest
    else if (newline? (skipBlanks (c :: rest))).isSome then skipBasic? (c :: rest)
    else none
  | c :: rest => if isPlain c then skipBasic? rest else none

/-- What follows a text of several lines up to three apostrophes. Up to two more of them belong to
the text. -/
def skipLiteral? : List Char → Option (List Char)
  | [] => none
  | '\'' :: '\'' :: '\'' :: '\'' :: '\'' :: rest => some rest
  | '\'' :: '\'' :: '\'' :: '\'' :: rest => some rest
  | '\'' :: '\'' :: '\'' :: rest => some rest
  | '\n' :: rest => skipLiteral? rest
  | '\r' :: '\n' :: rest => skipLiteral? rest
  | c :: rest => if isPlain c then skipLiteral? rest else none

/-! ### Keys -/

def simpleKey? : Reader String
  | '"' :: rest => (basic? rest).map fun (text, rest) => (String.ofList text, rest)
  | '\'' :: rest => (literal? rest).map fun (text, rest) => (String.ofList text, rest)
  | s =>
    if (s.takeWhile isBare).isEmpty then none
    else some (String.ofList (s.takeWhile isBare), s.dropWhile isBare)

/-- How deeply arrays and tables may nest, and how many parts a key may have. -/
def depthLimit : Nat := 79

def key? : Nat → Reader (List String)
  | 0, _ => none
  | parts + 1, s => do
    let (k, s) ← simpleKey? (skipBlanks s)
    match skipBlanks s with
    | '.' :: s => (key? parts s).map fun (ks, s) => (k :: ks, s)
    | s => return ([k], s)

end StoryGraph.Toml
