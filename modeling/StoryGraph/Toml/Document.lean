import StoryGraph.Table
import StoryGraph.Toml.Scalar

/-!
# TOML documents

A document is a table, which may hold further tables. Tables come about in four ways, and in which
way decides whether a later line may add to them: written out in braces, under a header of their
own, named on the way to another header, or named on the way to a key.

Only what settings are made of is kept: numbers, truth values and tables. Of all else it is known
that it is something else.
-/

namespace StoryGraph.Toml

inductive Origin where
  | inline
  | header
  /-- On the way to a header. A header may still name it. -/
  | implied
  /-- On the way to a key. Only keys may still add to it. -/
  | dotted
deriving DecidableEq

inductive Value where
  | integer (n : Int) (fits : FitsSigned n)
  | float (x : Double)
  | bool (b : Bool)
  | table (origin : Origin) (members : List (String × Value))
  /-- Tables under headers in double brackets. The last one is being filled. -/
  | tables (earlier : Nat) (last : List (String × Value))
  | other

abbrev Members := List (String × Value)

namespace Members

def get? (ms : Members) (key : String) : Option Value :=
  (ms.find? fun m => m.1 = key).map Prod.snd

/-- Changes the table that a path leads to, where keys make their way and headers theirs. The
change is told whether the table came about by a key. -/
def update (byKey : Bool) (change : Bool → Members → Option Members) :
    List String → Bool → Members → Option Members
  | [], dotted, ms => change dotted ms
  | k :: path, _, ms =>
    match get? ms k with
    | none =>
      (update byKey change path byKey []).map fun inner =>
        upsert k (.table (if byKey then .dotted else .implied) inner) ms
    | some (.table origin inner) =>
      if origin = .inline ∨ (byKey ∧ origin = .header) then none
      else (update byKey change path (decide (origin = .dotted)) inner).map fun inner =>
        upsert k (.table origin inner) ms
    | some (.tables earlier last) =>
      (update byKey change path false last).map fun last => upsert k (.tables earlier last) ms
    | some _ => none

/-- Adds a value under a key. A key of several parts leads to a table that came about by a key. -/
def add? (ms : Members) (path : List String) (key : String) (v : Value) : Option Members :=
  update true (fun dotted inner =>
    if dotted = path.isEmpty ∨ (get? inner key).isSome then none else some (upsert key v inner))
    path false ms

def addAll? (ms : Members) (pairs : List (List String × Value)) : Option Members :=
  pairs.foldlM (fun ms (path, v) => do add? ms path.dropLast (← path.getLast?) v) ms

end Members

/-! ### Values -/

def isScalarChar (c : Char) : Bool :=
  c.isAlphanum || c == '_' || c == '-' || c == '+' || c == '.' || c == ':'

/-- A scalar without quotes. Between a date and a time there may be a space. -/
def scalar? : Reader Value := fun s =>
  let word := s.takeWhile isScalarChar
  let rest := s.dropWhile isScalarChar
  if word = "true".toList then some (.bool true, rest)
  else if word = "false".toList then some (.bool false, rest)
  else match integer? word, float? word with
    | some ⟨n, h⟩, _ => some (.integer n h, rest)
    | none, some x => some (.float x, rest)
    | none, none =>
      if !isMoment word then none
      else match date? word, rest with
        | some [], ' ' :: c :: rest =>
          if c.isDigit then
            if (time? ((c :: rest).takeWhile isScalarChar)).any isOffset then
              some (.other, (c :: rest).dropWhile isScalarChar)
            else none
          else some (.other, ' ' :: c :: rest)
        | _, rest => some (.other, rest)

/-- What follows the items of an array and its bracket. Behind the last one there may be a comma. -/
def items? (item : Reader Value) : Nat → List Char → Option (List Char)
  | 0, _ => none
  | fuel + 1, s =>
    match skipGap false s with
    | ']' :: rest => some rest
    | s => do
      let (_, s) ← item s
      match skipGap false s with
      | ',' :: rest => items? item fuel rest
      | ']' :: rest => some rest
      | _ => none

def pair? (value : Reader Value) : Reader (List String × Value) := fun s => do
  let (key, s) ← key? depthLimit s
  match s with
  | '=' :: s => (value (skipBlanks s)).map fun (v, s) => ((key, v), s)
  | _ => none

def pairs? (value : Reader Value) : Nat → Reader (List (List String × Value))
  | 0, _ => none
  | fuel + 1, s => do
    let (pair, s) ← pair? value s
    match skipBlanks s with
    | ',' :: s => (pairs? value fuel s).map fun (pairs, s) => (pair :: pairs, s)
    | '}' :: s => return ([pair], s)
    | _ => none

/-- A value in which arrays and tables nest at most `depth` times. -/
def value? : Nat → Reader Value
  | depth, s =>
    match depth, s with
    | _, '"' :: '"' :: '"' :: rest => (skipBasic? rest).map fun rest => (.other, rest)
    | _, '"' :: rest => (basic? rest).map fun (_, rest) => (.other, rest)
    | _, '\'' :: '\'' :: '\'' :: rest => (skipLiteral? rest).map fun rest => (.other, rest)
    | _, '\'' :: rest => (literal? rest).map fun (_, rest) => (.other, rest)
    | 0, '[' :: _ => none
    | depth + 1, '[' :: rest => (items? (value? depth) s.length rest).map fun rest => (.other, rest)
    | 0, '{' :: _ => none
    | depth + 1, '{' :: rest =>
      match skipBlanks rest with
      | '}' :: rest => some (.table .inline [], rest)
      | _ => do
        let (pairs, rest) ← pairs? (value? depth) s.length rest
        let members ← Members.addAll? [] pairs
        return (.table .inline members, rest)
    | _, s => scalar? s

/-! ### Lines -/

inductive Line where
  | blank
  | pair (path : List String) (v : Value)
  | header (path : List String)
  /-- A header in double brackets, which stands for one more table. -/
  | another (path : List String)

def line? (s : List Char) : Option (Line × List Char) :=
  match skipBlanks s with
  | '[' :: '[' :: rest => do
    let (path, rest) ← key? depthLimit rest
    match rest with
    | ']' :: ']' :: rest => (lineEnd? rest).map fun rest => (.another path, rest)
    | _ => none
  | '[' :: rest => do
    let (path, rest) ← key? depthLimit rest
    match rest with
    | ']' :: rest => (lineEnd? rest).map fun rest => (.header path, rest)
    | _ => none
  | s =>
    match lineEnd? s with
    | some rest => some (.blank, rest)
    | none => do
      let ((path, v), rest) ← pair? (value? depthLimit) s
      (lineEnd? rest).map fun rest => (.pair path v, rest)

def lines? : Nat → List Char → Option (List Line)
  | 0, _ => none
  | _, [] => some []
  | fuel + 1, s => do
    let (line, rest) ← line? s
    return line :: (← lines? fuel rest)

namespace Members

/-- Changes the table under a name that was opened by a header. -/
def fill? (name : String) (change : Members → Option Members) (ms : Members) : Option Members :=
  match get? ms name with
  | some (.table origin inner) =>
    (change inner).map fun inner => upsert name (.table origin inner) ms
  | some (.tables earlier last) =>
    (change last).map fun last => upsert name (.tables earlier last) ms
  | _ => none

/-- Opens a table by a header. One that was named on the way to another header may be opened. -/
def open? (name : String) (ms : Members) : Option Members :=
  match get? ms name with
  | none => some (upsert name (.table .header []) ms)
  | some (.table .implied inner) => some (upsert name (.table .header inner) ms)
  | _ => none

def openAnother? (name : String) (ms : Members) : Option Members :=
  match get? ms name with
  | none => some (upsert name (.tables 0 []) ms)
  | some (.tables earlier _) => some (upsert name (.tables (earlier + 1) []) ms)
  | _ => none

def atHeader? (ms : Members) (path : List String)
    (change : String → Members → Option Members) : Option Members := do
  let name ← path.getLast?
  update false (fun _ => change name) path.dropLast false ms

end Members

/-- A document that is being read: its table, and the header under which keys are added. -/
structure Draft where
  members : Members := []
  header : List String := []

namespace Draft

def add? (d : Draft) : Line → Option Draft
  | .blank => some d
  | .pair path v =>
    let change (ms : Members) : Option Members := ms.addAll? [(path, v)]
    let members :=
      if d.header.isEmpty then change d.members
      else d.members.atHeader? d.header (Members.fill? · change)
    members.map fun members => { d with members }
  | .header path =>
    (d.members.atHeader? path Members.open?).map fun members =>
      { members, header := path }
  | .another path =>
    (d.members.atHeader? path Members.openAnother?).map fun members =>
      { members, header := path }

end Draft

/-- Reads a document. A byte order mark in front of it is passed over. -/
def read? (text : String) : Option Members := do
  let s := match text.toList with
    | '\ufeff' :: s => s
    | s => s
  let lines ← lines? (s.length + 1) s
  let d ← lines.foldlM Draft.add? {}
  return d.members

end StoryGraph.Toml
