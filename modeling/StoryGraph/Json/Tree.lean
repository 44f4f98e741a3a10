import StoryGraph.Json.Token

/-!
# JSON documents

A tree is a document as it is written: the members of an object stand in their order and may
repeat a name. The tokens of a tree and the tree of a token list undo each other; the reader keeps
the containers that are still open on a stack and takes one token at a time, so a document may
nest as deeply as it likes.

There are two ways to put a tree into a text, without blanks and with one item on each line.
-/

namespace StoryGraph.Json

inductive Tree where
  | null
  | bool (value : Bool)
  | number (numeral : Numeral)
  | string (text : Option String)
  | array (items : List Tree)
  | object (members : List (Option String × Tree))

namespace Tree

def text (s : String) : Tree := .string (some s)

/-! ### Writing -/

mutual

def tokens : Tree → List Token
  | .null => [.null]
  | .bool b => [.bool b]
  | .number n => [.number n]
  | .string s => [.string s]
  | .array items => .openArray :: (itemTokens items ++ [.closeArray])
  | .object members => .openObject :: (memberTokens members ++ [.closeObject])

def itemTokens : List Tree → List Token
  | [] => []
  | [t] => t.tokens
  | t :: rest => t.tokens ++ .comma :: itemTokens rest

def memberTokens : List (Option String × Tree) → List Token
  | [] => []
  | [(name, t)] => .string name :: .colon :: t.tokens
  | (name, t) :: rest => .string name :: .colon :: (t.tokens ++ .comma :: memberTokens rest)

end

def compact (t : Tree) : String := String.ofList (t.tokens.flatMap Token.chars)

def newLine (depth : Nat) : List Char := '\n' :: List.replicate (2 * depth) ' '

/-- The text of the tokens, from the given depth on, with each item of a container on a line of
its own. An empty container stays on its line. -/
def spread (depth : Nat) : List Token → List Char
  | .openArray :: .closeArray :: rest => '[' :: ']' :: spread depth rest
  | .openObject :: .closeObject :: rest => '\x7b' :: '\x7d' :: spread depth rest
  | .openArray :: rest => '[' :: (newLine (depth + 1) ++ spread (depth + 1) rest)
  | .openObject :: rest => '\x7b' :: (newLine (depth + 1) ++ spread (depth + 1) rest)
  | .closeArray :: rest => newLine (depth - 1) ++ ']' :: spread (depth - 1) rest
  | .closeObject :: rest => newLine (depth - 1) ++ '\x7d' :: spread (depth - 1) rest
  | .comma :: rest => ',' :: (newLine depth ++ spread depth rest)
  | .colon :: rest => ':' :: ' ' :: spread depth rest
  | t :: rest => t.chars ++ spread depth rest
  | [] => []

def pretty (t : Tree) : String := String.ofList (spread 0 t.tokens)

/-! ### Reading -/

/-- A container that is still open: what it holds so far, the latest first, and in an object the
name whose value comes next. -/
inductive Frame where
  | array (items : List Tree)
  | object (members : List (Option String × Tree))
  | member (members : List (Option String × Tree)) (name : Option String)

inductive Spot where
  | value
  | itemOrClose
  | name
  | nameOrClose
  | colon (name : Option String)
  | done (t : Tree)

def startValue (stack : List Frame) : Token → Option (Spot × List Frame)
  | .null => some (.done .null, stack)
  | .bool b => some (.done (.bool b), stack)
  | .number n => some (.done (.number n), stack)
  | .string s => some (.done (.string s), stack)
  | .openArray => some (.itemOrClose, .array [] :: stack)
  | .openObject => some (.nameOrClose, .object [] :: stack)
  | _ => none

/-- What a token behind a value leads to: another item or member, or the end of the innermost
open container. -/
def endValue (t : Tree) : List Frame → Token → Option (Spot × List Frame)
  | .array items :: stack, .comma => some (.value, .array (t :: items) :: stack)
  | .array items :: stack, .closeArray => some (.done (.array (t :: items).reverse), stack)
  | .member members name :: stack, .comma => some (.name, .object ((name, t) :: members) :: stack)
  | .member members name :: stack, .closeObject =>
    some (.done (.object ((name, t) :: members).reverse), stack)
  | _, _ => none

def readToken : Spot → List Frame → Token → Option (Spot × List Frame)
  | .value, stack, token => startValue stack token
  | .itemOrClose, .array [] :: stack, .closeArray => some (.done (.array []), stack)
  | .itemOrClose, stack, token => startValue stack token
  | .name, stack, .string name => some (.colon name, stack)
  | .nameOrClose, .object [] :: stack, .closeObject => some (.done (.object []), stack)
  | .nameOrClose, stack, .string name => some (.colon name, stack)
  | .colon name, .object members :: stack, .colon => some (.value, .member members name :: stack)
  | .done t, stack, token => endValue t stack token
  | _, _, _ => none

/-- The tree of a list of tokens, from a spot inside the open containers on. -/
def readTokens? : Spot → List Frame → List Token → Option Tree
  | .done t, [], [] => some t
  | _, _, [] => none
  | spot, stack, token :: rest =>
    match readToken spot stack token with
    | none => none
    | some (spot, stack) => readTokens? spot stack rest

def read? (s : String) : Option Tree := do
  let tokens ← scan s.toList
  readTokens? .value [] tokens

/-! ### Fields of an object

A record is read from the members of an object by the names of its fields. A field that is given
twice is a fault, whatever the two values are. -/

/-- The members of an object, unless one of the names is no text. -/
def named? (members : List (Option String × Tree)) : Option (List (String × Tree)) :=
  members.mapM fun (name, t) => name.map (·, t)

def field? (members : List (String × Tree)) (name : String) : Option (Option Tree) :=
  match members.filter fun m => m.1 = name with
  | [] => some none
  | [m] => some (some m.2)
  | _ => none

def required? {α : Type} (members : List (String × Tree)) (name : String)
    (read? : Tree → Option α) : Option α := do
  let t ← (← field? members name)
  read? t

def optional? {α : Type} (members : List (String × Tree)) (name : String) (read? : Tree → Option α)
    (missing : α) : Option α := do
  match ← field? members name with
  | none => return missing
  | some t => read? t

def text? : Tree → Option String
  | .string s => s
  | _ => none

end Tree

end StoryGraph.Json
