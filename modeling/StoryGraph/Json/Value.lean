import StoryGraph.Json.Number
import StoryGraph.Json.Tree
import StoryGraph.Table
import StoryGraph.Text.Quoted

/-!
# JSON values

A value is what a tree means once its numbers and strings have been read: the members of an object
are listed by name, and of several members with one name the last one counts. Reading a value
refuses trees that nest too deeply, with a bound that the caller sets.
-/

namespace StoryGraph.Json

inductive Value where
  | null
  | bool (value : Bool)
  | number (n : Number)
  | string (text : String)
  | array (items : List Value)
  /-- The members ascend by name. -/
  | object (members : List (String × Value))

instance : Inhabited Value := ⟨.null⟩

/-- How deeply arrays and objects may nest in a document. -/
def depthLimit : Nat := 127

namespace Value

/-- The members of an object, of which the last one with a name counts. -/
def ofMembers (members : List (String × Value)) : List (String × Value) :=
  members.foldl (fun l m => upsert m.1 m.2 l) []

/-- The value of a tree in which arrays and objects nest at most `depth` times. -/
def ofTree? : Nat → Tree → Option Value
  | _, .null => some .null
  | _, .bool b => some (.bool b)
  | _, .number n => (Number.ofNumeral? n).map .number
  | _, .string s => s.map .string
  | 0, .array _ => none
  | depth + 1, .array items => (items.mapM (ofTree? depth)).map .array
  | 0, .object _ => none
  | depth + 1, .object members => do
    let members ← members.mapM fun (name, t) => do
      let name ← name
      let value ← ofTree? depth t
      return (name, value)
    return .object (ofMembers members)

def read? (s : String) : Option Value := Tree.read? s >>= ofTree? depthLimit

mutual

def toTree : Value → Tree
  | .null => .null
  | .bool b => .bool b
  | .number n => .number n.numeral
  | .string s => .text s
  | .array items => .array (itemTrees items)
  | .object members => .object (memberTrees members)

def itemTrees : List Value → List Tree
  | [] => []
  | v :: rest => v.toTree :: itemTrees rest

def memberTrees : List (String × Value) → List (Option String × Tree)
  | [] => []
  | (name, v) :: rest => (some name, v.toTree) :: memberTrees rest

end

mutual

/-- Equality of values, with numbers compared by `Number.same`. -/
def same : Value → Value → Bool
  | .null, .null => true
  | .bool a, .bool b => a == b
  | .number m, .number n => m.same n
  | .string s, .string t => s == t
  | .array vs, .array ws => sameItems vs ws
  | .object ms, .object ns => sameMembers ms ns
  | _, _ => false

def sameItems : List Value → List Value → Bool
  | [], [] => true
  | v :: vs, w :: ws => v.same w && sameItems vs ws
  | _, _ => false

def sameMembers : List (String × Value) → List (String × Value) → Bool
  | [], [] => true
  | (m, v) :: ms, (n, w) :: ns => m == n && v.same w && sameMembers ms ns
  | _, _ => false

end

def member? (v : Value) (name : String) : Option Value :=
  match v with
  | .object members => (members.find? fun m => m.1 = name).map Prod.snd
  | _ => none

def string? : Value → Option String
  | .string s => some s
  | _ => none

def bool? : Value → Option Bool
  | .bool b => some b
  | _ => none

/-! ### Members with defaults

A description that is written by hand leaves out what is as usual. A member that is missing, or of
another type than expected, counts as empty, zero or false. -/

def has (v : Value) (name : String) : Bool :=
  match v.member? name with
  | none | some .null => false
  | some _ => true

def text? (v : Value) (name : String) : Option String := (v.member? name).bind string?

def text (v : Value) (name : String) : String := (v.text? name).getD ""

def items : Value → List Value
  | .array items => items
  | _ => []

def list (v : Value) (name : String) : List Value := (v.member? name).elim [] items

def flag? (v : Value) (name : String) : Option Bool := (v.member? name).bind bool?

def flag (v : Value) (name : String) : Bool := (v.flag? name).getD false

def int? : Value → Option Int
  | .number (.whole n _) => some n
  | _ => none

/-- A number of things, which is whole and not negative. -/
def count? (v : Value) (name : String) : Option Nat :=
  match (v.member? name).bind int? with
  | some (.ofNat n) => some n
  | _ => none

def count (v : Value) (name : String) : Nat := (v.count? name).getD 0

/-! ### Values in a fault report -/

open Text (quoted commas)

mutual

def inspect : Value → String
  | .null => "Null"
  | .bool b => "Bool(" ++ toString b ++ ")"
  | .number n => "Number(" ++ String.ofList n.numeral.chars ++ ")"
  | .string s => "String(" ++ quoted s ++ ")"
  | .array items => "Array [" ++ commas (inspectItems items) ++ "]"
  | .object members => "Object \x7b" ++ commas (inspectMembers members) ++ "\x7d"

def inspectItems : List Value → List String
  | [] => []
  | v :: rest => v.inspect :: inspectItems rest

def inspectMembers : List (String × Value) → List String
  | [] => []
  | (name, v) :: rest => (quoted name ++ ": " ++ v.inspect) :: inspectMembers rest

end

def inspectOption : Option Value → String
  | none => "None"
  | some v => "Some(" ++ v.inspect ++ ")"

end Value

end StoryGraph.Json
