import StoryGraph.Blackboard.Basic
import StoryGraph.Graph.Basic
import StoryGraph.Json.Tree

/-!
# Storing a blackboard

A blackboard is stored as a list of entries, one for each scalar, ascending by key. Loading
replaces the whole board. An entry whose text is no value of its type is passed over, and so is an
element of a stored list that is no entry, so that one bad entry does not cost the others.
-/

namespace StoryGraph.Blackboard

open Json (Tree)

/-- A stored scalar: its key, its type and its text. -/
structure Entry where
  key : String
  type : ValueType
  text : String
deriving DecidableEq

namespace Entry

def decode (e : Entry) : Except DataError Value :=
  match Value.ofText? e.type e.text with
  | some v => .ok v
  | none => .error (.invalidValue e.key e.type.name e.text)

/-- The entry of a scalar; a reference has none. -/
def ofValue? (key : String) (value : Value) : Option Entry := do
  return { key, type := ← value.type?, text := ← value.text? }

def toTree (e : Entry) : Tree :=
  .object [(some "key", .text e.key), (some "type", .text e.type.name),
    (some "value", .text e.text)]

/-- A type is given by its name, or as an object whose one member has that name and no value. -/
def type? : Json.Value → Option ValueType
  | .string name => ValueType.ofName? name
  | .object [(name, .null)] => ValueType.ofName? name
  | _ => none

/-- An entry is an object, of which further members are passed over, or the list of its fields. -/
def ofJson? : Json.Value → Option Entry
  | .array [.string key, type, .string text] => do return { key, type := ← type? type, text }
  | .object members => do
    let record : Json.Value := .object members
    let key ← (← record.member? "key").string?
    let type ← type? (← record.member? "type")
    let text ← (← record.member? "value").string?
    return { key, type, text }
  | _ => none

end Entry

/-- The entries of all scalars, ascending by key. -/
def entries (b : Blackboard) : List Entry :=
  b.values.toList.filterMap fun (key, value) => Entry.ofValue? key value

/-- Takes in an entry, unless its text is no value of its type. -/
def take (b : Blackboard) (e : Entry) : Blackboard :=
  match e.decode with
  | .ok value => b.set e.key value
  | .error _ => b

/-- Takes in a list of entries, in place of all that the board holds. Of the good entries with one
key the last one counts. The answer is the number of values that the board holds then. -/
def load (b : Blackboard) (entries : List Entry) : Nat × Blackboard :=
  let loaded := entries.foldl take b.clear
  (loaded.size, loaded)

def write (b : Blackboard) : String := (Tree.array (b.entries.map Entry.toTree)).compact

/-- Takes in the entries of a document, in place of all that the board holds. Only a document that is
no list is refused. -/
def read (b : Blackboard) (s : String) : Except DataError (Nat × Blackboard) :=
  match Json.Value.read? s with
  | some (.array items) => .ok (b.load (items.filterMap Entry.ofJson?))
  | _ => .error .json

end StoryGraph.Blackboard
