import StoryGraph.Blackboard.Value
import StoryGraph.Table

/-!
# Blackboards

The nodes of one run share a blackboard, a table of typed values. A key has one value; setting it
again replaces the value whatever its type, and asking for a value of another type finds nothing.
-/

namespace StoryGraph

structure Blackboard where
  values : Table Blackboard.Value := ∅
deriving DecidableEq

namespace Blackboard

instance : EmptyCollection Blackboard := ⟨{}⟩
instance : Inhabited Blackboard := ⟨∅⟩

def set (b : Blackboard) (key : String) (value : Value) : Blackboard :=
  ⟨b.values.insert key value⟩

def get? (b : Blackboard) (key : String) : Option Value := b.values.get? key

def contains (b : Blackboard) (key : String) : Bool := b.values.contains key

def erase (b : Blackboard) (key : String) : Blackboard := ⟨b.values.erase key⟩

def clear (b : Blackboard) : Blackboard := { b with values := ∅ }

def size (b : Blackboard) : Nat := b.values.size

def int? (b : Blackboard) (key : String) : Option Int :=
  match b.get? key with
  | some (.int n _) => some n
  | _ => none

def float? (b : Blackboard) (key : String) : Option Double :=
  match b.get? key with
  | some (.float x) => some x
  | _ => none

def bool? (b : Blackboard) (key : String) : Option Bool :=
  match b.get? key with
  | some (.bool v) => some v
  | _ => none

def string? (b : Blackboard) (key : String) : Option String :=
  match b.get? key with
  | some (.string s) => some s
  | _ => none

def object? (b : Blackboard) (key : String) : Option GameObject :=
  match b.get? key with
  | some (.object o) => some o
  | _ => none

end Blackboard

def GameObject.text? : GameObject → Option String
  | text name => some name
  | count _ => none

def GameObject.count? : GameObject → Option Nat
  | count n => some n
  | text _ => none

end StoryGraph
