import StoryGraph.Numeric.Layout
import StoryGraph.Numeric.Reading
import StoryGraph.Text.Quoted

/-!
# What a blackboard holds

A value is a scalar or a reference to an object of the running game. Scalars have a type and a
text, by which they are stored; references have neither, because they mean nothing to another run.

Equality of values is equality of what is stored, bit for bit: the two zeros differ, and what is
no number equals itself.
-/

namespace StoryGraph

/-- A reference to an object of the running game: a shared text or a shared count. References are
equal when they lead to the same object. -/
inductive GameObject where
  | text (name : String)
  | count (n : Nat)
deriving DecidableEq

namespace Blackboard

inductive Value where
  | int (n : Int) (fits : FitsSigned n)
  | float (x : Double)
  | bool (value : Bool)
  | string (text : String)
  | object (reference : GameObject)
deriving DecidableEq

inductive ValueType where
  | int
  | float
  | bool
  | string
deriving DecidableEq

def ValueType.name : ValueType → String
  | int => "int"
  | float => "float"
  | bool => "bool"
  | string => "string"

def ValueType.ofName? : String → Option ValueType
  | "int" => some int
  | "float" => some float
  | "bool" => some bool
  | "string" => some string
  | _ => none

namespace Value

def type? : Value → Option ValueType
  | int _ _ => some .int
  | float _ => some .float
  | bool _ => some .bool
  | string _ => some .string
  | object _ => none

def text? : Value → Option String
  | int n _ => some (String.ofList (Numeral.ofInt n).chars)
  | float x => some x.toText
  | bool b => some (toString b)
  | string s => some s
  | object _ => none

def ofText? : ValueType → String → Option Value
  | .int, s => (readInt? s.toList).map fun ⟨n, h⟩ => int n h
  | .float, s => (readFloat? .double s.toList).map float
  | .bool, s => (readBool? s.toList).map bool
  | .string, s => some (string s)

def inspect : Value → String
  | int n _ => "Int(" ++ String.ofList (Numeral.ofInt n).chars ++ ")"
  | float x => "Float(" ++ Layout.exactPlain.text x ++ ")"
  | bool b => "Bool(" ++ toString b ++ ")"
  | string s => "String(" ++ Text.quoted s ++ ")"
  | object _ => "Object(..)"

end Value

end Blackboard

end StoryGraph
