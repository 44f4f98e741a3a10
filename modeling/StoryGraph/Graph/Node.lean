import StoryGraph.Json.Value

/-!
# Nodes

A node is a record of the story graph: its kind, its place on the canvas, its successors in
numbered slots and the settings that belong to its kind. What a node does when the story reaches
it is not part of the record; that is looked up by its kind.
-/

namespace StoryGraph

/-- The name of a node in its graph. Written by hand it is any text; new nodes get a random one. -/
structure NodeId where
  text : String
deriving DecidableEq

namespace NodeId

instance : Inhabited NodeId := ⟨⟨""⟩⟩

/-- The lower case hexadecimal digits of `n`, from a given number of places on. -/
def hexDigits (n : Nat) : Nat → List Char
  | 0 => []
  | places + 1 => Nat.digitChar ((n >>> (4 * places)) % 16) :: hexDigits n places

/-- The random name made of 122 bits: 32 hexadecimal digits in five groups, of which the first of
the third group is always `4` and the first of the fourth is one of `8`, `9`, `a` and `b`. -/
def ofBits (bits : BitVec 122) : NodeId :=
  let n := bits.toNat
  ⟨String.ofList (hexDigits (n >>> 90) 8 ++ '-' :: hexDigits (n >>> 74) 4 ++ '-' :: '4' ::
    hexDigits (n >>> 62) 3 ++ '-' :: hexDigits (0x8000 + (n >>> 48) % 0x4000) 4 ++ '-' ::
    hexDigits n 12)⟩

def isRandom (id : NodeId) : Bool :=
  let hex (c : Char) : Bool := c.isDigit || ('a' ≤ c && c ≤ 'f')
  let groups := (id.text.splitOn "-").map String.toList
  groups.map List.length == [8, 4, 4, 4, 12] && groups.all (·.all hex) &&
    groups[2]?.bind List.head? == some '4' &&
    (groups[3]?.bind List.head?).any ['8', '9', 'a', 'b'].contains

end NodeId

@[ext] structure Position where
  x : Single
  y : Single
deriving DecidableEq

namespace Position

def origin : Position := ⟨.zero false, .zero false⟩

instance : Inhabited Position := ⟨origin⟩

def offset (p : Position) (dx dy : Single) : Position := ⟨p.x + dx, p.y + dy⟩

/-- Equality of points, which sees no difference between the two zeros. -/
def same (p q : Position) : Bool := p.x.same q.x && p.y.same q.y

end Position

structure Node where
  kind : String
  id : NodeId
  title : String := ""
  position : Position := .origin
  /-- The successors. A slot may be unset. -/
  outputs : List (Option NodeId) := []
  properties : Table Json.Value := ∅

namespace Node

/-! ### Building a node -/

/-- A node of a kind, with a random name and nothing else. -/
def ofKind (kind : String) (bits : BitVec 122) : Node := { kind, id := .ofBits bits }

def withId (n : Node) (id : NodeId) : Node := { n with id }

def withTitle (n : Node) (title : String) : Node := { n with title }

def withPosition (n : Node) (position : Position) : Node := { n with position }

def withOutput (n : Node) (target : NodeId) : Node :=
  { n with outputs := n.outputs ++ [some target] }

def withEmptyOutput (n : Node) : Node := { n with outputs := n.outputs ++ [none] }

/-- Sets a property, whatever its value was. -/
def withProperty (n : Node) (name : String) (value : Json.Value) : Node :=
  { n with properties := n.properties.insert name value }

/-! ### Looking at a node -/

/-- The successor in the first slot that is set. -/
def firstOutput (n : Node) : Option NodeId := n.outputs.findSome? fun slot => slot

def outputAt (n : Node) (slot : Nat) : Option NodeId := n.outputs[slot]?.join

def LinksTo (n : Node) (target : NodeId) : Prop := some target ∈ n.outputs

instance (n : Node) (target : NodeId) : Decidable (n.LinksTo target) :=
  inferInstanceAs (Decidable (_ ∈ _))

def text? (n : Node) (name : String) : Option String :=
  (n.properties.get? name).bind Json.Value.string?

def flag? (n : Node) (name : String) : Option Bool :=
  (n.properties.get? name).bind Json.Value.bool?

def same (m n : Node) : Bool :=
  m.kind == n.kind && m.id == n.id && m.title == n.title && m.position.same n.position &&
    m.outputs == n.outputs &&
    Json.Value.sameMembers m.properties.toList n.properties.toList

end Node

end StoryGraph
