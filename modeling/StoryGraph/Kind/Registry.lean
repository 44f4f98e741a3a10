import StoryGraph.Error
import StoryGraph.Text.Quoted

/-!
# Node kinds

A kind gives the nodes with its tag a label and a color in the editor, settings to start from, and
a behaviour when the story reaches them. The kinds are listed in the order in which they were
registered; registering a tag again replaces the kind in its place.

The type of behaviours is left open, since an editor has no use for them.
-/

namespace StoryGraph

structure Color where
  red : UInt8
  green : UInt8
  blue : UInt8
deriving DecidableEq

namespace Color

def unknown : Color := ⟨0x80, 0x80, 0x80⟩

instance : Inhabited Color := ⟨unknown⟩

def text (c : Color) : String :=
  String.ofList ('#' :: [c.red, c.green, c.blue].flatMap fun part =>
    NodeId.hexDigits part.toNat 2)

def inspect (c : Color) : String :=
  "Color \x7b r: " ++ toString c.red.toNat ++ ", g: " ++ toString c.green.toNat ++
    ", b: " ++ toString c.blue.toNat ++ " \x7d"

end Color

/-- What comes of building the behaviour of a node. -/
inductive Built (β : Type _) where
  | ready (behaviour : β)
  | refused (error : StoryError)
  | panicked (panic : Panic)

structure Kind (β : Type _) where
  tag : String
  label : String
  color : Color := .unknown
  /-- The settings that a new node starts with. -/
  defaults : Table Json.Value := ∅
  build : Node → Built β

def Kind.inspect {β : Type _} (k : Kind β) : String :=
  "NodeKind \x7b tag: " ++ Text.quoted k.tag ++ ", label: " ++ Text.quoted k.label ++
    ", color: " ++ k.color.inspect ++ ", .. \x7d"

structure Registry (β : Type _) where
  kinds : List (Kind β) := []

namespace Registry

variable {β : Type _}

/-- Adds a kind, in place of the one with its tag if there is one. -/
def register (r : Registry β) (kind : Kind β) : Registry β :=
  match r.kinds.findIdx? fun k => k.tag = kind.tag with
  | some place => ⟨r.kinds.set place kind⟩
  | none => ⟨r.kinds ++ [kind]⟩

def ofList (kinds : List (Kind β)) : Registry β := kinds.foldl register {}

def kind? (r : Registry β) (tag : String) : Option (Kind β) := r.kinds.find? fun k => k.tag = tag

/-- The label for a tag, which without a kind is the tag. -/
def label (r : Registry β) (tag : String) : String := (r.kind? tag).elim tag Kind.label

def color (r : Registry β) (tag : String) : Color := (r.kind? tag).elim .unknown Kind.color

def build (r : Registry β) (n : Node) : Built β :=
  match r.kind? n.kind with
  | some k => k.build n
  | none => .refused (.unknownKind n.kind)

end Registry

end StoryGraph
