import StoryGraph.Blackboard.Basic

/-!
# Exposed objects

Objects that live outside the graph are bound to names, under which its nodes find them.
-/

namespace StoryGraph

structure Exposed where
  bindings : Table GameObject := ∅

namespace Exposed

instance : EmptyCollection Exposed := ⟨{}⟩
instance : Inhabited Exposed := ⟨∅⟩

def bind (e : Exposed) (name : String) (object : GameObject) : Exposed :=
  ⟨e.bindings.insert name object⟩

def get? (e : Exposed) (name : String) : Option GameObject := e.bindings.get? name

/-- Drops a binding; the answer tells whether there was one. -/
def clear (e : Exposed) (name : String) : Bool × Exposed :=
  (e.bindings.contains name, ⟨e.bindings.erase name⟩)

def inspect (e : Exposed) : String :=
  "\x7b" ++ Text.commas (e.bindings.toList.map fun b => Text.quoted b.1) ++ "\x7d"

end Exposed

end StoryGraph
