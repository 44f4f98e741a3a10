import StoryGraph.Graph.Survey
import StoryGraph.Kind.Registry

/-!
# Views

A view is what is drawn of a graph: a box for each node and a line for each edge. All of it follows
from the graph and the registry, except where the boxes are: a view keeps the position of every
node that stays, and takes that of a node it has not seen from the graph.
-/

namespace StoryGraph

inductive SocketDirection where
  | input
  | output
deriving DecidableEq

structure Socket where
  direction : SocketDirection
  /-- More than one line may end here. -/
  multi : Bool
deriving DecidableEq

structure ViewNode where
  id : NodeId
  /-- The title of the node, or the label of its kind if it has none. -/
  title : String
  kind : String
  color : Color
  position : Position
  input : Socket := ⟨.input, true⟩
  output : Socket := ⟨.output, true⟩
deriving DecidableEq

namespace ViewNode

def ofNode {β : Type _} (kinds : Registry β) (n : Node) : ViewNode :=
  let kind := kinds.label n.kind
  { id := n.id, title := if n.title = "" then kind else n.title, kind
    color := kinds.color n.kind, position := n.position }

/-- Equality of boxes, with positions compared as points. -/
def same (m n : ViewNode) : Bool :=
  m.position.same n.position && decide ({ m with position := n.position } = n)

end ViewNode

structure View where
  nodes : List ViewNode := []
  edges : List (NodeId × NodeId) := []
  start : Option NodeId := none
deriving DecidableEq

namespace View

instance : Inhabited View := ⟨{}⟩

def node? (v : View) (id : NodeId) : Option ViewNode := v.nodes.find? fun n => n.id = id

/-- The view of a graph as it is now, with the positions of the nodes that it has seen. -/
def sync {β : Type _} (v : View) (kinds : Registry β) (g : Graph) : View where
  nodes := g.nodes.map fun n =>
    let box := ViewNode.ofNode kinds n
    { box with position := (v.node? n.id).elim box.position ViewNode.position }
  edges := g.edges
  start := g.start

def build {β : Type _} (kinds : Registry β) (g : Graph) : View := View.sync {} kinds g

def place (v : View) (id : NodeId) (position : Position) : View :=
  { v with nodes := v.nodes.modify (v.nodes.findIdx fun n => n.id = id) fun n =>
      { n with position } }

def HasEdge (v : View) (source target : NodeId) : Prop := (source, target) ∈ v.edges

instance (v : View) (source target : NodeId) : Decidable (v.HasEdge source target) :=
  inferInstanceAs (Decidable (_ ∈ _))

def same (v w : View) : Bool :=
  v.start == w.start && v.edges == w.edges && v.nodes.length == w.nodes.length &&
    (v.nodes.zip w.nodes).all fun (m, n) => m.same n

end View

end StoryGraph
