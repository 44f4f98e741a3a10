import StoryGraph.Graph.Basic

/-!
# Surveying a graph

The edges of a graph, the nodes that lead to a node, and what is wrong with a graph. The three are
views of the same slots: a slot that is set is an edge if its target is a node of the graph and an
issue if it is not.
-/

namespace StoryGraph

inductive Issue where
  | duplicate (id : NodeId)
  | unknownStart (id : NodeId)
  | dangling (source : NodeId) (slot : Nat) (target : NodeId)
deriving DecidableEq

namespace Graph

/-- The pairs of source and target of all slots that lead to a node, in order. -/
def edges (g : Graph) : List (NodeId × NodeId) :=
  g.nodes.flatMap fun n =>
    (n.outputs.filterMap id).filter (· ∈ g) |>.map fun target => (n.id, target)

/-- The nodes that refer to the given name, which need not be a node. -/
def predecessors (g : Graph) (id : NodeId) : List NodeId :=
  (g.nodes.filter fun n => n.LinksTo id).map Node.id

/-- The names that an earlier element of the list has, each time they occur again. -/
def repeated (seen : List NodeId) : List NodeId → List NodeId
  | [] => []
  | id :: rest =>
    if id ∈ seen then id :: repeated seen rest else repeated (id :: seen) rest

def danglingOf (g : Graph) (n : Node) : List Issue :=
  n.outputs.zipIdx.filterMap fun (target, slot) =>
    target.bind fun target => if target ∈ g then none else some (.dangling n.id slot target)

/-- All that is wrong with a graph: names that occur again, then a start that is no node, then the
slots that lead nowhere. -/
def issues (g : Graph) : List Issue :=
  (repeated [] g.ids).map .duplicate ++
    (g.start.toList.filter (· ∉ g)).map .unknownStart ++
    g.nodes.flatMap g.danglingOf

end Graph

end StoryGraph
