import StoryGraph.Editor.View
import StoryGraph.Graph.Edit

/-!
# Edits

An edit is recorded with all that it takes to do it again and to take it back. It works on a draft,
a graph together with its view. A move touches the view alone; all else touches the graph, and the
view is brought up to date afterwards.
-/

namespace StoryGraph

structure Draft where
  graph : Graph := {}
  view : View := {}

inductive Command where
  | addNode (node : Node) (becameStart : Bool)
  | deleteNode (removed : RemovedNode)
  | connect (source target : NodeId)
  | disconnect (source target : NodeId) (slots : List Nat)
  | move (id : NodeId) (before after : Position)
  | setStart (before : Option NodeId) (after : NodeId)

namespace Command

def label : Command → String
  | addNode .. => "add node"
  | deleteNode .. => "delete node"
  | connect .. => "connect"
  | disconnect .. => "disconnect"
  | move .. => "move node"
  | setStart .. => "set start"

end Command

namespace Draft

/-- The draft with another graph, or the fault of the change to the graph. -/
def change (d : Draft) (g : Except DataError Graph) : Except StoryError Draft :=
  match g with
  | .ok graph => .ok { d with graph }
  | .error e => .error (.data e)

def remove (d : Draft) (id : NodeId) : Except StoryError Draft :=
  match d.graph.removeNode id with
  | some (_, graph) => .ok { d with graph }
  | none => .error (.unknownNode id)

def place (d : Draft) (id : NodeId) (position : Position) : Except StoryError Draft :=
  if (d.view.node? id).isSome then .ok { d with view := d.view.place id position }
  else .error (.unknownNode id)

/-- Does an edit again. -/
def apply (d : Draft) : Command → Except StoryError Draft
  | .addNode node becameStart => d.change do
    let g ← d.graph.addNode node
    if becameStart then g.setStart node.id else return g
  | .deleteNode removed => d.remove removed.node.id
  | .connect source target => d.change ((d.graph.link source target).map Prod.snd)
  | .disconnect source target _ => d.change ((d.graph.unlink source target).map Prod.snd)
  | .move id _ after => d.place id after
  | .setStart _ after => d.change (d.graph.setStart after)

/-- Takes an edit back. -/
def revert (d : Draft) : Command → Except StoryError Draft
  | .addNode node _ => d.remove node.id
  | .deleteNode removed => d.change (d.graph.restoreNode removed)
  | .connect source target => d.change ((d.graph.popLink source target).map Prod.snd)
  | .disconnect source target slots => d.change (d.graph.relinkAt source target slots)
  | .move id before _ => d.place id before
  | .setStart (some before) _ => d.change (d.graph.setStart before)
  | .setStart none _ => .ok { d with graph := d.graph.clearStart }

end Draft

end StoryGraph
