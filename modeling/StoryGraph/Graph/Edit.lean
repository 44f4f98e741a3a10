import StoryGraph.Graph.Basic

/-!
# Editing a graph

Each change has an inverse, and what a change takes away it hands out: removing a node yields a
record from which it can be restored, and cutting an edge yields the slots it was in. Slots are
given by their numbers before the change, so putting them back in ascending order puts each where
it was.
-/

namespace StoryGraph

structure RemovedNode where
  node : Node
  /-- The place of the node in the list. -/
  index : Nat
  /-- The slots of other nodes that held the node, by node and then by slot. -/
  incoming : List (NodeId × Nat)
  wasStart : Bool

/-- Puts an element into a list at a place, or at the end if the list is shorter. -/
def insertAt {α : Type _} (l : List α) (place : Nat) (a : α) : List α :=
  l.insertIdx (min place l.length) a

/-- The numbers of the slots that hold `target`, ascending. -/
def slotsOf (target : NodeId) (outputs : List (Option NodeId)) : List Nat :=
  (outputs.zipIdx.filter fun e => e.1 = some target).map Prod.snd

def dropSlots (target : NodeId) (outputs : List (Option NodeId)) : List (Option NodeId) :=
  outputs.filter fun slot => slot ≠ some target

/-- Puts `target` back into the slots with the given numbers, one after the other. -/
def insertSlots (target : NodeId) (outputs : List (Option NodeId)) (slots : List Nat) :
    List (Option NodeId) :=
  slots.foldl (fun outputs slot => insertAt outputs slot (some target)) outputs

namespace Node

def unlink (n : Node) (target : NodeId) : Node := { n with outputs := dropSlots target n.outputs }

end Node

namespace Graph

def modify (g : Graph) (id : NodeId) (f : Node → Node) : Graph :=
  { g with nodes := g.nodes.modify (g.nodes.findIdx fun n => n.id = id) f }

def modify? (g : Graph) (id : NodeId) (f : Node → Node) : Except DataError Graph :=
  if id ∈ g then .ok (g.modify id f) else .error (.unknownNode id)

/-- Puts a node into the list at a place. Its name must be new. -/
def insertNode (g : Graph) (place : Nat) (n : Node) : Except DataError Graph :=
  if n.id ∈ g then .error (.duplicateNode n.id)
  else .ok { g with nodes := insertAt g.nodes place n }

def addNode (g : Graph) (n : Node) : Except DataError Graph := g.insertNode g.nodes.length n

/-- Removes a node together with every reference to it. -/
def removeNode (g : Graph) (id : NodeId) : Option (RemovedNode × Graph) := do
  let index ← g.index? id
  let node ← g.nodes[index]?
  let others := g.nodes.eraseIdx index
  let wasStart := decide (g.start = some id)
  let incoming := others.flatMap fun n => (slotsOf id n.outputs).map fun slot => (n.id, slot)
  return ({ node, index, incoming, wasStart },
    { start := if wasStart then none else g.start, nodes := others.map (·.unlink id) })

/-- Puts a removed node back, with the references to it and the start. References from nodes that
are gone are left out. -/
def restoreNode (g : Graph) (removed : RemovedNode) : Except DataError Graph := do
  let id := removed.node.id
  let g ← g.insertNode removed.index removed.node
  let g := removed.incoming.foldl
    (fun g (source, slot) =>
      g.modify source fun n => { n with outputs := insertSlots id n.outputs [slot] }) g
  return if removed.wasStart then { g with start := some id } else g

/-- Adds an edge behind the others of its source. The answer tells whether the edge is new; one
that is there is not added twice. -/
def link (g : Graph) (source target : NodeId) : Except DataError (Bool × Graph) :=
  if target ∉ g then .error (.unknownNode target)
  else match g.node? source with
    | none => .error (.unknownNode source)
    | some n =>
      if n.LinksTo target then .ok (false, g)
      else .ok (true, g.modify source fun n => { n with outputs := n.outputs ++ [some target] })

/-- Cuts every reference of `source` to `target`. The answer lists the slots. -/
def unlink (g : Graph) (source target : NodeId) : Except DataError (List Nat × Graph) :=
  match g.node? source with
  | none => .error (.unknownNode source)
  | some n => .ok (slotsOf target n.outputs, g.modify source (·.unlink target))

def relinkAt (g : Graph) (source target : NodeId) (slots : List Nat) : Except DataError Graph :=
  g.modify? source fun n => { n with outputs := insertSlots target n.outputs slots }

/-- Takes back the last slot of `source` if it holds `target`. The answer tells whether it did. -/
def popLink (g : Graph) (source target : NodeId) : Except DataError (Bool × Graph) :=
  match g.node? source with
  | none => .error (.unknownNode source)
  | some n =>
    if n.outputs.getLast? = some (some target) then
      .ok (true, g.modify source fun n => { n with outputs := n.outputs.dropLast })
    else .ok (false, g)

def setStart (g : Graph) (id : NodeId) : Except DataError Graph :=
  if id ∈ g then .ok { g with start := some id } else .error (.unknownNode id)

def clearStart (g : Graph) : Graph := { g with start := none }

def setPosition (g : Graph) (id : NodeId) (position : Position) : Except DataError Graph :=
  g.modify? id fun n => { n with position }

def setTitle (g : Graph) (id : NodeId) (title : String) : Except DataError Graph :=
  g.modify? id fun n => { n with title }

end Graph

end StoryGraph
