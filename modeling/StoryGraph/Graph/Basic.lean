import StoryGraph.Graph.Node

/-!
# Story graphs

A story graph is a list of nodes and the node at which the story starts. Edges are not stored:
they are the successors in the slots of the nodes, found by name when they are followed, so that a
cycle or a node that leads to itself needs no care.
-/

namespace StoryGraph

inductive DataError where
  /-- The name is taken. -/
  | duplicateNode (id : NodeId)
  | unknownNode (id : NodeId)
  /-- The text stored under a key is not a value of the type stored with it. -/
  | invalidValue (key type text : String)
  /-- The text is not a document of the expected form. -/
  | json
  /-- The file could not be read or written. -/
  | io
deriving DecidableEq

/-- What is reported. For documents and files the cause is not kept. -/
def DataError.message : DataError → String
  | duplicateNode id => "node already exists: " ++ id.text
  | unknownNode id => "node not found: " ++ id.text
  | invalidValue key type text => "invalid " ++ type ++ " value for key '" ++ key ++ "': " ++ text
  | json => "json error"
  | io => "io error"

structure Graph where
  start : Option NodeId := none
  nodes : List Node := []

namespace Graph

instance : Inhabited Graph := ⟨{}⟩

/-- The first node with the given name. -/
def node? (g : Graph) (id : NodeId) : Option Node := g.nodes.find? fun n => n.id = id

def ids (g : Graph) : List NodeId := g.nodes.map Node.id

instance : Membership NodeId Graph := ⟨fun g id => id ∈ g.ids⟩

instance (g : Graph) (id : NodeId) : Decidable (id ∈ g) :=
  inferInstanceAs (Decidable (id ∈ g.ids))

def startNode? (g : Graph) : Option Node := g.start.bind g.node?

def index? (g : Graph) (id : NodeId) : Option Nat := g.nodes.findIdx? fun n => n.id = id

def Unique (g : Graph) : Prop := g.ids.Nodup

instance (g : Graph) : Decidable g.Unique := inferInstanceAs (Decidable (List.Nodup _))

/-- Equality of graphs, with positions and numbers compared as numbers. -/
def same (g h : Graph) : Bool :=
  g.start == h.start && g.nodes.length == h.nodes.length &&
    (g.nodes.zip h.nodes).all fun (m, n) => m.same n

theorem mem_iff {g : Graph} {id : NodeId} : id ∈ g ↔ ∃ n ∈ g.nodes, n.id = id := by
  change id ∈ g.nodes.map Node.id ↔ _
  simp

theorem node?_isSome_iff {g : Graph} {id : NodeId} : (g.node? id).isSome ↔ id ∈ g := by
  simp [node?, mem_iff]

theorem index?_isSome_iff {g : Graph} {id : NodeId} : (g.index? id).isSome ↔ id ∈ g := by
  simp [index?, mem_iff]

end Graph

end StoryGraph
