import StoryGraph.Graph.Basic

/-!
# What can go wrong with a story

A fault of a story has a cause and a wording. A panic is something else: a node or a listener that
broke off in the middle of its work. It carries a message if the one who raised it gave a text.
-/

namespace StoryGraph

inductive StoryError where
  | emptyGraph
  | noStartNode
  | unknownStartNode (id : NodeId)
  | unknownNode (id : NodeId)
  /-- No kind has the tag of a node. -/
  | unknownKind (tag : String)
  /-- The settings of a node do not suit its kind. -/
  | invalidProperties (node : NodeId) (why : String)
  /-- A graph that never had a file cannot be saved without naming one. -/
  | noAssetPath
  /-- The text is no editor configuration. -/
  | config
  | data (e : DataError)
deriving DecidableEq

/-- What is reported. For a configuration the cause is not kept. -/
def StoryError.message : StoryError → String
  | emptyGraph => "graph has no nodes"
  | noStartNode => "graph has no start node"
  | unknownStartNode id => "start node does not exist in graph: " ++ id.text
  | unknownNode id => "node not found: " ++ id.text
  | unknownKind tag => "no node kind registered for type tag '" ++ tag ++ "'"
  | invalidProperties node why => "invalid properties on node " ++ node.text ++ ": " ++ why
  | noAssetPath => "graph has no asset path, use save_as"
  | config => "config error"
  | data e => "model error: " ++ e.message

/-- A break in the middle of the work, with its message if that is a text. -/
structure Panic where
  message : Option String
deriving DecidableEq

/-- The node at which the story starts. -/
def Graph.entry (g : Graph) : Except StoryError NodeId :=
  if g.nodes.isEmpty then .error .emptyGraph
  else match g.start with
    | none => .error .noStartNode
    | some id => if id ∈ g then .ok id else .error (.unknownStartNode id)

end StoryGraph
