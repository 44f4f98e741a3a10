import StoryGraph.Graph.Survey
import StoryGraph.Json.Tree

/-!
# Graphs as documents

A graph is stored as a JSON object with a start and a list of nodes. An unset slot and an unset
start are stored as the empty text, which a reader takes for unset, like `null`. The properties of
a node stand beside its own fields; every member that is no field of a node is a property.

A coordinate that is not finite has no numeral and is stored as `null`, which a reader refuses.
-/

namespace StoryGraph

open Json (Tree Value Number)

/-- Coordinates have 32 bits, so they need fewer digits, and they are written without an exponent
in a range of their own. -/
def Position.layout : Layout :=
  { positional := some (-6, 12), point := true, plus := true, tie := .even }

def Position.coordinateTree (x : Single) : Tree :=
  if x.isFinite then .number (layout.numeral x) else .null

def Position.toTree (p : Position) : Tree :=
  .object [(some "x", coordinateTree p.x), (some "y", coordinateTree p.y)]

def Position.coordinate? : Tree → Option Single
  | .number n => (Number.ofNumeral? n).map Number.toSingle
  | _ => none

/-- A position is an object, or the list of its two coordinates. -/
def Position.ofTree? : Tree → Option Position
  | .object members => do
    let members ← Tree.named? members
    let x ← Tree.required? members "x" coordinate?
    let y ← Tree.required? members "y" coordinate?
    return ⟨x, y⟩
  | .array [x, y] => do return ⟨← coordinate? x, ← coordinate? y⟩
  | _ => none

/-- An optional name, with the empty text for none. -/
def NodeId.slotTree (slot : Option NodeId) : Tree := .text (slot.elim "" NodeId.text)

def NodeId.slot? : Tree → Option (Option NodeId)
  | .null => some none
  | .string (some s) => some (if s = "" then none else some ⟨s⟩)
  | _ => none

def NodeId.slots? : Tree → Option (List (Option NodeId))
  | .array items => items.mapM slot?
  | _ => none

namespace Node

/-- The names of the fields of a node. All other members are properties. -/
def fieldNames : List String := ["typeTag", "id", "displayTitle", "position", "outputs"]

def toTree (n : Node) : Tree :=
  .object <|
    [(some "typeTag", .text n.kind), (some "id", .text n.id.text),
      (some "displayTitle", .text n.title), (some "position", n.position.toTree),
      (some "outputs", .array (n.outputs.map NodeId.slotTree))] ++
    n.properties.toList.map fun (name, value) => (some name, value.toTree)

/-- Reads a node whose properties nest at most `depth` times. -/
def ofTree? (depth : Nat) : Tree → Option Node
  | .object members => do
    let members ← Tree.named? members
    let kind ← Tree.required? members "typeTag" Tree.text?
    let id ← Tree.required? members "id" Tree.text?
    let title ← Tree.optional? members "displayTitle" Tree.text? ""
    let position ← Tree.optional? members "position" Position.ofTree? .origin
    let outputs ← Tree.optional? members "outputs" NodeId.slots? []
    let properties ← (members.filter fun m => m.1 ∉ fieldNames).mapM fun (name, t) =>
      return (name, ← Value.ofTree? depth t)
    return { kind, id := ⟨id⟩, title, position, outputs, properties := .ofList properties }
  | _ => none

def read (s : String) : Except DataError Node :=
  match Tree.read? s >>= ofTree? (Json.depthLimit - 1) with
  | some n => .ok n
  | none => .error .json

end Node

namespace Graph

def toTree (g : Graph) : Tree :=
  .object [(some "startNodeId", NodeId.slotTree g.start),
    (some "nodes", .array (g.nodes.map Node.toTree))]

/-- A list of nodes, which are three containers deep in the document. -/
def nodes? : Tree → Option (List Node)
  | .array items => items.mapM (Node.ofTree? (Json.depthLimit - 3))
  | _ => none

/-- A graph is an object, or the list of its two fields, of which the later ones may be missing. -/
def ofTree? : Tree → Option Graph
  | .object members => do
    let members ← Tree.named? members
    let start ← Tree.optional? members "startNodeId" NodeId.slot? none
    let nodes ← Tree.optional? members "nodes" nodes? []
    return { start, nodes }
  | .array [] => some {}
  | .array [start] => do return { start := ← NodeId.slot? start }
  | .array [start, nodes] => do return { start := ← NodeId.slot? start, nodes := ← nodes? nodes }
  | _ => none

/-- Reads a graph. A document that names a node twice is refused. -/
def read (s : String) : Except DataError Graph :=
  match Tree.read? s >>= ofTree? with
  | none => .error .json
  | some g =>
    match (repeated [] g.ids).head? with
    | some id => .error (.duplicateNode id)
    | none => .ok g

def write (g : Graph) : String := g.toTree.pretty

end Graph

end StoryGraph
