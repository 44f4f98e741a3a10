import StoryGraph.Blackboard.Basic
import StoryGraph.Error
import StoryGraph.Exposed
import StoryGraph.Flow.Bus
import StoryGraph.Graph.Basic
import StoryGraph.Text.Quoted

/-!
# Runners

A runner walks through a graph. One node at a time is current; each time a node becomes current is
a visit, and visits are numbered. All that moves a runner is a task in its queue: a request, or the
word of a visited node that it is done.

Where a task leads depends on the graph, the current visit and the task alone (`Runner.move`). How
tasks are worked off, and what nodes do in between, is in `StoryGraph.Flow.Machine`.
-/

namespace StoryGraph

inductive Request where
  /-- Leave the current node and enter another. -/
  | goTo (id : NodeId)
  /-- Follow the first successor of the current node. -/
  | advance
  /-- Follow the successor in a slot of a node. -/
  | jump (source : NodeId) (slot : Nat)
  /-- Leave the current node. -/
  | stop
deriving DecidableEq

inductive Task where
  | request (r : Request)
  /-- The node of a visit is done. -/
  | done (visit : Nat)
deriving DecidableEq

structure Current (κ : Type _) where
  id : NodeId
  visit : Nat
  /-- What is done when the node is left, once its behaviour is built. -/
  leave : Option κ

structure Runner (κ : Type _) where
  graph : Graph
  /-- The number of the bus that its nodes share with others. -/
  bus : Nat
  /-- How many nodes it may enter while it works off its queue. -/
  limit : Option Nat
  blackboard : Blackboard := ∅
  exposed : Exposed := ∅
  current : Option (Current κ) := none
  /-- The flow cannot go on from the current node. -/
  halted : Bool := false
  /-- The number of visits so far. -/
  visits : Nat := 0
  /-- The visits whose nodes have not used their one chance to say that they are done. -/
  armed : List Nat := []
  queue : List Task := []
  /-- The queue is being worked off. -/
  dispatching : Bool := false
  lifetime : Lifetime := .kept

inductive Move where
  | stay
  /-- Stay, because there is no way on. -/
  | halt
  /-- Leave the current node and rest. -/
  | rest
  /-- Leave the current node and enter another. -/
  | enter (node : Node)

namespace Runner

variable {κ : Type _}

/-- Whether the runner takes requests. -/
def isAlive (r : Runner κ) : Bool := r.lifetime ≠ .over

/-- The way on from the current node: its first successor. A successor that is no node is no way
on, and neither are those behind it. -/
def onward (r : Runner κ) : Move :=
  match r.current with
  | none => .stay
  | some c => (r.graph.node? c.id >>= Node.firstOutput >>= r.graph.node?).elim .halt .enter

def move (r : Runner κ) : Task → Move
  | .request (.goTo id) => (r.graph.node? id).elim .rest .enter
  | .request .advance => r.onward
  | .request (.jump source slot) =>
    ((r.graph.node? source).bind (·.outputAt slot) >>= r.graph.node?).elim .stay .enter
  | .request .stop => .rest
  | .done visit => if r.current.any fun c => c.visit = visit then r.onward else .stay

def map {μ : Type _} (f : κ → μ) (r : Runner κ) : Runner μ :=
  { graph := r.graph, bus := r.bus, limit := r.limit, blackboard := r.blackboard
    exposed := r.exposed, current := r.current.map fun c => ⟨c.id, c.visit, c.leave.map f⟩
    halted := r.halted, visits := r.visits, armed := r.armed, queue := r.queue
    dispatching := r.dispatching, lifetime := r.lifetime }

def inspect (r : Runner κ) : String :=
  let state := match r.current with
    | some c => "Active(NodeId(" ++ Text.quoted c.id.text ++ "))"
    | none => "Idle"
  "Runner \x7b state: " ++ state ++ ", halted: " ++ toString r.halted ++ ", visits: " ++
    toString r.visits ++ " \x7d"

end Runner

end StoryGraph
