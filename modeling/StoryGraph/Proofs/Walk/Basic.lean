import Mathlib
import StoryGraph.Flow.Script
import StoryGraph.Kind.Builtin

/-!
# Walks

A walk is what a runner does when it is alone on its bus and its nodes are of the kinds that are
always there: the same story told by plain recursion. There is no queue, no number that tells
visits apart and nobody to be called back. `State.follow` enters a node and goes on from there for
as long as the nodes it comes to are done at once; a graph with a circle of such nodes has no
answer.

What takes the place of the bus is what the current visit listens for (`Attention`). A visit that
waits for an event listens until it is left, and hears it once: raised again, the event is lost on
it.
-/

namespace StoryGraph

namespace Walk

/-- What a node does when it is entered, read from its settings. -/
inductive Act where
  | note
  | set (key : String) (value : Blackboard.Value)
  | raise (key : String)
  | wait (key : String)
  | quest (name source : String) (autoStart : Bool)
  | branch (key : String)

def setting? (n : Node) (name : String) : Option String := (n.text? name).filter fun s => s ≠ ""

def Act.ofNode? (n : Node) : Option Act :=
  if n.kind = "note" then some .note
  else if n.kind = "set_value" then do
    return .set (← setting? n "key") (← (n.properties.get? "value").bind Blackboard.Value.ofJson?)
  else if n.kind = "raise_event" then (setting? n "key").map .raise
  else if n.kind = "wait_event" then (setting? n "key").map .wait
  else if n.kind = "quest" then (setting? n "questId").map fun name =>
    .quest name ((n.text? "source").getD "") ((n.flag? "autoStart").getD true)
  else if n.kind = "branch" then (setting? n "key").map .branch
  else none

def Act.behaviour {σ : Type} (id : NodeId) : Act → Behaviour σ
  | .note => Builtin.note
  | .set key value => Builtin.setValue key value
  | .raise key => Builtin.raiseEvent key
  | .wait key => Builtin.waitEvent key
  | .quest name source autoStart => Builtin.quest name source autoStart
  | .branch key => Builtin.branch id key

theorem requiredText_eq (n : Node) (name : String) :
    n.requiredText name = match setting? n name with
      | some s => .ok s
      | none => .error (.invalidProperties n.id ("missing string property '" ++ name ++ "'")) := rfl

/-- The kinds that are always there read a node as `Act.ofNode?` does. -/
theorem build_registry {σ : Type} (n : Node) :
    (∃ act, Act.ofNode? n = some act ∧
      (Builtin.registry : Registry (Behaviour σ)).build n = .ready (act.behaviour n.id)) ∨
    Act.ofNode? n = none ∧
      ∃ e, (Builtin.registry : Registry (Behaviour σ)).build n = .refused e := by
  unfold Act.ofNode?
  simp only [Registry.build, Registry.kind?, Builtin.registry, Builtin.kinds]
  split_ifs with h1 h2 h3 h4 h5 h6
  · simp [Builtin.kind, h1, Act.behaviour]
  · cases hk : setting? n "key" with
    | none => simp [Builtin.kind, h2, requiredText_eq, hk, bind, Except.bind]
    | some key =>
        cases hv : (n.properties.get? "value").bind Blackboard.Value.ofJson? with
        | none =>
            simp [Builtin.kind, h2, requiredText_eq, hk, hv, bind, Except.bind, throw, throwThe,
              MonadExceptOf.throw]
        | some v =>
            simp [Builtin.kind, h2, requiredText_eq, hk, hv, bind, Except.bind, pure, Except.pure,
              Act.behaviour]
  · cases hk : setting? n "key" <;>
      simp [Builtin.kind, h3, requiredText_eq, hk, Act.behaviour, Functor.map, Except.map]
  · cases hk : setting? n "key" <;>
      simp [Builtin.kind, h4, requiredText_eq, hk, Act.behaviour, Functor.map, Except.map]
  · cases hk : setting? n "questId" <;>
      simp [Builtin.kind, h5, requiredText_eq, hk, Act.behaviour, Functor.map, Except.map]
  · cases hk : setting? n "key" <;>
      simp [Builtin.kind, h6, requiredText_eq, hk, Act.behaviour, Functor.map, Except.map]
  · simp [Builtin.kind, Ne.symm h1, Ne.symm h2, Ne.symm h3, Ne.symm h4, Ne.symm h5, Ne.symm h6]

/-- What the current visit listens for. -/
inductive Attention where
  | nothing
  /-- An event, which may have been heard. -/
  | event (key : String) (heard : Bool)
  /-- The completion of a quest. -/
  | quest (name : String)
deriving DecidableEq

structure State where
  current : Option NodeId := none
  attention : Attention := .nothing
  halted : Bool := false
  visits : Nat := 0
  blackboard : Blackboard := ∅
  /-- The keys of events that nobody heard. -/
  pending : Finset String := ∅
  /-- How far quests have come, if there is a quest service. -/
  quests : Option (String → QuestState) := none

/-- What comes after a node has been entered. -/
inductive Outcome where
  /-- The node is done, and the flow goes on to its first successor. -/
  | done
  /-- The flow goes on to the successor in a slot, if there is one. -/
  | jumps (slot : Nat)
  | rests

namespace State

def advance (s : State) (quest : String) (step : QuestStep) : State :=
  { s with quests := s.quests.map fun state =>
      if (state quest).rank < step.target.rank then Function.update state quest step.target
      else state }

def Completed (s : State) (quest : String) : Prop :=
  ∃ state ∈ s.quests, state quest = .completed

instance (s : State) (quest : String) : Decidable (s.Completed quest) :=
  inferInstanceAs (Decidable (∃ state ∈ s.quests, _))

def hold (s : State) (key : String) : State := { s with pending := insert key s.pending }

def rest (s : State) : State := { s with current := none, attention := .nothing, halted := false }

def halt (s : State) : State := { s with halted := true }

def arrive (s : State) (id : NodeId) : State :=
  { s with current := some id, attention := .nothing, halted := false, visits := s.visits + 1 }

def perform (s : State) : Act → State × Outcome
  | .note => (s, .done)
  | .set key value => ({ s with blackboard := s.blackboard.set key value }, .done)
  | .raise key => (s.hold key, .done)
  | .wait key =>
    if key ∈ s.pending then ({ s with pending := s.pending.erase key }, .done)
    else ({ s with attention := .event key false }, .rests)
  | .quest name source autoStart =>
    let s := s.advance name (.offer source)
    let s := if autoStart then s.advance name .start else s
    if s.Completed name then (s, .done) else ({ s with attention := .quest name }, .rests)
  | .branch key => (s, .jumps (if (s.blackboard.bool? key).getD false then 0 else 1))

def enter (s : State) (n : Node) : State × Outcome :=
  match Act.ofNode? n with
  | some act => (s.arrive n.id).perform act
  | none => ((s.arrive n.id).halt, .rests)

end State

def successor (g : Graph) (n : Node) : Option Node := n.firstOutput.bind g.node?

def target (g : Graph) (n : Node) (slot : Nat) : Option Node := (n.outputAt slot).bind g.node?

/-- Enters a node. The answer is the node to be entered next, if there is one. -/
def stride (g : Graph) (s : State) (n : Node) : State × Option Node :=
  match s.enter n with
  | (s, .done) => (if (successor g n).isNone then s.halt else s, successor g n)
  | (s, .jumps slot) => (s, target g n slot)
  | (s, .rests) => (s, none)

/-- Enters a node and goes on from there. -/
def State.follow (g : Graph) (s : State) (n : Node) : Option State :=
  match stride g s n with
  | (s, none) => some s
  | (s, some next) => s |>.follow g next
partial_fixpoint

def goOn (g : Graph) (s : State) : Option State :=
  match s.current with
  | none => some s
  | some id => ((g.node? id).bind (successor g)).elim (some s.halt) (State.follow g s)

def goTo (g : Graph) (s : State) (id : NodeId) : Option State :=
  (g.node? id).elim (some s.rest) (State.follow g s)

def notice (g : Graph) (s : State) : Option State :=
  match s.attention with
  | .quest awaited =>
    if s.Completed awaited then goOn g { s with attention := .nothing } else some s
  | _ => some s

/-- What can be asked of a walk from outside. -/
inductive Call where
  | start
  | ask (r : Request)
  /-- An event is raised. -/
  | raise (key : String)
  /-- The pending events are forgotten. -/
  | clear
  /-- A quest takes a step. -/
  | quest (name : String) (step : QuestStep)
  | set (key : String) (value : Blackboard.Value)

def call (g : Graph) (s : State) : Call → Option State
  | .start =>
    match g.entry with
    | .ok id => goTo g s id
    | .error _ => some s
  | .ask (.goTo id) => goTo g s id
  | .ask .advance => goOn g s
  | .ask (.jump source slot) =>
    ((g.node? source).bind fun n => target g n slot).elim (some s) (State.follow g s)
  | .ask .stop => some s.rest
  | .raise key =>
    match s.attention with
    | .event k heard =>
      if k = key then if heard then some s else goOn g { s with attention := .event k true }
      else some (s.hold key)
    | _ => some (s.hold key)
  | .clear => some { s with pending := ∅ }
  | .quest name step => notice g (s.advance name step)
  | .set key value => some { s with blackboard := s.blackboard.set key value }

def play (g : Graph) (s : State) (calls : List Call) : Option State := calls.foldlM (call g) s

end Walk

end StoryGraph
