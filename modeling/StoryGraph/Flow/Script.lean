import StoryGraph.Flow.World
import StoryGraph.Kind.Registry

/-!
# Scripts

What a node or a listener does when it is called is a script: a tree of steps, each of which asks
something of the world and goes on with the answer. A script cannot wait. What takes time is left
to those it subscribes, which are scripts in their turn.

Scripts may also look at the world and keep data of their own, of a type that is left open.
-/

namespace StoryGraph

/-- One stay of a runner at a node. -/
structure Visit where
  runner : Nat
  bus : Nat
  number : Nat
deriving DecidableEq

inductive Script (σ : Type) where
  | stop
  | panic (p : Panic)
  | look (next : World Unit → σ → Script σ)
  | keep (change : σ → σ) (next : Script σ)
  /-- Raises an event. -/
  | raise (bus : Nat) (key : String) (next : Script σ)
  /-- Subscribes to an event. The answer is the number, or nothing if a pending event was handed
  over. -/
  | subscribe (bus : Nat) (key : String) (callback : Script σ) (next : Option Nat → Script σ)
  | unsubscribe (bus : Nat) (key : String) (id : Nat) (next : Bool → Script σ)
  /-- Forgets the pending events of a bus. -/
  | clear (bus : Nat) (next : Script σ)
  /-- Waits for a quest. The answer is the number, or nothing if the quest is completed. -/
  | await (bus : Nat) (quest : String) (callback : Script σ) (next : Option Nat → Script σ)
  | unawait (bus : Nat) (quest : String) (id : Nat) (next : Bool → Script σ)
  /-- Takes a step of a quest in the quest service of a bus. -/
  | quest (bus : Nat) (quest : String) (step : QuestStep) (next : Script σ)
  /-- Calls those who wait for quests that are completed. -/
  | notify (bus : Nat) (next : Script σ)
  /-- Attaches a quest service to a bus, in place of the one it has. -/
  | serve (bus : Nat) (service : Option QuestService) (next : Script σ)
  /-- Lets go of a bus, which lasts for those who are at work with it. -/
  | close (bus : Nat) (next : Script σ)
  /-- Takes a step of a quest in a quest log. -/
  | advance (log : Nat) (quest : String) (step : QuestStep) (next : Script σ)
  | listen (log : Nat) (listener : Script σ) (next : Nat → Script σ)
  | unlisten (log : Nat) (id : Nat) (next : Bool → Script σ)
  /-- Makes a runner. The answer is its number. -/
  | assign (graph : Graph) (bus : Nat) (limit : Option Nat) (next : Nat → Script σ)
  | start (runner : Nat) (next : Option StoryError → Script σ)
  | ask (runner : Nat) (request : Request) (next : Script σ)
  /-- Says that the node of a visit is done. The answer tells whether it is the first time. -/
  | done (runner visit : Nat) (next : Bool → Script σ)
  /-- Says what is to be done when a visit ends. -/
  | onLeave (runner visit : Nat) (leave next : Script σ)
  | set (runner : Nat) (key : String) (value : Blackboard.Value) (next : Script σ)
  /-- Lets go of a runner. Its visit ends as soon as it is not at work. -/
  | release (runner : Nat) (next : Script σ)

namespace Script

variable {σ : Type}

instance : Inhabited (Script σ) := ⟨stop⟩

end Script

/-- What the nodes of a kind do when they are entered. -/
abbrev Behaviour (σ : Type) := Visit → Script σ

end StoryGraph
