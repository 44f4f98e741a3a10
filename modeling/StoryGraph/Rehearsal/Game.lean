import StoryGraph.Flow.World
import StoryGraph.Rehearsal.Action

/-!
# What a rehearsal remembers

The names under which actions find what others made, the words of nodes that were put off, and a
journal of what happened.
-/

namespace StoryGraph.Rehearsal

inductive Refusal where
  | noBus
  | noSubscription
  | noRunner
  | noHandle
  /-- Something is going on. -/
  | notNow
  /-- The slot is empty. -/
  | nothingHeld
  /-- The node has no word to put off any more. -/
  | used
  | unknownAction
deriving DecidableEq

inductive Answer where
  | nothing
  | flag (b : Bool)
  | count (n : Nat)
  | text (s : Option String)
  /-- The number of a listener. -/
  | id (n : Nat)
  /-- The number of a subscription, or nothing if it was handed an event at once. -/
  | subscription (n : Option Nat)
  | quest (state : QuestState) (source : Option String)
  | flow (current : Option NodeId) (halted : Bool) (visits : Nat)
  | value (v : Option Blackboard.Value)
  | entries (l : List Blackboard.Entry)
  | object (o : Option GameObject)
  | failed (e : StoryError)
  | faulty (e : DataError)
  | refused (why : Refusal)

inductive Event where
  | called (name : String)
  /-- A callback was not run, because too many had been. -/
  | skipped (name : String)
  | entered (id : NodeId) (visit : Nat)
  | left (id : NodeId)
  | answered (action : String) (a : Answer)

structure Game where
  runners : Table Nat := ∅
  handles : Table Nat := ∅
  subscriptions : Table Nat := ∅
  /-- The words that are held in a slot, by runner and visit, newest first. -/
  held : Table (List (Nat × Nat)) := ∅
  once : Table (Nat × Nat) := ∅
  /-- The runners that an errand is at work with. -/
  engaged : List Nat := []
  /-- How many callbacks have run. -/
  calls : Nat := 0
  /-- What happened in this step, newest first. -/
  journal : List Event := []
  answer : Answer := .nothing

namespace Game

def callLimit : Nat := 64

def note (e : Event) (g : Game) : Game := { g with journal := e :: g.journal }

/-- Gives a runner a name, which another may have had. -/
def name (runner : Nat) (name : String) (g : Game) : Game :=
  { g with runners := g.runners.insert name runner }

def unname (name : String) (g : Game) : Game := { g with runners := g.runners.erase name }

def assign (runner : Nat) (name : String) (g : Game) : Game :=
  { g.name runner name with handles := g.handles.insert name runner }

def engage (runner : Nat) (g : Game) : Game := { g with engaged := runner :: g.engaged }

def disengage (runner : Nat) (g : Game) : Game := { g with engaged := g.engaged.erase runner }

def keepSubscription (name : String) (id : Option Nat) (g : Game) : Game :=
  { g with subscriptions := id.elim g.subscriptions (g.subscriptions.insert name) }

def heldIn (g : Game) (slot : String) : List (Nat × Nat) := (g.held.get? slot).getD []

def hold (slot : String) (runner visit : Nat) (g : Game) : Game :=
  { g with held := g.held.insert slot ((runner, visit) :: g.heldIn slot) }

def holdOnce (slot : String) (runner visit : Nat) (g : Game) : Game :=
  { g with once := g.once.insert slot (runner, visit) }

def next? (g : Game) (slot : String) (oldest : Bool) : Option (Nat × Nat) :=
  if oldest then (g.heldIn slot).getLast? else (g.heldIn slot).head?

def take (slot : String) (oldest : Bool) (g : Game) : Game :=
  let rest := g.heldIn slot
  { g with held := g.held.insert slot (if oldest then rest.dropLast else rest.tail) }

/-- Whether a runner has a name, or else an errand that is at work with it. -/
def keeps (g : Game) (runner : Nat) : Bool :=
  (g.runners.toList.any fun e => e.2 = runner) || runner ∈ g.engaged

end Game

end StoryGraph.Rehearsal
