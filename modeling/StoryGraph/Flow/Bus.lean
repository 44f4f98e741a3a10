import StoryGraph.Quest

/-!
# Signal buses

Whoever shares a bus can raise events under a key and hear of them. An event that nobody hears
stays pending, once for each key, and is handed to the next one who subscribes to it. A bus also
keeps those who wait for a quest to be completed; it learns about quests from a quest log, its
quest service, if one is attached.

This module holds what a bus remembers. What happens when an event is raised or a quest changes
involves those who are called, and is in `StoryGraph.Flow.Machine`.
-/

namespace StoryGraph

/-! ### Lifetimes -/

/-- A runner or a bus is there as long as somebody keeps it. Letting go of it does not take it away
from those who are at work with it: it lasts until they are through. -/
inductive Lifetime where
  | kept
  /-- Nobody keeps it, but somebody may be at work with it. -/
  | released
  | over
deriving DecidableEq

def Lifetime.release : Lifetime → Lifetime
  | .kept | .released => .released
  | .over => .over

/-! ### What a bus remembers -/

/-- A quest log as a bus sees it. One that pushes tells the bus of every change; the other kind
answers when it is asked. -/
structure QuestService where
  log : Nat
  pushes : Bool
deriving DecidableEq

/-- Somebody who is to be called for a key, or for a quest. -/
structure Subscription (κ : Type _) where
  topic : String
  id : Nat
  callback : κ

structure Bus (κ : Type _) where
  subscribers : List (Subscription κ) := []
  /-- The keys of events that nobody heard. -/
  pending : List String := []
  waiters : List (Subscription κ) := []
  service : Option QuestService := none
  /-- The number under which the bus listens to its quest service, while it does. -/
  watch : Option Nat := none
  /-- The number given out last, to a subscriber or to a waiter. -/
  lastId : Nat := 0
  lifetime : Lifetime := .kept

namespace Bus

variable {κ : Type _}

instance : Inhabited (Bus κ) := ⟨{}⟩

/-- Whether the bus can be found by its number. -/
def isOpen (b : Bus κ) : Bool := b.lifetime = .kept

/-- Whether those who are at work with the bus still reach others through it. -/
def isAlive (b : Bus κ) : Bool := b.lifetime ≠ .over

/-- Those who listen to a key, in the order in which they came. -/
def listeners (b : Bus κ) (key : String) : List κ :=
  (b.subscribers.filter fun s => s.topic = key).map Subscription.callback

def hold (b : Bus κ) (key : String) : Bus κ :=
  if key ∈ b.pending then b else { b with pending := key :: b.pending }

def consume (b : Bus κ) (key : String) : Bus κ :=
  { b with pending := b.pending.filter fun k => k ≠ key }

/-- Adds a subscriber to a key. The answer is its number. -/
def subscribe (b : Bus κ) (key : String) (callback : κ) : Nat × Bus κ :=
  let id := b.lastId + 1
  (id, { b with subscribers := b.subscribers ++ [⟨key, id, callback⟩], lastId := id })

/-- Drops a subscriber. The answer tells whether there was one. -/
def unsubscribe (b : Bus κ) (key : String) (id : Nat) : Bool × Bus κ :=
  (b.subscribers.any fun s => s.topic = key && s.id = id,
    { b with subscribers := b.subscribers.filter fun s => !(s.topic = key && s.id = id) })

def await (b : Bus κ) (quest : String) (callback : κ) : Nat × Bus κ :=
  let id := b.lastId + 1
  (id, { b with waiters := b.waiters ++ [⟨quest, id, callback⟩], lastId := id })

def unawait (b : Bus κ) (quest : String) (id : Nat) : Bool × Bus κ :=
  (b.waiters.any fun s => s.topic = quest && s.id = id,
    { b with waiters := b.waiters.filter fun s => !(s.topic = quest && s.id = id) })

def map {μ : Type _} (f : κ → μ) (b : Bus κ) : Bus μ :=
  let convert (s : Subscription κ) : Subscription μ := ⟨s.topic, s.id, f s.callback⟩
  { subscribers := b.subscribers.map convert, pending := b.pending
    waiters := b.waiters.map convert, service := b.service, watch := b.watch
    lastId := b.lastId, lifetime := b.lifetime }

end Bus

end StoryGraph
