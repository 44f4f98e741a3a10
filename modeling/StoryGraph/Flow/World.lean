import StoryGraph.Flow.Bus
import StoryGraph.Flow.Runner

/-!
# Worlds

A world is all that lives in one game session: its runners, its signal buses and its quest logs,
each known by its number.
-/

namespace StoryGraph

structure World (κ : Type _) where
  runners : List (Runner κ) := []
  buses : List (Bus κ) := []
  logs : List (QuestLog κ) := []

namespace World

variable {κ : Type _}

instance : Inhabited (World κ) := ⟨{}⟩

def setRunner (w : World κ) (r : Nat) (runner : Runner κ) : World κ :=
  { w with runners := w.runners.set r runner }

def setBus (w : World κ) (b : Nat) (bus : Bus κ) : World κ := { w with buses := w.buses.set b bus }

def setLog (w : World κ) (l : Nat) (log : QuestLog κ) : World κ :=
  { w with logs := w.logs.set l log }

/-- A bus that is not over. -/
def bus? (w : World κ) (b : Nat) : Option (Bus κ) :=
  (w.buses[b]?).filter Bus.isAlive

def logOf? (w : World κ) (bus : Bus κ) : Option (QuestLog κ) :=
  bus.service.bind fun s => w.logs[s.log]?

def knowsCompleted (w : World κ) (bus : Bus κ) (quest : String) : Bool :=
  (w.logOf? bus).any fun log => log.Completed quest

/-- Lets a bus listen to its quest service, unless it does or there is none. -/
def watch (w : World κ) (b : Nat) (bus : Bus κ) (listener : κ) : World κ :=
  match bus.watch, bus.service with
  | none, some s =>
    match s.pushes, w.logs[s.log]? with
    | true, some log =>
      let (id, log) := log.listen listener
      (w.setLog s.log log).setBus b { bus with watch := some id }
    | _, _ => w.setBus b { bus with watch := some 0 }
  | _, _ => w.setBus b bus

def unwatch (w : World κ) (b : Nat) (bus : Bus κ) : World κ :=
  let w := w.setBus b { bus with watch := none }
  match bus.watch, bus.service with
  | some id, some s =>
    match s.pushes, w.logs[s.log]? with
    | true, some log => w.setLog s.log (log.unlisten id).2
    | _, _ => w
  | _, _ => w

/-- Stores a bus, which stops listening to its quest service when nobody waits for a quest. -/
def settle (w : World κ) (b : Nat) (bus : Bus κ) : World κ :=
  if bus.waiters.isEmpty then w.unwatch b bus else w.setBus b bus

/-- The world with its callbacks forgotten. -/
def outline (w : World κ) : World Unit :=
  { runners := w.runners.map (·.map fun _ => ()), buses := w.buses.map (·.map fun _ => ())
    logs := w.logs.map (·.map fun _ => ()) }

end World

end StoryGraph
