import StoryGraph.Table

/-!
# Quests

A quest is inactive until it is offered, started or completed, and never goes back: a step that
leads no further than the quest has come changes nothing. Whoever listens to a quest log is told
of every change, so a quest causes at most three notices.

The type of listeners is left open; see `StoryGraph.Flow.Machine` for what a notice does.
-/

namespace StoryGraph

inductive QuestState where
  | inactive
  | offered
  | active
  | completed
deriving DecidableEq

def QuestState.rank : QuestState → Nat
  | inactive => 0
  | offered => 1
  | active => 2
  | completed => 3

inductive QuestStep where
  /-- The quest is offered by somebody or something. -/
  | offer (source : String)
  | start
  | complete
deriving DecidableEq

def QuestStep.target : QuestStep → QuestState
  | offer _ => .offered
  | start => .active
  | complete => .completed

def QuestStep.source? : QuestStep → Option String
  | offer source => some source
  | start | complete => none

structure QuestLog (κ : Type _) where
  states : Table QuestState := ∅
  /-- Who offered a quest whose first step was an offer. -/
  sources : Table String := ∅
  /-- The listeners by number, in the order in which they came. -/
  listeners : List (Nat × κ) := []
  /-- The number given out last. -/
  lastId : Nat := 0

namespace QuestLog

variable {κ : Type _}

instance : Inhabited (QuestLog κ) := ⟨{}⟩

def state (log : QuestLog κ) (quest : String) : QuestState :=
  (log.states.get? quest).getD .inactive

def source? (log : QuestLog κ) (quest : String) : Option String := log.sources.get? quest

def Completed (log : QuestLog κ) (quest : String) : Prop := log.state quest = .completed

instance (log : QuestLog κ) (quest : String) : Decidable (log.Completed quest) :=
  inferInstanceAs (Decidable (_ = _))

/-- The log after a step, unless the step leads no further. -/
def advance? (log : QuestLog κ) (quest : String) (step : QuestStep) : Option (QuestLog κ) :=
  if (log.state quest).rank < step.target.rank then
    some { log with
      states := log.states.insert quest step.target
      sources := step.source?.elim log.sources (log.sources.insert quest) }
  else none

/-- Adds a listener. The answer is its number. -/
def listen (log : QuestLog κ) (listener : κ) : Nat × QuestLog κ :=
  let id := log.lastId + 1
  (id, { log with listeners := log.listeners ++ [(id, listener)], lastId := id })

/-- Drops a listener. The answer tells whether there was one. -/
def unlisten (log : QuestLog κ) (id : Nat) : Bool × QuestLog κ :=
  (log.listeners.any fun l => l.1 = id,
    { log with listeners := log.listeners.filter fun l => l.1 ≠ id })

def map {μ : Type _} (f : κ → μ) (log : QuestLog κ) : QuestLog μ :=
  { states := log.states, sources := log.sources
    listeners := log.listeners.map fun l => (l.1, f l.2), lastId := log.lastId }

end QuestLog

end StoryGraph
