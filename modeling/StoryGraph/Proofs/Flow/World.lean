import StoryGraph.Flow.World
import StoryGraph.Proofs.Quest

/-!
# What is done to a world

Buses and quest logs are exchanged for others, and buses begin and stop to listen. Runners do not
notice, quests are in the states they were in, and whoever is called by a bus or a quest log was put
there (`World.Calls`).
-/

namespace StoryGraph

namespace World

variable {κ : Type _} {w : World κ}

@[simp] theorem runners_setBus (b : Nat) (bus : Bus κ) : (w.setBus b bus).runners = w.runners := rfl

@[simp] theorem runners_setLog (l : Nat) (log : QuestLog κ) :
    (w.setLog l log).runners = w.runners := rfl

@[simp] theorem runners_watch (b : Nat) (bus : Bus κ) (listener : κ) :
    (w.watch b bus listener).runners = w.runners := by
  unfold watch
  split
  · split <;> rfl
  · rfl

@[simp] theorem runners_unwatch (b : Nat) (bus : Bus κ) :
    (w.unwatch b bus).runners = w.runners := by
  unfold unwatch
  dsimp only
  split
  · split <;> rfl
  · rfl

@[simp] theorem runners_settle (b : Nat) (bus : Bus κ) : (w.settle b bus).runners = w.runners := by
  unfold settle
  split <;> simp

section Known

variable {w' : World κ} {b : Nat} {B B' : Bus κ}

theorem bus?_eq_some_iff : w.bus? b = some B ↔ w.buses[b]? = some B ∧ B.isAlive = true :=
  Option.filter_eq_some_iff

theorem bus?_setBus (hB : w.buses[b]? = some B) (h : B'.isAlive = true) :
    (w.setBus b B').bus? b = some B' := by
  have hlt := (List.getElem?_eq_some_iff.1 hB).1
  refine bus?_eq_some_iff.2 ⟨?_, h⟩
  simp [setBus, hlt]

theorem buses_unwatch (w : World κ) (b : Nat) (B : Bus κ) :
    (w.unwatch b B).buses = w.buses.set b { B with watch := none } := by
  unfold unwatch
  dsimp only
  split
  · split <;> rfl
  · rfl

/-- A bus that is made to listen is otherwise the same. It listens if there is a quest service. -/
theorem exists_buses_watch (w : World κ) (b : Nat) (B : Bus κ) (listener : κ) : ∃ watch, (w.watch b B listener).buses = w.buses.set b { B with watch } ∧
      (watch.isSome ↔ B.watch.isSome ∨ B.service.isSome) := by
  unfold World.watch
  split
  · rename_i service _ hservice
    split
    · exact ⟨_, rfl, by simp [hservice]⟩
    · exact ⟨_, rfl, by simp [hservice]⟩
  · rename_i hno
    refine ⟨B.watch, rfl, ?_⟩
    cases hwatch : B.watch with
    | some id => simp
    | none =>
        cases hservice : B.service with
        | none => simp
        | some service => exact absurd hservice (hno service hwatch)

/-! ### What is known of quests -/

theorem set_map_of_eq {α β : Type _} {f : α → β} {l : List α} {i : Nat} {a : α} {c : β}
    (ha : l[i]? = some a) (h : c = f a) : (l.map f).set i c = l.map f := by
  obtain ⟨hlt, rfl⟩ := List.getElem?_eq_some_iff.1 ha
  rw [h, ← List.map_set, List.set_getElem_self]

def bareLogs (w : World κ) : List (QuestLog κ) := w.logs.map QuestLog.bare

theorem bareLogs_setLog_of_eq {l : Nat} {L L' : QuestLog κ} (hL : w.logs[l]? = some L)
    (h : L'.bare = L.bare) : (w.setLog l L').bareLogs = w.bareLogs :=
  List.map_set.trans (set_map_of_eq hL h)

theorem bareLogs_watch (w : World κ) (b : Nat) (B : Bus κ) (listener : κ) : (w.watch b B listener).bareLogs = w.bareLogs := by
  unfold watch
  split
  · split
    · rename_i log _ hlog
      exact bareLogs_setLog_of_eq hlog rfl
    · rfl
  · rfl

theorem bareLogs_unwatch (w : World κ) (b : Nat) (B : Bus κ) :
    (w.unwatch b B).bareLogs = w.bareLogs := by
  unfold unwatch
  dsimp only
  split
  · split
    · rename_i log _ hlog
      exact bareLogs_setLog_of_eq (w := w.setBus b _) hlog rfl
    · rfl
  · rfl

def states (w : World κ) : List (Table QuestState) := w.logs.map QuestLog.states

theorem states_congr (h : w'.bareLogs = w.bareLogs) : w'.states = w.states := by
  have hstates : ∀ w : World κ, w.states = w.bareLogs.map QuestLog.states := by
    intro w
    rw [bareLogs, List.map_map]
    rfl
  rw [hstates, hstates, h]

theorem states_setLog_of_eq {l : Nat} {L L' : QuestLog κ} (hL : w.logs[l]? = some L)
    (h : L'.bare = L.bare) : (w.setLog l L').states = w.states :=
  states_congr (bareLogs_setLog_of_eq hL h)

theorem states_watch (w : World κ) (b : Nat) (B : Bus κ) (listener : κ) :
    (w.watch b B listener).states = w.states :=
  states_congr (bareLogs_watch ..)

theorem states_unwatch (w : World κ) (b : Nat) (B : Bus κ) :
    (w.unwatch b B).states = w.states :=
  states_congr (bareLogs_unwatch ..)

theorem knowsCompleted_eq (w : World κ) (B : Bus κ) (name : String) :
    w.knowsCompleted B name =
      (B.service.bind fun s => w.states[s.log]?).any fun states =>
        (states.get? name).getD .inactive = .completed := by
  have hlog : ∀ l : Nat, w.states[l]? = w.logs[l]?.map QuestLog.states := fun l =>
    List.getElem?_map
  unfold knowsCompleted logOf?
  cases B.service with
  | none => rfl
  | some s =>
      rw [Option.bind_some, Option.bind_some, hlog]
      cases w.logs[s.log]? <;> rfl

/-- What a bus knows depends on its quest log and on how far the quests have come. -/
theorem knowsCompleted_congr (hw : w'.states = w.states) (hs : B'.service = B.service)
    (name : String) : w'.knowsCompleted B' name = w.knowsCompleted B name := by
  rw [knowsCompleted_eq, knowsCompleted_eq, hw, hs]

end Known

end World

variable {κ : Type _} {q : κ → Prop}

structure Bus.Abides (q : κ → Prop) (b : Bus κ) : Prop where
  subscribers : ∀ s ∈ b.subscribers, q s.callback
  waiters : ∀ s ∈ b.waiters, q s.callback

structure World.Calls (q : κ → Prop) (w : World κ) : Prop where
  buses : ∀ b ∈ w.buses, b.Abides q
  logs : ∀ l ∈ w.logs, ∀ e ∈ l.listeners, q e.2

namespace World.Calls

variable {w : World κ} (h : w.Calls q)

include h

theorem setBus (b : Nat) {B : Bus κ} (hbus : B.Abides q) : (w.setBus b B).Calls q := by
  refine ⟨fun bus' hbus' => ?_, h.logs⟩
  rcases List.mem_or_eq_of_mem_set hbus' with hbus' | rfl
  · exact h.buses bus' hbus'
  · exact hbus

theorem setLog (l : Nat) {log : QuestLog κ} (hlog : ∀ e ∈ log.listeners, q e.2) :
    (w.setLog l log).Calls q := by
  refine ⟨h.buses, fun log' hlog' => ?_⟩
  rcases List.mem_or_eq_of_mem_set hlog' with hlog' | rfl
  · exact h.logs log' hlog'
  · exact hlog

theorem bus {b : Nat} {B : Bus κ} (hbus : w.bus? b = some B) : B.Abides q :=
  h.buses B (List.mem_of_getElem? (Option.filter_eq_some_iff.1 hbus).1)

theorem log {l : Nat} {log : QuestLog κ} (hlog : w.logs[l]? = some log) :
    ∀ e ∈ log.listeners, q e.2 :=
  h.logs log (List.mem_of_getElem? hlog)

/-- A bus that goes on listening, or stops it, leaves its quest log in order. -/
theorem watch (b : Nat) {B : Bus κ} (hbus : B.Abides q) {listener : κ} (hq : q listener) :
    (w.watch b B listener).Calls q := by
  unfold World.watch
  split
  · split
    · rename_i log _ hlog
      refine .setBus (.setLog h _ ?_) b ⟨hbus.subscribers, hbus.waiters⟩
      intro e he
      rcases List.mem_append.1 he with he | he
      · exact h.log hlog e he
      · rw [List.mem_singleton.1 he]
        exact hq
    · exact h.setBus b ⟨hbus.subscribers, hbus.waiters⟩
  · exact h.setBus b hbus

theorem unwatch (b : Nat) {B : Bus κ} (hbus : B.Abides q) : (w.unwatch b B).Calls q := by
  have hset := h.setBus b (B := { B with watch := none }) ⟨hbus.subscribers, hbus.waiters⟩
  unfold World.unwatch
  dsimp only
  split
  · split
    · rename_i log _ hlog
      exact hset.setLog _ fun e he => h.log hlog e (List.mem_filter.1 he).1
    · exact hset
  · exact hset

theorem settle (b : Nat) {B : Bus κ} (hbus : B.Abides q) : (w.settle b B).Calls q := by
  unfold World.settle
  split
  · exact h.unwatch b hbus
  · exact h.setBus b hbus

end World.Calls

end StoryGraph
