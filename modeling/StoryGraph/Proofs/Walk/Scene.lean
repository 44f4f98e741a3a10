import StoryGraph.Proofs.Flow.Run
import StoryGraph.Proofs.Walk.Basic

/-!
# A runner that is alone on its bus

A `Setting` says which runner, which bus and which quest log of a world take part, and a `Scene`
what these three are at the moment; all else in the world stays as it is. `Setting.machine` puts a
scene back into the world. The equations here say what the parts of a session do to a scene, so
that what a script does can be read off step by step.
-/

namespace StoryGraph

structure Setting (σ : Type) where
  world : World (Script σ)
  data : σ
  runner : Nat
  bus : Nat
  log? : Option Nat
  runner_lt : runner < world.runners.length
  bus_lt : bus < world.buses.length
  log_lt : ∀ l ∈ log?, l < world.logs.length

structure Scene (σ : Type) where
  runner : Runner (Script σ)
  bus : Bus (Script σ)
  log : QuestLog (Script σ)

namespace Setting

variable {σ : Type} (x : Setting σ)

def place (S : Scene σ) : World (Script σ) where
  runners := x.world.runners.set x.runner S.runner
  buses := x.world.buses.set x.bus S.bus
  logs := x.log?.elim x.world.logs fun l => x.world.logs.set l S.log

def machine (S : Scene σ) (stack : List (Frame σ)) : Machine σ :=
  { world := x.place S, data := x.data, stack }

/-- The bus and the runner are kept, the runner has no limit, and the log serves the bus. -/
structure Proper (S : Scene σ) : Prop where
  bus_eq : S.runner.bus = x.bus
  limit_eq : S.runner.limit = none
  runner_kept : S.runner.lifetime = .kept
  bus_kept : S.bus.lifetime = .kept
  service_eq : S.bus.service = x.log?.map fun l => ⟨l, true⟩

section World

variable (S : Scene σ) (K : List (Frame σ))

@[simp] theorem runners_place : (x.place S).runners[x.runner]? = some S.runner := by
  simp [place, x.runner_lt]

@[simp] theorem buses_place : (x.place S).buses[x.bus]? = some S.bus := by
  simp [place, x.bus_lt]

theorem logs_place {l : Nat} (hl : x.log? = some l) : (x.place S).logs[l]? = some S.log := by
  have := x.log_lt l hl
  simp [place, hl, this]

@[simp] theorem setRunner_place (R : Runner (Script σ)) :
    (x.place S).setRunner x.runner R = x.place { S with runner := R } := by
  simp [place, World.setRunner]

@[simp] theorem setBus_place (B : Bus (Script σ)) :
    (x.place S).setBus x.bus B = x.place { S with bus := B } := by
  simp [place, World.setBus]

theorem setLog_place {l : Nat} (hl : x.log? = some l) (L : QuestLog (Script σ)) :
    (x.place S).setLog l L = x.place { S with log := L } := by
  simp [place, World.setLog, hl]

@[simp] theorem world_machine : (x.machine S K).world = x.place S := rfl

@[simp] theorem data_machine : (x.machine S K).data = x.data := rfl

@[simp] theorem push_machine (f : Frame σ) :
    (x.machine S K).push f = x.machine S (f :: K) := rfl

@[simp] theorem setRunner_machine (R : Runner (Script σ)) :
    (x.machine S K).setRunner x.runner R = x.machine { S with runner := R } K := by
  simp [machine, Machine.setRunner]

end World

variable {x} {S : Scene σ} {K : List (Frame σ)}

theorem Proper.bus?_place (h : x.Proper S) : (x.place S).bus? x.bus = some S.bus := by
  simp [World.bus?, Bus.isAlive, h.bus_kept]

def Knows (x : Setting σ) (S : Scene σ) (quest : String) : Prop :=
  x.log?.isSome ∧ S.log.Completed quest

instance (quest : String) : Decidable (x.Knows S quest) := inferInstanceAs (Decidable (_ ∧ _))

theorem Proper.knowsCompleted_place (h : x.Proper S) (B : Bus (Script σ))
    (hB : B.service = S.bus.service) (quest : String) :
    (x.place S).knowsCompleted B quest = decide (x.Knows S quest) := by
  cases hl : x.log? with
  | none => simp [World.knowsCompleted, World.logOf?, hB, h.service_eq, hl, Knows]
  | some l =>
      simp [World.knowsCompleted, World.logOf?, hB, h.service_eq, hl, Knows, x.logs_place S hl]

theorem Proper.expireBus_machine (h : x.Proper S) :
    (x.machine S K).expireBus x.bus = x.machine S K := by
  simp [Machine.expireBus, h.bus_kept]

theorem Proper.expireRunner_machine (h : x.Proper S) :
    (x.machine S K).expireRunner x.runner = x.machine S K := by
  simp [Machine.expireRunner, h.runner_kept]

theorem Proper.submit_machine (h : x.Proper S) (task : Task) :
    (x.machine S K).submit x.runner task =
      x.machine { S with runner := { S.runner with
          queue := S.runner.queue ++ [task], dispatching := true } }
        (if S.runner.dispatching then K else .dispatch x.runner 0 :: K) := by
  cases hd : S.runner.dispatching <;>
    simp [Machine.submit, Runner.isAlive, h.runner_kept, hd]

theorem Proper.raise_machine (h : x.Proper S) (key : String) :
    (x.machine S K).raise x.bus key =
      if (S.bus.listeners key).isEmpty then x.machine { S with bus := S.bus.hold key } K
      else x.machine S (.deliver (some x.bus) (S.bus.listeners key) :: K) := by
  simp only [Machine.raise, world_machine, h.bus?_place, setBus_place, push_machine]
  rfl

theorem Proper.subscribe_machine (h : x.Proper S) (key : String) (callback : Script σ)
    (next : Option Nat → Script σ) :
    (x.machine S K).subscribe x.bus key callback next =
      if key ∈ S.bus.pending then
        x.machine { S with bus := S.bus.consume key }
          (.deliver (some x.bus) [callback] :: .run (next none) :: K)
      else
        x.machine { S with bus := (S.bus.subscribe key callback).2 }
          (.run (next (some (S.bus.lastId + 1))) :: K) := by
  simp only [Machine.subscribe, world_machine, h.bus?_place, setBus_place]
  rfl

/-- The scene after somebody has begun to wait for a quest. The bus begins to listen to its quest
log, if it has one. -/
def awaited (x : Setting σ) (S : Scene σ) (quest : String) (callback : Script σ) : Scene σ where
  runner := S.runner
  bus := { (S.bus.await quest callback).2 with
    watch := x.log?.elim S.bus.watch fun _ => some (S.log.lastId + 1) }
  log := x.log?.elim S.log fun _ => (S.log.listen (.notify x.bus .stop)).2

theorem Proper.watch_place (h : x.Proper S) (hw : S.bus.watch = none) (quest : String)
    (callback : Script σ) :
    (x.place S).watch x.bus (S.bus.await quest callback).2 (.notify x.bus .stop) =
      x.place (x.awaited S quest callback) := by
  cases hlog : x.log? with
  | none => simp [World.watch, awaited, Bus.await, h.service_eq, hlog]
  | some l =>
      have hservice : S.bus.service = some ⟨l, true⟩ := by rw [h.service_eq, hlog]; rfl
      simp [World.watch, awaited, Bus.await, hw, hlog, hservice, x.logs_place _ hlog,
        x.setLog_place _ hlog, QuestLog.listen]

theorem Proper.await_machine (h : x.Proper S) (hw : S.bus.watch = none) (quest : String)
    (callback : Script σ) (next : Option Nat → Script σ) :
    (x.machine S K).await x.bus quest callback next =
      if x.Knows S quest then
        x.machine S (.deliver (some x.bus) [callback] :: .run (next none) :: K)
      else x.machine (x.awaited S quest callback) (.run (next (some (S.bus.lastId + 1))) :: K) := by
  simp only [Machine.await, world_machine, h.bus?_place, h.knowsCompleted_place S.bus rfl,
    h.watch_place hw, decide_eq_true_eq]
  rfl

theorem advance_machine {l : Nat} (hl : x.log? = some l) (bus : Option Nat) (quest : String)
    (step : QuestStep) :
    (x.machine S K).advance bus l quest step =
      match S.log.advance? quest step with
      | none => x.machine S K
      | some log => x.machine { S with log } (.deliver bus (log.listeners.map Prod.snd) :: K) := by
  simp only [Machine.advance, world_machine, x.logs_place S hl, Option.bind_some,
    x.setLog_place S hl]
  cases S.log.advance? quest step <;> rfl

/-! ### Steps -/

section Steps

variable {kinds : Registry (Behaviour σ)}

theorem next_resume (x : Setting σ) (S : Scene σ) (K : List (Frame σ)) (f : Frame σ) :
    Machine.Next kinds (x.machine S (f :: K)) ((x.machine S K).resume kinds f) := rfl

theorem leads_stop : Machine.Leads kinds (x.machine S (.run .stop :: K)) (x.machine S K) :=
  .single (x.next_resume S K (.run .stop))

theorem next_deliver (bus : Option Nat) (t : Script σ) :
    Machine.Next kinds (x.machine S (.deliver bus [t] :: K))
      (x.machine S (.run t :: .deliver bus [] :: K)) :=
  x.next_resume S K (.deliver bus [t])

theorem Proper.leads_delivered (h : x.Proper S) :
    Machine.Leads kinds (x.machine S (.deliver (some x.bus) [] :: K)) (x.machine S K) := by
  have hn : Machine.Next kinds _ _ :=
    x.next_resume S K (.deliver (some x.bus) [])
  rw [Machine.resume, Option.elim_some, h.expireBus_machine] at hn
  exact .single hn

theorem leads_rested :
    Machine.Leads kinds (x.machine S (.leaving x.runner none :: K))
      (x.machine { S with runner := { S.runner with halted := false } } K) := by
  have hn : Machine.Next kinds _ _ := x.next_resume S K
    (.leaving x.runner none)
  simp only [Machine.resume, world_machine, runners_place, setRunner_machine] at hn
  exact .single hn

end Steps

end Setting

end StoryGraph
