import StoryGraph.Flow.Machine
import StoryGraph.Graph.Asset
import StoryGraph.Kind.Builtin
import StoryGraph.Rehearsal.Game

/-!
# Rehearsals

A rehearsal plays a session of a game without the game: its listeners and some of its nodes do what
actions tell them to, and a journal keeps what happened and in which order.

An action becomes a script that goes on with the answer (`Action.script`), so actions inside of
callbacks and nodes are carried out by the session itself. What needs a session in which nothing is
going on is carried out between calls (`Stage.errand`).
-/

namespace StoryGraph.Rehearsal

inductive Place where
  | stage
  | callback
  /-- By a node that is being entered or left. Until it has used it, an entered node has a word to
  say that it is done. -/
  | node (id : NodeId) (v : Visit) (hasWord : Bool)

/-- The place after an action, which may have used the word. -/
def Place.after (p : Place) (a : Action) : Place :=
  match p, a with
  | .node id v _, .turn (.hold _) => .node id v false
  | .node id v _, .turn (.holdOnce _) => .node id v false
  | .node id v _, .turn .ready => .node id v false
  | p, _ => p

def showHandle (alive : Bool) : String := "FlowHandle \x7b alive: " ++ toString alive ++ " \x7d"

def showWord (visit : Nat) : String := "ReadySignal \x7b visit: " ++ toString visit ++ " \x7d"

namespace Action

abbrev Scene := Script Game

def withRunner (name : String) (next : Answer → Scene) (go : Nat → Runner Unit → Scene) : Scene :=
  .look fun w g =>
    match g.runners.get? name with
    | none => next (.refused .noRunner)
    | some r => go r (w.runners[r]?.getD { graph := {}, bus := 0, limit := none })

def withBus (bus : Nat) (next : Answer → Scene) (go : World Unit → Bus Unit → Scene) : Scene :=
  .look fun w _ =>
    match (w.buses[bus]?).filter Bus.isOpen with
    | none => next (.refused .noBus)
    | some b => go w b

def withSubscription (name : String) (next : Answer → Scene) (go : Nat → Scene) : Scene :=
  .look fun _ g =>
    match g.subscriptions.get? name with
    | none => next (.refused .noSubscription)
    | some id => go id

def subscribed (name : String) (next : Answer → Scene) (id : Option Nat) : Scene :=
  .keep (Game.keepSubscription name id) (next (.subscription id))

/-- Lets go of a runner, if there is one, unless it is kept all the same. -/
def letGo (runner : Option Nat) (next : Scene) : Scene :=
  .look fun _ g =>
    match runner.filter fun r => !g.keeps r with
    | none => next
    | some r => .release r next

def listener (name : String) (scene : Scene) : Scene :=
  .look fun _ g =>
    if g.calls < Game.callLimit then
      .keep (fun g => Game.note (.called name) { g with calls := g.calls + 1 }) scene
    else .keep (Game.note (.skipped name)) .stop

def takeTurn (id : NodeId) (v : Visit) (hasWord : Bool) (next : Answer → Scene) : Turn → Scene
  | .hold slot =>
    if hasWord then .keep (Game.hold (slot.getD id.text) v.runner v.number) (next .nothing)
    else next (.refused .used)
  | .holdOnce slot =>
    if hasWord then .keep (Game.holdOnce (slot.getD id.text) v.runner v.number) (next .nothing)
    else next (.refused .used)
  | .ready =>
    if hasWord then .done v.runner v.number fun _ => next .nothing else next (.refused .used)
  | .inspectReady =>
    if hasWord then next (.text (some (showWord v.number))) else next (.refused .used)
  | .raise key => .raise v.bus key (next .nothing)
  | .set key value => .set v.runner key value (next .nothing)
  | .get key => .look fun w _ => next (.value (w.runners[v.runner]?.bind (·.blackboard.get? key)))
  | .exposed name => .look fun w _ =>
    next (.text ((w.runners[v.runner]?.bind (·.exposed.get? name)).bind GameObject.text?))
  | .nodes => .look fun w _ =>
    next (.count (w.runners[v.runner]?.elim 0 fun r => r.graph.nodes.length))

mutual

def script (place : Place) (next : Answer → Scene) : Action → Scene
  | .step log quest s => .advance log quest s (next .nothing)
  | .state log quest => .look fun w _ =>
    let l := (w.logs[log]?).getD {}
    next (.quest (l.state quest) (l.source? quest))
  | .listen log name callback =>
    .listen log (listener name (scene .callback callback)) fun id =>
      .keep (Game.keepSubscription name (some id)) (next (.id id))
  | .unlisten log name => withSubscription name next fun id => .unlisten log id (next ∘ .flag)
  | .raise bus key => withBus bus next fun _ _ => .raise bus key (next .nothing)
  | .subscribe bus key name callback => withBus bus next fun _ _ =>
    .subscribe bus key (listener name (scene .callback callback)) (subscribed name next)
  | .unsubscribe bus key name => withBus bus next fun _ _ =>
    withSubscription name next fun id => .unsubscribe bus key id (next ∘ .flag)
  | .await bus quest name callback => withBus bus next fun _ _ =>
    .await bus quest (listener name (scene .callback callback)) (subscribed name next)
  | .unawait bus quest name => withBus bus next fun _ _ =>
    withSubscription name next fun id => .unawait bus quest id (next ∘ .flag)
  | .pending bus key => withBus bus next fun _ b => next (.flag (decide (key ∈ b.pending)))
  | .clear bus => withBus bus next fun _ _ => .clear bus (next .nothing)
  | .subscribers bus key => withBus bus next fun _ b => next (.count (b.listeners key).length)
  | .questStep bus quest s => withBus bus next fun _ _ => .quest bus quest s (next .nothing)
  | .completed bus quest => withBus bus next fun w b => next (.flag (w.knowsCompleted b quest))
  | .notify bus => withBus bus next fun _ _ => .notify bus (next .nothing)
  | .serve bus service => withBus bus next fun _ _ => .serve bus service (next .nothing)
  | .close bus => withBus bus next fun _ _ => .close bus (next .nothing)
  | .panic p => .panic p
  | .assign name graph bus limit =>
    match Graph.read graph with
    | .error e => next (.faulty e)
    | .ok graph => withBus bus next fun _ _ =>
      .assign graph bus limit fun r => .look fun _ g =>
        .keep (Game.assign r name) (letGo (g.runners.get? name) (next .nothing))
  | .start name => withRunner name next fun r _ =>
    .start r fun e => next (e.elim .nothing .failed)
  | .ask (.runner name) request => withRunner name next fun r _ => .ask r request (next .nothing)
  | .ask (.handle name) request => .look fun _ g =>
    match g.handles.get? name with
    | none => next (.refused .noHandle)
    | some r => .ask r request (next .nothing)
  | .ask .own request =>
    match place with
    | .node _ v _ => .ask v.runner request (next .nothing)
    | .stage | .callback => next (.refused .unknownAction)
  | .flow name => withRunner name next fun _ r =>
    next (.flow (r.current.map Current.id) r.halted r.visits)
  | .nodes name => withRunner name next fun _ r => next (.count r.graph.nodes.length)
  | .inspectHandle name => .look fun w g =>
    match g.handles.get? name with
    | none => next (.refused .noHandle)
    | some r => next (.text (some (showHandle (w.runners[r]?.any Runner.isAlive))))
  | .errand name _ => withRunner name next fun _ _ => next (.refused .notNow)
  | .fire slot oldest => .look fun _ g =>
    match g.next? slot oldest with
    | none => next (.refused .nothingHeld)
    | some (r, visit) => .keep (Game.take slot oldest) (.done r visit fun _ => next (.count visit))
  | .fireOnce slot => .look fun _ g =>
    match g.once.get? slot with
    | none => next .nothing
    | some (r, visit) => .done r visit (next ∘ .flag)
  | .turn t =>
    match place with
    | .node id v hasWord => takeTurn id v hasWord next t
    | .stage | .callback => next (.refused .unknownAction)
  | .unknown => next (.refused .unknownAction)

/-- Carries out actions one after the other and notes what each of them answers. -/
def scene (place : Place) : List (String × Action) → Scene
  | [] => .stop
  | (name, a) :: rest =>
    script place (fun answer => .keep (Game.note (.answered name answer))
      (scene (place.after a) rest)) a

end

end Action

def actionsOf (n : Node) (property : String) : List (String × Action) :=
  (n.properties.get? property).elim [] Action.readAll

def probe (n : Node) : Behaviour Game := fun v =>
  .onLeave v.runner v.number
    (.keep (Game.note (.left n.id)) (Action.scene (.node n.id v false) (actionsOf n "onExit")))
    (.keep (Game.note (.entered n.id v.number))
      (Action.scene (.node n.id v true) (actionsOf n "onEnter")))

/-- The kinds of a rehearsal: those that are always there, nodes that do what they are told, nodes
that keep silent, nodes whose behaviour cannot be built, and those that are added. -/
def registry (added : List (Kind (Behaviour Game))) : Registry (Behaviour Game) :=
  .ofList (Builtin.kinds ++
    [{ tag := "probe", label := "probe", build := fun n => .ready (probe n) },
      { tag := "mute", label := "mute", build := fun _ => .ready fun _ => .stop },
      { tag := "factory_panic", label := "factory_panic",
        build := fun _ => .panicked ⟨some "broken factory"⟩ }] ++ added)

structure Stage where
  kinds : Registry (Behaviour Game)
  machine : Machine Game

inductive Outcome where
  | answered (a : Answer)
  | panicked (p : Panic)

namespace Stage

/-- A session with a number of buses and quest logs, of which the first log serves all buses if
they are wired. -/
def opening (added : List (Kind (Behaviour Game))) (buses logs : Nat) (wired : Bool) : Stage :=
  let service : Option QuestService := if wired then some { log := 0, pushes := true } else none
  { kinds := registry added
    machine := {
      world := { buses := List.replicate buses { service }, logs := List.replicate logs {} }
      data := {} } }

/-- Runs a script, for at most a number of steps, to its answer or the panic that it ends in. -/
def call (s : Stage) (steps : Nat) (scene : Script Game) : Option (Outcome × Stage) := do
  let m ← (s.machine.call scene).run s.kinds steps
  let stage := { s with machine := { m with panic := none } }
  match m.panic with
  | some p => return (.panicked p, stage)
  | none => return (.answered m.data.answer, stage)

def answer (a : Answer) : Script Game := .keep (fun g => { g with answer := a }) .stop

def change (s : Stage) (r : Nat) (runner : Runner (Script Game)) : Stage :=
  { s with machine := s.machine.setRunner r runner }

def errand (s : Stage) (steps : Nat) (name : String) (e : Errand) : Option (Outcome × Stage) :=
  let game := s.machine.data
  let found := do
    let r ← game.runners.get? name
    return (r, ← s.machine.world.runners[r]?)
  match found with
  | none => some (.answered (.refused .noRunner), s)
  | some (r, runner) =>
    let answered (a : Answer) (s : Stage) : Option (Outcome × Stage) := some (.answered a, s)
    match e with
    | .inspect => answered (.text (some runner.inspect)) s
    | .drop => s.call steps (.keep (Game.unname name) (Action.letGo (some r) (answer .nothing)))
    | .clone other => s.call steps
        (.keep (Game.name r other) (Action.letGo (game.runners.get? other) (answer .nothing)))
    | .set key value => answered .nothing
        (s.change r { runner with blackboard := runner.blackboard.set key value })
    | .get key => answered (.value (runner.blackboard.get? key)) s
    | .entries => answered (.entries runner.blackboard.entries) s
    | .load entries =>
      let (count, blackboard) := runner.blackboard.load entries
      answered (.count count) (s.change r { runner with blackboard })
    | .expose object o => answered .nothing
        (s.change r { runner with exposed := runner.exposed.bind object o })
    | .exposed object => answered (.object (runner.exposed.get? object)) s
    | .raise key => s.call steps
        (.keep (Game.engage r) (.raise runner.bus key
          (.keep (Game.disengage r) (Action.letGo (some r) (answer .nothing)))))

/-- Carries out an action on the stage. The events are those of this step, in order. Nothing comes
of it if a number of steps does not suffice. -/
def act (s : Stage) (steps : Nat) (a : Action) : Option ((Outcome × List Event) × Stage) := do
  let (outcome, s) ← match a with
    | .errand name e => s.errand steps name e
    | a => s.call steps (a.script .stage answer)
  let g := s.machine.data
  return ((outcome, g.journal.reverse),
    { s with machine := { s.machine with data := { g with journal := [] } } })

end Stage

end StoryGraph.Rehearsal
