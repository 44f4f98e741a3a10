import StoryGraph.Flow.Script

/-!
# How a session goes on

A session is a world, the data that scripts keep, and a stack of what is going on. One step looks
at the top of the stack alone. Scripts that call others put them on top of themselves, so callers
go on when those they called are through, to any depth.

Four things make the order of events what it is:

* a delivery calls those who were registered when it began, whatever happens to the list since;
* a runner has one queue, and while it is worked off further tasks wait for their turn, so no node
  is entered or left in the middle of another's work;
* a panic ends the script it happens in. A delivery goes on with the next one, a node that breaks
  off when it is entered halts the flow, and one that breaks off when it is left is left all the
  same. What breaks off while a behaviour is built is caught by none of these;
* a runner that nobody keeps lasts until its queue is worked off, and a bus until the last delivery
  on it and the last of its runners are through.
-/

namespace StoryGraph

inductive Frame (σ : Type) where
  | run (s : Script σ)
  /-- Callbacks that are yet to be called, in the name of a bus or of nobody. -/
  | deliver (bus : Option Nat) (rest : List (Script σ))
  /-- A runner works off its queue and has entered a number of nodes. -/
  | dispatch (runner entered : Nat)
  /-- The node of a visit is at work because it has been entered. -/
  | entering (runner visit : Nat)
  /-- The node of a visit is at work because it is being left. -/
  | exiting (runner visit : Nat)
  /-- The flow is on its way to a node, or to rest. -/
  | leaving (runner : Nat) (target : Option Node)

def Frame.bus? {σ : Type} : Frame σ → Option Nat
  | .deliver bus _ => bus
  | _ => none

/-- A session: the world, the data of the scripts, what is going on, innermost first, and the panic
that is on its way to somebody who catches it. -/
structure Machine (σ : Type) where
  world : World (Script σ)
  data : σ
  stack : List (Frame σ) := []
  panic : Option Panic := none

namespace Machine

variable {σ : Type}

def push (m : Machine σ) (f : Frame σ) : Machine σ := { m with stack := f :: m.stack }

def setRunner (m : Machine σ) (r : Nat) (runner : Runner (Script σ)) : Machine σ :=
  { m with world := m.world.setRunner r runner }

/-- Whether somebody is at work with a bus. A runner is for as long as it is there. -/
def uses (m : Machine σ) (b : Nat) : Bool :=
  (m.world.runners.any fun r => r.isAlive && r.bus = b) || m.stack.any fun f => f.bus? = some b

def expireBus (m : Machine σ) (b : Nat) : Machine σ :=
  match m.world.buses[b]? with
  | none => m
  | some bus =>
    if bus.lifetime = .released && !m.uses b then
      { m with world := m.world.unwatch b { bus with lifetime := .over } }
    else m

/-- The visit of a runner ends, and with it all that its node had going. -/
def leave (m : Machine σ) (r : Nat) (runner : Runner (Script σ)) : Machine σ :=
  let n := m.setRunner r { runner with current := none }
  match runner.current with
  | some ⟨_, visit, some s⟩ => (n.push (.exiting r visit)).push (.run s)
  | _ => n

/-- Ends a runner that nobody keeps and that is not at work. Its node is left with all that it had
going, and only then it is through with its bus. -/
def expireRunner (m : Machine σ) (r : Nat) : Machine σ :=
  match m.world.runners[r]? with
  | none => m
  | some runner =>
    if runner.lifetime = .released && !runner.dispatching then
      (m.push (.deliver (some runner.bus) [])).leave r { runner with lifetime := .over }
    else m

/-- Puts a task at the end of the queue of a runner, which works it off unless it is at it. -/
def submit (m : Machine σ) (r : Nat) (task : Task) : Machine σ :=
  match m.world.runners[r]? with
  | none => m
  | some runner =>
    if !runner.isAlive then m
    else
      let n := m.setRunner r { runner with queue := runner.queue ++ [task], dispatching := true }
      if runner.dispatching then n else n.push (.dispatch r 0)

def raise (m : Machine σ) (b : Nat) (key : String) : Machine σ :=
  match m.world.bus? b with
  | none => m
  | some bus =>
    if (bus.listeners key).isEmpty then { m with world := m.world.setBus b (bus.hold key) }
    else m.push (.deliver (some b) (bus.listeners key))

/-- Takes a step of a quest in a log and tells those who listen if it leads further. A bus may have
asked for it. -/
def advance (m : Machine σ) (bus : Option Nat) (l : Nat) (quest : String) (step : QuestStep) :
    Machine σ :=
  match m.world.logs[l]?.bind (·.advance? quest step) with
  | none => m
  | some log =>
    { m with world := m.world.setLog l log }.push (.deliver bus (log.listeners.map Prod.snd))

/-- Calls those who wait for quests that a bus knows to be completed, who then wait no longer. -/
def notify (m : Machine σ) (b : Nat) : Machine σ :=
  match m.world.bus? b with
  | none => m
  | some bus =>
    if bus.service.isNone then m
    else
      let (due, waiting) := bus.waiters.partition fun s => m.world.knowsCompleted bus s.topic
      { m with world := m.world.settle b { bus with waiters := waiting } }.push
        (.deliver (some b) (due.map Subscription.callback))

def await (m : Machine σ) (b : Nat) (quest : String) (callback : Script σ)
    (next : Option Nat → Script σ) : Machine σ :=
  match m.world.bus? b with
  | none => m.push (.run (next none))
  | some bus =>
    if m.world.knowsCompleted bus quest then
      (m.push (.run (next none))).push (.deliver (some b) [callback])
    else
      let (id, bus) := bus.await quest callback
      { m with world := m.world.watch b bus (.notify b .stop) }.push (.run (next (some id)))

def subscribe (m : Machine σ) (b : Nat) (key : String) (callback : Script σ)
    (next : Option Nat → Script σ) : Machine σ :=
  match m.world.bus? b with
  | none => m.push (.run (next none))
  | some bus =>
    if key ∈ bus.pending then
      ({ m with world := m.world.setBus b (bus.consume key) }.push (.run (next none))).push
        (.deliver (some b) [callback])
    else
      let (id, bus) := bus.subscribe key callback
      { m with world := m.world.setBus b bus }.push (.run (next (some id)))

/-- Exchanges the quest service of a bus. Those who wait stay, and are judged by the new one. -/
def serve (m : Machine σ) (b : Nat) (service : Option QuestService) : Machine σ :=
  match m.world.bus? b with
  | none => m
  | some bus =>
    let world := m.world.unwatch b bus
    let bus := { bus with watch := none, service }
    if bus.waiters.isEmpty then { m with world := world.setBus b bus }
    else Machine.notify { m with world := world.watch b bus (.notify b .stop) } b

def release (m : Machine σ) (r : Nat) : Machine σ :=
  match m.world.runners[r]? with
  | none => m
  | some runner =>
    (m.setRunner r { runner with lifetime := runner.lifetime.release }).expireRunner r

def close (m : Machine σ) (b : Nat) : Machine σ :=
  match m.world.buses[b]? with
  | none => m
  | some bus =>
    { m with world := m.world.setBus b { bus with lifetime := bus.lifetime.release } }.expireBus b

def done (m : Machine σ) (r visit : Nat) (next : Bool → Script σ) : Machine σ :=
  match m.world.runners[r]? with
  | none => m.push (.run (next false))
  | some runner =>
    if visit ∈ runner.armed then
      let n := m.setRunner r { runner with armed := runner.armed.erase visit }
      (n.push (.run (next true))).submit r (.done visit)
    else m.push (.run (next false))

def perform (m : Machine σ) : Script σ → Machine σ
  | .stop => m
  | .panic p => { m with panic := some p }
  | .look next => m.push (.run (next m.world.outline m.data))
  | .keep change next => { m with data := change m.data }.push (.run next)
  | .raise b key next => (m.push (.run next)).raise b key
  | .subscribe b key callback next => m.subscribe b key callback next
  | .unsubscribe b key id next =>
    match m.world.bus? b with
    | none => m.push (.run (next false))
    | some bus =>
      let (found, bus) := bus.unsubscribe key id
      { m with world := m.world.setBus b bus }.push (.run (next found))
  | .clear b next =>
    match m.world.bus? b with
    | none => m.push (.run next)
    | some bus => { m with world := m.world.setBus b { bus with pending := [] } }.push (.run next)
  | .await b quest callback next => m.await b quest callback next
  | .unawait b quest id next =>
    match m.world.bus? b with
    | none => m.push (.run (next false))
    | some bus =>
      let (found, bus) := bus.unawait quest id
      { m with world := m.world.settle b bus }.push (.run (next found))
  | .quest b quest step next =>
    match (m.world.bus? b).bind Bus.service with
    | none => m.push (.run next)
    | some s => (m.push (.run next)).advance (some b) s.log quest step
  | .notify b next => (m.push (.run next)).notify b
  | .serve b service next => (m.push (.run next)).serve b service
  | .close b next => (m.push (.run next)).close b
  | .advance l quest step next => (m.push (.run next)).advance none l quest step
  | .listen l listener next =>
    match m.world.logs[l]? with
    | none => m.push (.run (next 0))
    | some log =>
      let (id, log) := log.listen listener
      { m with world := m.world.setLog l log }.push (.run (next id))
  | .unlisten l id next =>
    match m.world.logs[l]? with
    | none => m.push (.run (next false))
    | some log =>
      let (found, log) := log.unlisten id
      { m with world := m.world.setLog l log }.push (.run (next found))
  | .assign graph bus limit next =>
    let runners := m.world.runners ++ [{ graph, bus, limit }]
    { m with world := { m.world with runners } }.push (.run (next m.world.runners.length))
  | .start r next =>
    match m.world.runners[r]? with
    | none => m.push (.run (next none))
    | some runner =>
      match runner.graph.entry with
      | .error e => m.push (.run (next (some e)))
      | .ok id => (m.push (.run (next none))).submit r (.request (.goTo id))
  | .ask r request next => (m.push (.run next)).submit r (.request request)
  | .done r visit next => m.done r visit next
  | .onLeave r visit leave next =>
    match m.world.runners[r]? with
    | none => m.push (.run next)
    | some runner =>
      let current := runner.current.map fun c =>
        if c.visit = visit then { c with leave := c.leave.map fun _ => leave } else c
      (m.setRunner r { runner with current }).push (.run next)
  | .set r key value next =>
    match m.world.runners[r]? with
    | none => m.push (.run next)
    | some runner =>
      (m.setRunner r { runner with blackboard := runner.blackboard.set key value }).push (.run next)
  | .release r next => (m.push (.run next)).release r

/-- Takes the next task of a runner that has entered a number of nodes in this dispatch. Once the
limit is reached any task, even one that would enter no node, makes it give up the rest. -/
def dispatch (m : Machine σ) (r : Nat) (runner : Runner (Script σ)) (entered : Nat) : Machine σ :=
  match runner.queue with
  | [] => (m.setRunner r { runner with dispatching := false }).expireRunner r
  | task :: queue =>
    if runner.limit.any (· ≤ entered) then
      let given := { runner with queue := [], halted := true, dispatching := false }
      (m.setRunner r given).expireRunner r
    else
      match runner.move task with
      | .stay => (m.setRunner r { runner with queue }).push (.dispatch r entered)
      | .halt => (m.setRunner r { runner with queue, halted := true }).push (.dispatch r entered)
      | .rest =>
        ((m.push (.dispatch r entered)).push (.leaving r none)).leave r { runner with queue }
      | .enter node =>
        ((m.push (.dispatch r (entered + 1))).push (.leaving r (some node))).leave r
          { runner with queue }

/-- Begins a visit to a node. A node whose behaviour is refused is current all the same, and the
flow halts there. -/
def enter (kinds : Registry (Behaviour σ)) (m : Machine σ) (r : Nat) (runner : Runner (Script σ))
    (node : Node) : Machine σ :=
  let visit := runner.visits + 1
  let begun : Runner (Script σ) :=
    { runner with visits := visit, halted := false, current := some ⟨node.id, visit, none⟩ }
  match kinds.build node with
  | .refused _ => m.setRunner r { begun with halted := true }
  | .panicked p => { m.setRunner r begun with panic := some p }
  | .ready behaviour =>
    let armed : Runner (Script σ) :=
      { begun with armed := visit :: runner.armed, current := some ⟨node.id, visit, some .stop⟩ }
    ((m.setRunner r armed).push (.entering r visit)).push
      (.run (behaviour ⟨r, runner.bus, visit⟩))

def resume (kinds : Registry (Behaviour σ)) (m : Machine σ) : Frame σ → Machine σ
  | .run s => m.perform s
  | .deliver bus [] => bus.elim m m.expireBus
  | .deliver bus (s :: rest) => (m.push (.deliver bus rest)).push (.run s)
  | .dispatch r entered =>
    match m.world.runners[r]? with
    | none => m
    | some runner => m.dispatch r runner entered
  | .entering _ _ | .exiting _ _ => m
  | .leaving r target =>
    match m.world.runners[r]?, target with
    | none, _ => m
    | some runner, none => m.setRunner r { runner with halted := false }
    | some runner, some node => m.enter kinds r runner node

/-- Lets a panic reach the frame that was on top of the stack. What gets as far as the queue of a
runner broke off while a behaviour was built, so the current node has nothing to do when a runner
that nobody keeps ends there. -/
def unwind (m : Machine σ) (f : Frame σ) : Machine σ :=
  match f with
  | .run _ => m
  | .deliver _ _ => { m with panic := none }.push f
  | .dispatch r _ =>
    match m.world.runners[r]? with
    | none => m
    | some runner =>
      if runner.lifetime = .released then
        (m.setRunner r
          { runner with dispatching := false, current := none, lifetime := .over }).expireBus
            runner.bus
      else m.setRunner r { runner with dispatching := false }
  | .entering r _ =>
    match m.world.runners[r]? with
    | none => { m with panic := none }
    | some runner =>
      { m.setRunner r { runner with queue := [], halted := true } with panic := none }
  | .exiting _ _ => { m with panic := none }
  | .leaving _ _ => m

def step (kinds : Registry (Behaviour σ)) (m : Machine σ) : Option (Machine σ) :=
  match m.stack with
  | [] => none
  | f :: stack =>
    let rest := { m with stack }
    some (if m.panic.isSome then rest.unwind f else rest.resume kinds f)

/-- Goes on until nothing is going on any more, for at most a number of steps. -/
def run (kinds : Registry (Behaviour σ)) : Nat → Machine σ → Option (Machine σ)
  | 0, _ => none
  | steps + 1, m =>
    match m.step kinds with
    | none => some m
    | some m => run kinds steps m

/-- Lets a script run in a session in which nothing is going on. -/
def call (m : Machine σ) (s : Script σ) : Machine σ := { m with stack := [.run s], panic := none }

end Machine

end StoryGraph
