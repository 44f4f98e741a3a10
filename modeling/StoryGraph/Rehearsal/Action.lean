import StoryGraph.Blackboard.Entry
import StoryGraph.Flow.Bus
import StoryGraph.Flow.Runner
import StoryGraph.Json.Value

/-!
# Actions

A rehearsal is told what to do by actions: what happens on the stage, and what the listeners and
the nodes that take part in it do when they are called. Actions name runners, subscriptions and
held signals by words of their own.

An action is written as a JSON object whose member `do` names it. What is left out is as usual.
-/

namespace StoryGraph

open Json (Value)

def Blackboard.Value.written (v : Json.Value) : Blackboard.Value :=
  if v.has "int" then
    (readInt? (v.text "int").toList).elim (.bool false) fun ⟨n, h⟩ => .int n h
  else if v.has "float" then
    .float ((readFloat? .double (v.text "float").toList).getD (.zero false))
  else if v.has "bool" then .bool (v.flag "bool")
  else if v.has "str" then .string (v.text "str")
  else if v.has "object" then .object (.text (v.text "object"))
  else .object (.count (v.count "object_u32"))

/-- An entry is written as the list of its fields. A type that is none counts as `string`. -/
def Blackboard.Entry.written (v : Json.Value) : Blackboard.Entry :=
  let field (i : Nat) : String := (v.items[i]?.bind Value.string?).getD ""
  { key := field 0, type := (Blackboard.ValueType.ofName? (field 1)).getD .string, text := field 2 }

def GameObject.written (v : Json.Value) : GameObject :=
  match Blackboard.Value.written v with
  | .object o => o
  | _ => .count 0

namespace Rehearsal

inductive Channel where
  | runner (name : String)
  /-- Through a handle that was kept when the runner was made. -/
  | handle (name : String)
  /-- By the node that is being entered or left. -/
  | own
deriving DecidableEq

/-- What can be done with a runner when nothing is going on. -/
inductive Errand where
  | inspect
  | drop
  | clone (name : String)
  | set (key : String) (value : Blackboard.Value)
  | get (key : String)
  | entries
  | load (entries : List Blackboard.Entry)
  | expose (name : String) (object : GameObject)
  | exposed (name : String)
  | raise (key : String)

/-- What a node can do that is being entered or left. -/
inductive Turn where
  /-- Puts the word that the node is done off, into a slot that others can reach. -/
  | hold (slot : Option String)
  /-- The same, but the slot keeps one word only, and only its first use counts. -/
  | holdOnce (slot : Option String)
  | ready
  | inspectReady
  | raise (key : String)
  | set (key : String) (value : Blackboard.Value)
  | get (key : String)
  | exposed (name : String)
  | nodes

inductive Action where
  | step (log : Nat) (quest : String) (step : QuestStep)
  | state (log : Nat) (quest : String)
  | listen (log : Nat) (name : String) (callback : List (String × Action))
  | unlisten (log : Nat) (name : String)
  | raise (bus : Nat) (key : String)
  | subscribe (bus : Nat) (key name : String) (callback : List (String × Action))
  | unsubscribe (bus : Nat) (key name : String)
  | await (bus : Nat) (quest name : String) (callback : List (String × Action))
  | unawait (bus : Nat) (quest name : String)
  | pending (bus : Nat) (key : String)
  | clear (bus : Nat)
  | subscribers (bus : Nat) (key : String)
  | questStep (bus : Nat) (quest : String) (step : QuestStep)
  | completed (bus : Nat) (quest : String)
  | notify (bus : Nat)
  | serve (bus : Nat) (service : Option QuestService)
  | close (bus : Nat)
  | panic (p : Panic)
  | assign (name : String) (graph : String) (bus : Nat) (limit : Option Nat)
  | start (runner : String)
  | ask (channel : Channel) (request : Request)
  | flow (runner : String)
  | nodes (runner : String)
  | inspectHandle (name : String)
  | errand (runner : String) (e : Errand)
  | fire (slot : String) (oldest : Bool)
  | fireOnce (slot : String)
  | turn (t : Turn)
  | unknown

namespace Action

def jump (v : Value) : Request := .jump ⟨v.text "from"⟩ (v.count "index")

def service? (v : Value) : Option QuestService :=
  match v.text "service" with
  | "log" => some { log := v.count "log", pushes := true }
  | "silent" => some { log := v.count "log", pushes := false }
  | _ => none

def described (v : Value) (callback : List (String × Action)) : Action :=
  let bus := v.count "bus"
  let log := v.count "log"
  let key := v.text "key"
  let quest := v.text "quest"
  let name := v.text "name"
  let sub := v.text "sub"
  let offer : QuestStep := .offer (v.text "source")
  let goTo : Request := .goTo ⟨v.text "id"⟩
  let runner := (v.text? "runner").getD "r"
  let value := Blackboard.Value.written ((v.member? "value").getD .null)
  match v.text "do" with
  | "log_offer" => .step log quest offer
  | "log_start" => .step log quest .start
  | "log_complete" => .step log quest .complete
  | "log_state" => .state log quest
  | "listen" => .listen log name callback
  | "unlisten" => .unlisten log sub
  | "raise" => .raise bus key
  | "subscribe" => .subscribe bus key name callback
  | "unsubscribe" => .unsubscribe bus key sub
  | "on_completed" => .await bus quest name callback
  | "off_completed" => .unawait bus quest sub
  | "is_pending" => .pending bus key
  | "clear_pending" => .clear bus
  | "count" => .subscribers bus key
  | "offer" => .questStep bus quest offer
  | "quest_start" => .questStep bus quest .start
  | "complete" => .questStep bus quest .complete
  | "is_completed" => .completed bus quest
  | "notify" => .notify bus
  | "set_service" => .serve bus (service? v)
  | "drop_bus" => .close bus
  | "panic" => .panic ⟨some (v.text "text")⟩
  | "panic_static" => .panic ⟨some "static panic"⟩
  | "panic_any" => .panic ⟨none⟩
  | "runner" => .assign runner (v.text "graph") bus (v.count? "max")
  | "start" => .start runner
  | "goto" => .ask (.runner runner) goTo
  | "advance" => .ask (.runner runner) .advance
  | "jump" => .ask (.runner runner) (jump v)
  | "stop" => .ask (.runner runner) .stop
  | "flow_goto" => .ask (.handle (v.text "flow")) goTo
  | "flow_advance" => .ask (.handle (v.text "flow")) .advance
  | "flow_jump" => .ask (.handle (v.text "flow")) (jump v)
  | "flow_debug" => .inspectHandle (v.text "flow")
  | "state" => .flow runner
  | "nodes" => .nodes runner
  | "debug" => .errand runner .inspect
  | "drop" => .errand runner .drop
  | "clone" => .errand runner (.clone (v.text "as"))
  | "bb_set" => .errand runner (.set key value)
  | "bb_get" => .errand runner (.get key)
  | "bb_export" => .errand runner .entries
  | "bb_import" => .errand runner (.load ((v.list "entries").map Blackboard.Entry.written))
  | "expose" => .errand runner
      (.expose name (GameObject.written ((v.member? "value").getD .null)))
  | "exposed" => .errand runner (.exposed name)
  | "raise_via" => .errand runner (.raise key)
  | "fire" => .fire (v.text "slot") (v.flag "oldest")
  | "fire_once" => .fireOnce (v.text "slot")
  | "hold" => .turn (.hold (v.text? "slot"))
  | "hold_once" => .turn (.holdOnce (v.text? "slot"))
  | "ready" => .turn .ready
  | "ready_debug" => .turn .inspectReady
  | "ctx_goto" => .ask .own goTo
  | "ctx_advance" => .ask .own .advance
  | "ctx_jump" => .ask .own (jump v)
  | "ctx_raise" => .turn (.raise key)
  | "ctx_set" => .turn (.set key value)
  | "ctx_get" => .turn (.get key)
  | "ctx_exposed" => .turn (.exposed name)
  | "ctx_nodes" => .turn .nodes
  | _ => .unknown

mutual

def read : Value → String × Action
  | .object members =>
    let v : Value := .object members
    (v.text "do", described v (callback members))
  | _ => ("", .unknown)

def callback : List (String × Value) → List (String × Action)
  | [] => []
  | (name, .array items) :: rest => if name = "cb" then readItems items else callback rest
  | (_, _) :: rest => callback rest

def readItems : List Value → List (String × Action)
  | [] => []
  | v :: rest => read v :: readItems rest

end

def readAll (v : Value) : List (String × Action) := readItems v.items

end Action

end Rehearsal

end StoryGraph
