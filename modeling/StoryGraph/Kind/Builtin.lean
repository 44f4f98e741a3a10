import StoryGraph.Flow.Script
import StoryGraph.Json.Value

/-!
# The kinds that are always there

Six kinds: a note, which is done at once; setting a value on the blackboard; raising an event;
waiting for one; offering a quest and waiting until it is completed; and a branch on a value of the
blackboard, which jumps and is never done.

The settings of a node are read when its behaviour is built, so a node with settings that do not
suit its kind is refused before it does anything.
-/

namespace StoryGraph

/-- A setting that has to be a text, and not the empty one. -/
def Node.requiredText (n : Node) (name : String) : Except StoryError String :=
  match (n.text? name).filter fun s => s ≠ "" with
  | some s => .ok s
  | none => .error (.invalidProperties n.id ("missing string property '" ++ name ++ "'"))

/-- The value of a blackboard that a scalar stands for. A whole number that does not fit becomes a
floating point number. -/
def Blackboard.Value.ofJson? : Json.Value → Option Blackboard.Value
  | .bool b => some (.bool b)
  | .string s => some (.string s)
  | .number (.whole n _) =>
    some (if h : FitsSigned n then .int n h else .float (.ofInt .double n))
  | .number (.real x _) => some (.float x)
  | _ => none

namespace Builtin

variable {σ : Type}

def done (v : Visit) : Script σ := .done v.runner v.number fun _ => .stop

def note : Behaviour σ := done

def setValue (key : String) (value : Blackboard.Value) : Behaviour σ := fun v =>
  .set v.runner key value (done v)

def raiseEvent (key : String) : Behaviour σ := fun v => .raise v.bus key (done v)

/-- Waits for an event, and gives up waiting when the node is left. -/
def waitEvent (key : String) : Behaviour σ := fun v =>
  .subscribe v.bus key (done v) fun
    | none => .stop
    | some id =>
      .onLeave v.runner v.number (.unsubscribe v.bus key id fun _ => .stop) .stop

/-- Waits for a quest to be completed, and gives up waiting when the node is left. -/
def waitQuest (quest : String) : Behaviour σ := fun v =>
  .await v.bus quest (done v) fun
    | none => .stop
    | some id =>
      .onLeave v.runner v.number (.unawait v.bus quest id fun _ => .stop) .stop

def quest (name source : String) (autoStart : Bool) : Behaviour σ := fun v =>
  .quest v.bus name (.offer source) <|
    if autoStart then .quest v.bus name .start (waitQuest name v) else waitQuest name v

/-- The slot of the first successor is for true, the one behind it for all else. -/
def branch (id : NodeId) (key : String) : Behaviour σ := fun v =>
  .look fun w _ =>
    let taken := (w.runners[v.runner]?.bind (·.blackboard.bool? key)).getD false
    .ask v.runner (.jump id (if taken then 0 else 1)) .stop

def kind (tag label : String) (color : Color) (defaults : List (String × Json.Value))
    (read : Node → Except StoryError (Behaviour σ)) : Kind (Behaviour σ) where
  tag := tag
  label := label
  color := color
  defaults := .ofList defaults
  build n := match read n with
    | .ok behaviour => .ready behaviour
    | .error e => .refused e

def kinds : List (Kind (Behaviour σ)) :=
  [kind "note" "Note" ⟨0x9e, 0x9e, 0x9e⟩ [] fun _ => .ok note,
    kind "set_value" "Set Value" ⟨0x42, 0xa5, 0xf5⟩
      [("key", .string ""), ("value", .bool false)] fun n => do
        let key ← n.requiredText "key"
        let value := n.properties.get? "value"
        match value.bind Blackboard.Value.ofJson? with
        | some v => return setValue key v
        | none => throw (.invalidProperties n.id
            ("unsupported value " ++ Json.Value.inspectOption value)),
    kind "raise_event" "Raise Event" ⟨0xff, 0xa7, 0x26⟩ [("key", .string "")] fun n => do
        return raiseEvent (← n.requiredText "key"),
    kind "wait_event" "Wait For Event" ⟨0xab, 0x47, 0xbc⟩ [("key", .string "")] fun n => do
        return waitEvent (← n.requiredText "key"),
    kind "quest" "Quest" ⟨0x66, 0xbb, 0x6a⟩
      [("questId", .string ""), ("source", .string ""), ("autoStart", .bool true)] fun n => do
        let name ← n.requiredText "questId"
        return quest name ((n.text? "source").getD "") (n.flag? "autoStart" |>.getD true),
    kind "branch" "Branch" ⟨0xef, 0x53, 0x50⟩ [("key", .string "")] fun n => do
        return branch n.id (← n.requiredText "key")]

def registry : Registry (Behaviour σ) := ⟨kinds⟩

end Builtin

end StoryGraph
