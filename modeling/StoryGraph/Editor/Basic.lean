import StoryGraph.Editor.Command
import StoryGraph.Editor.History
import StoryGraph.Editor.Settings
import StoryGraph.Graph.Asset

/-!
# The editor

An editor holds a draft, a history of its edits, the file it belongs to, and whether there is
anything to save. Every operation answers with its result and the editor that is left.

Positions live in two places. The view has those that are seen and moved; the graph gets them when
it is saved. A deleted node is recorded with the position of its box, so it comes back to where it
was seen.

An edit that cannot be undone or redone is lost from the history.
-/

namespace StoryGraph

/-! ### Files -/

/-- The folder in which an editor keeps its files. -/
structure Folder where
  files : Table String := ∅

namespace Folder

instance : Inhabited Folder := ⟨{}⟩

def isFileName (name : String) : Bool :=
  name != "" && name != "." && name != ".." && !name.contains '/' && !name.contains '\x00' &&
    name.utf8ByteSize ≤ 255

def read? (f : Folder) (name : String) : Option String := f.files.get? name

def write? (f : Folder) (name text : String) : Option Folder :=
  if isFileName name then some ⟨f.files.insert name text⟩ else none

end Folder

/-! ### Editors -/

structure Editor (β : Type _) extends Draft where
  kinds : Registry β
  config : EditorConfig
  history : History Command
  path : Option String := none
  dirty : Bool := false

namespace Editor

variable {β : Type _}

def empty (kinds : Registry β) (config : EditorConfig) : Editor β :=
  { kinds, config, history := { limit := config.historyLimit } }

/-- Edits another graph, which has no file yet. -/
def load (e : Editor β) (graph : Graph) : Editor β :=
  { e with graph, view := .build e.kinds graph, history := e.history.clear, path := none
           dirty := false }

def new (e : Editor β) : Editor β := e.load {}

def openFile (e : Editor β) (folder : Folder) (path : String) : Except StoryError Unit × Editor β :=
  match folder.read? path with
  | none => (.error (.data .io), e)
  | some text =>
    match Graph.read text with
    | .error x => (.error (.data x), e)
    | .ok graph => (.ok (), { e.load graph with path := some path })

/-- The editor with a changed draft, of which the view is brought up to date. -/
def update (e : Editor β) (d : Draft) (history : History Command) : Editor β :=
  { e with graph := d.graph, view := d.view.sync e.kinds d.graph, history, dirty := true }

def commit (e : Editor β) (graph : Graph) (c : Command) : Editor β :=
  e.update { e.toDraft with graph } (e.history.record c)

/-- Where a node goes that was given no position: to the right of the last one. -/
def freePosition (e : Editor β) : Position :=
  e.view.nodes.getLast?.elim .origin fun n =>
    n.position.offset e.config.defaultSpacing (.zero false)

/-- Adds a node of a kind, under a name that is new. The first node becomes the start. -/
def addNode (e : Editor β) (id : NodeId) (tag : String) (position : Option Position) :
    Except StoryError NodeId × Editor β :=
  match e.kinds.kind? tag with
  | none => (.error (.unknownKind tag), e)
  | some kind =>
    let node : Node := {
      kind := kind.tag, id, title := kind.label
      position := e.config.snap (position.getD e.freePosition), properties := kind.defaults }
    match e.graph.addNode node with
    | .error x => (.error (.data x), e)
    | .ok graph =>
      let becameStart := graph.start.isNone
      let graph := if becameStart then { graph with start := some id } else graph
      (.ok id, e.commit graph (.addNode node becameStart))

/-- Adds an edge. The answer tells whether it is new. -/
def connect (e : Editor β) (source target : NodeId) : Except StoryError Bool × Editor β :=
  match e.graph.link source target with
  | .error x => (.error (.data x), e)
  | .ok (false, _) => (.ok false, e)
  | .ok (true, graph) => (.ok true, e.commit graph (.connect source target))

/-- Cuts an edge. The answer is the number of slots it was in. -/
def disconnect (e : Editor β) (source target : NodeId) : Except StoryError Nat × Editor β :=
  match e.graph.unlink source target with
  | .error x => (.error (.data x), e)
  | .ok ([], _) => (.ok 0, e)
  | .ok (slots, graph) => (.ok slots.length, e.commit graph (.disconnect source target slots))

def deleteNode (e : Editor β) (id : NodeId) : Except StoryError Unit × Editor β :=
  match e.graph.removeNode id with
  | none => (.error (.unknownNode id), e)
  | some (removed, graph) =>
    let position := (e.view.node? id).elim removed.node.position ViewNode.position
    let removed := { removed with node := { removed.node with position } }
    (.ok (), e.commit graph (.deleteNode removed))

/-- Moves the box of a node. A move to where it is counts for nothing. -/
def moveNode (e : Editor β) (id : NodeId) (position : Position) :
    Except StoryError Unit × Editor β :=
  let after := e.config.snap position
  match e.view.node? id with
  | none => (.error (.unknownNode id), e)
  | some box =>
    if box.position.same after then (.ok (), e)
    else
      (.ok (), { e with
        view := e.view.place id after
        history := e.history.record (.move id box.position after)
        dirty := true })

def setStart (e : Editor β) (id : NodeId) : Except StoryError Unit × Editor β :=
  match e.graph.setStart id with
  | .error x => (.error (.data x), e)
  | .ok graph => (.ok (), e.commit graph (.setStart e.graph.start id))

/-- The graph with the positions that are seen. -/
def settled (e : Editor β) : Except DataError Graph :=
  e.view.nodes.foldlM (fun g n => g.setPosition n.id n.position) e.graph

/-- Saves the graph to a file. The graph has the positions that are seen even if the file cannot be
written. -/
def saveAs (e : Editor β) (folder : Folder) (path : String) :
    Except StoryError Unit × Editor β × Folder :=
  match e.settled with
  | .error x => (.error (.data x), e, folder)
  | .ok graph =>
    match folder.write? path graph.write with
    | none => (.error (.data .io), { e with graph }, folder)
    | some folder => (.ok (), { e with graph, path := some path, dirty := false }, folder)

def save (e : Editor β) (folder : Folder) : Except StoryError Unit × Editor β × Folder :=
  match e.path with
  | none => (.error .noAssetPath, e, folder)
  | some path => e.saveAs folder path

/-- Takes the last edit back. The answer tells whether there was one. -/
def undo (e : Editor β) : Except StoryError Bool × Editor β :=
  match e.history.popUndo? with
  | none => (.ok false, e)
  | some (c, history) =>
    match e.toDraft.revert c with
    | .error x => (.error x, { e with history })
    | .ok d => (.ok true, e.update d (history.pushRedo c))

/-- Does the edit again that was taken back last. The answer tells whether there was one. -/
def redo (e : Editor β) : Except StoryError Bool × Editor β :=
  match e.history.popRedo? with
  | none => (.ok false, e)
  | some (c, history) =>
    match e.toDraft.apply c with
    | .error x => (.error x, { e with history })
    | .ok d => (.ok true, e.update d (history.remember c))

def inspect (e : Editor β) : String :=
  let path := e.path.elim "None" fun p => "Some(" ++ Text.quoted p ++ ")"
  "GraphEditor \x7b nodes: " ++ toString e.graph.nodes.length ++ ", path: " ++ path ++
    ", dirty: " ++ toString e.dirty ++ ", .. \x7d"

end Editor

end StoryGraph
