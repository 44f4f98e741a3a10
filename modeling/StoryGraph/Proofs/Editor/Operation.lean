import StoryGraph.Proofs.Editor.Mirror

/-!
# What is done with an editor

An editor is used by one operation after the other. Six kinds of operations make edits, which are
recorded; the others save, or take edits back and do them again. An operation that makes no edit,
saves nothing and moves nothing in the history leaves the editor as it is.
-/

namespace StoryGraph

/-- Something that is done with an editor. A folder is that in which files are kept at the time. -/
inductive Operation where
  | addNode (id : NodeId) (tag : String) (position : Option Position)
  | connect (source target : NodeId)
  | disconnect (source target : NodeId)
  | deleteNode (id : NodeId)
  | moveNode (id : NodeId) (position : Position)
  | setStart (id : NodeId)
  | save (folder : Folder)
  | saveAs (folder : Folder) (path : String)
  | undo
  | redo

inductive Answer where
  | done
  | told (yes : Bool)
  | counted (n : Nat)
  | named (id : NodeId)

namespace Operation

variable {β : Type}

def perform (op : Operation) (e : Editor β) : Except StoryError Answer × Editor β :=
  match op with
  | addNode new tag position => (e.addNode new tag position).map (Except.map .named) id
  | connect source target => (e.connect source target).map (Except.map .told) id
  | disconnect source target => (e.disconnect source target).map (Except.map .counted) id
  | deleteNode target => (e.deleteNode target).map (Except.map fun _ => .done) id
  | moveNode target position => (e.moveNode target position).map (Except.map fun _ => .done) id
  | setStart target => (e.setStart target).map (Except.map fun _ => .done) id
  | save folder => (e.save folder).map (Except.map fun _ => .done) Prod.fst
  | saveAs folder path => (e.saveAs folder path).map (Except.map fun _ => .done) Prod.fst
  | undo => e.undo.map (Except.map .told) id
  | redo => e.redo.map (Except.map .told) id

def after (op : Operation) (e : Editor β) : Editor β := (op.perform e).2

def saves : Operation → Bool
  | save _ | saveAs _ _ => true
  | _ => false

/-- Whether an operation made an edit, by what was answered. A move is answered alike in any case;
it is an edit if it moves the box. -/
def editsBy (op : Operation) (e : Editor β) (answer : Except StoryError Answer) : Bool :=
  match op, answer with
  | addNode .., .ok _ => true
  | connect .., .ok (.told isNew) => isNew
  | disconnect .., .ok (.counted n) => n != 0
  | deleteNode .., .ok _ => true
  | moveNode target position, .ok _ =>
    (e.view.node? target).any fun box => !box.position.same (e.config.snap position)
  | setStart .., .ok _ => true
  | _, _ => false

def edits (op : Operation) (e : Editor β) : Bool := op.editsBy e (op.perform e).1

end Operation

namespace Editor

variable {β : Type}

def run (e : Editor β) (ops : List Operation) : Editor β := ops.foldl (fun e op => op.after e) e

/-- An operation makes an edit, which leads to a draft. -/
inductive Makes (e : Editor β) : Operation → Command → Draft → Prop
  | addNode {tag : String} {position : Option Position} {node : Node} {graph : Graph}
      (add : e.graph.addNode node = .ok graph) :
      Makes e (.addNode node.id tag position) (.addNode node e.graph.start.isNone)
        { e.toDraft with
          graph := { graph with
            start := if e.graph.start.isNone then some node.id else e.graph.start } }
  | connect {source target : NodeId} {graph : Graph}
      (link : e.graph.link source target = .ok (true, graph)) :
      Makes e (.connect source target) (.connect source target) { e.toDraft with graph }
  | disconnect {source target : NodeId} {slots : List Nat} {graph : Graph}
      (unlink : e.graph.unlink source target = .ok (slots, graph)) :
      Makes e (.disconnect source target) (.disconnect source target slots)
        { e.toDraft with graph }
  | deleteNode {id : NodeId} {removed : RemovedNode} {graph : Graph}
      (remove : e.graph.removeNode id = some (removed, graph)) :
      Makes e (.deleteNode id)
        (.deleteNode { removed with node := e.view.reposition removed.node })
        { e.toDraft with graph }
  | moveNode {id : NodeId} {position : Position} {box : ViewNode}
      (box_eq : e.view.node? id = some box) :
      Makes e (.moveNode id position) (.move id box.position (e.config.snap position))
        { e.toDraft with view := e.view.place id (e.config.snap position) }
  | setStart {id : NodeId} {graph : Graph} (set : e.graph.setStart id = .ok graph) :
      Makes e (.setStart id) (.setStart e.graph.start id) { e.toDraft with graph }

/-- A save brings the positions that are seen into the graph, also if the file cannot be written. -/
inductive Saves (e : Editor β) : Editor β → Prop
  | failed : Saves e { e with graph := e.form }
  | written (path : String) : Saves e { e with graph := e.form, path := some path, dirty := false }

variable {e : Editor β} {op : Operation} {c : Command} {d : Draft} {history : History Command}

/-! ### Taking back and doing again -/

theorem undo_of_none (h : e.history.popUndo? = none) : e.undo = (.ok false, e) := by
  rw [undo, h]

theorem undo_of_ok (h : e.history.popUndo? = some (c, history)) (hd : e.revert c = .ok d) :
    e.undo = (.ok true, e.update d (history.pushRedo c)) := by
  simp only [undo, h, hd]

theorem undo_of_error (h : e.history.popUndo? = some (c, history)) {x : StoryError}
    (hx : e.revert c = .error x) : e.undo = (.error x, { e with history }) := by
  simp only [undo, h, hx]

theorem redo_of_none (h : e.history.popRedo? = none) : e.redo = (.ok false, e) := by
  rw [redo, h]

theorem redo_of_ok (h : e.history.popRedo? = some (c, history)) (hd : e.apply c = .ok d) :
    e.redo = (.ok true, e.update d (history.remember c)) := by
  simp only [redo, h, hd]

theorem redo_of_error (h : e.history.popRedo? = some (c, history)) {x : StoryError}
    (hx : e.apply c = .error x) : e.redo = (.error x, { e with history }) := by
  simp only [redo, h, hx]

/-! ### Edits and saves -/

theorem saves_saveAs (hd : e.Mirrors e.kinds) (folder : Folder) (path : String) :
    e.Saves (e.saveAs folder path).2.1 := by
  rw [saveAs, settled_eq hd]
  cases h : folder.write? path e.form.write with
  | none =>
      simp only [h]
      exact .failed
  | some folder =>
      simp only [h]
      exact .written path

theorem update_place (hd : e.Mirrors e.kinds) (id : NodeId) (position : Position)
    (history : History Command) :
    e.update { e.toDraft with view := e.view.place id position } history =
      { e with view := e.view.place id position, history, dirty := true } := by
  have hsync : (e.view.place id position).sync e.kinds e.graph = e.view.place id position := by
    rw [View.sync_eq_build]
    exact (Draft.mirrors_place hd id position).view_eq.symm
  rw [update, hsync]

/-- A node that is added leads nowhere, and it is put where it was asked for, as close as the grid
allows, or where there is room. -/
theorem perform_addNode_cases (e : Editor β) (new : NodeId) (tag : String)
    (position : Option Position) :
    (∃ x, (Operation.addNode new tag position).perform e = (.error x, e)) ∨
      ∃ node c d, e.Makes (.addNode new tag position) c d ∧
        c = .addNode node e.graph.start.isNone ∧ node.outputs = [] ∧
        node.position = e.config.snap (position.getD e.freePosition) ∧
        (Operation.addNode new tag position).perform e =
          (.ok (.named new), e.update d (e.history.record c)) := by
  rw [Operation.perform, addNode]
  cases e.kinds.kind? tag with
  | none => exact .inl ⟨_, rfl⟩
  | some kind =>
      dsimp only
      generalize hnode : Node.mk kind.tag new kind.label _ [] kind.defaults = node
      have hbare : node.outputs = [] := hnode ▸ rfl
      have hplace : node.position = e.config.snap (position.getD e.freePosition) := hnode ▸ rfl
      obtain rfl : node.id = new := hnode ▸ rfl
      cases hadd : e.graph.addNode node with
      | error x => exact .inl ⟨_, rfl⟩
      | ok graph =>
          refine .inr ⟨node, _, _, .addNode hadd, rfl, hbare, hplace, ?_⟩
          obtain ⟨-, rfl⟩ := Graph.addNode_eq_ok_iff.1 hadd
          cases hs : e.graph.start <;> simp [commit, Except.map]

theorem perform_addNode (e : Editor β) (new : NodeId) (tag : String) (position : Option Position) :
    (∃ x, (Operation.addNode new tag position).perform e = (.error x, e)) ∨
      ∃ c d, e.Makes (.addNode new tag position) c d ∧
        (Operation.addNode new tag position).perform e =
          (.ok (.named new), e.update d (e.history.record c)) := by
  rcases e.perform_addNode_cases new tag position with herror | ⟨node, c, d, hmakes, -, -, -, h⟩
  · exact .inl herror
  · exact .inr ⟨c, d, hmakes, h⟩

theorem perform_connect (e : Editor β) (source target : NodeId) :
    ((∃ x, (Operation.connect source target).perform e = (.error x, e)) ∨
        (Operation.connect source target).perform e = (.ok (.told false), e)) ∨
      ∃ c d, e.Makes (.connect source target) c d ∧
        (Operation.connect source target).perform e =
          (.ok (.told true), e.update d (e.history.record c)) := by
  rw [Operation.perform, connect]
  cases hl : e.graph.link source target with
  | error x => exact .inl (.inl ⟨_, rfl⟩)
  | ok r =>
      obtain ⟨isNew, graph⟩ := r
      cases isNew with
      | false => exact .inl (.inr rfl)
      | true => exact .inr ⟨_, _, .connect hl, rfl⟩

theorem perform_disconnect (e : Editor β) (source target : NodeId) :
    ((∃ x, (Operation.disconnect source target).perform e = (.error x, e)) ∨
        (Operation.disconnect source target).perform e = (.ok (.counted 0), e)) ∨
      ∃ c d n, e.Makes (.disconnect source target) c d ∧
        (Operation.disconnect source target).perform e =
          (.ok (.counted (n + 1)), e.update d (e.history.record c)) := by
  rw [Operation.perform, disconnect]
  cases hl : e.graph.unlink source target with
  | error x => exact .inl (.inl ⟨_, rfl⟩)
  | ok r =>
      obtain ⟨slots, graph⟩ := r
      cases slots with
      | nil => exact .inl (.inr rfl)
      | cons slot slots => exact .inr ⟨_, _, slots.length, .disconnect hl, rfl⟩

theorem perform_deleteNode (e : Editor β) (target : NodeId) :
    (∃ x, (Operation.deleteNode target).perform e = (.error x, e)) ∨
      ∃ c d, e.Makes (.deleteNode target) c d ∧
        (Operation.deleteNode target).perform e = (.ok .done, e.update d (e.history.record c)) := by
  rw [Operation.perform, deleteNode]
  cases hr : e.graph.removeNode target with
  | none => exact .inl ⟨_, rfl⟩
  | some r =>
      obtain ⟨removed, graph⟩ := r
      obtain ⟨-, rfl, -⟩ := Graph.exists_of_removeNode hr
      exact .inr ⟨_, _, .deleteNode hr, rfl⟩

/-- A move to where the box is, as far as numbers tell, is no edit. -/
theorem perform_moveNode (hd : e.Mirrors e.kinds) (target : NodeId) (position : Position) :
    ((∃ x, (Operation.moveNode target position).perform e = (.error x, e)) ∨
        (∃ box, e.view.node? target = some box ∧ box.position.same (e.config.snap position) = true) ∧
          (Operation.moveNode target position).perform e = (.ok .done, e)) ∨
      (∃ box, e.view.node? target = some box ∧ box.position.same (e.config.snap position) = false) ∧
        ∃ c d, e.Makes (.moveNode target position) c d ∧
          (Operation.moveNode target position).perform e =
            (.ok .done, e.update d (e.history.record c)) := by
  rw [Operation.perform, moveNode]
  cases hbox : e.view.node? target with
  | none => exact .inl (.inl ⟨_, rfl⟩)
  | some box =>
      dsimp only
      cases hsame : box.position.same (e.config.snap position) with
      | true => exact .inl (.inr ⟨⟨box, rfl, hsame⟩, rfl⟩)
      | false =>
          rw [← update_place hd]
          exact .inr ⟨⟨box, rfl, hsame⟩, _, _, .moveNode hbox, rfl⟩

theorem perform_setStart (e : Editor β) (target : NodeId) :
    (∃ x, (Operation.setStart target).perform e = (.error x, e)) ∨
      ∃ c d, e.Makes (.setStart target) c d ∧
        (Operation.setStart target).perform e = (.ok .done, e.update d (e.history.record c)) := by
  rw [Operation.perform, setStart]
  cases hs : e.graph.setStart target with
  | error x => exact .inl ⟨_, rfl⟩
  | ok graph => exact .inr ⟨_, _, .setStart hs, rfl⟩

theorem after_save (hd : e.Mirrors e.kinds) (folder : Folder) :
    (Operation.save folder).after e = e ∨ e.Saves ((Operation.save folder).after e) := by
  rw [Operation.after, Operation.perform, save]
  cases e.path with
  | none => exact .inl rfl
  | some path => exact .inr (saves_saveAs hd folder path)

theorem after_eq {answer : Except StoryError Answer} {e' : Editor β}
    (h : op.perform e = (answer, e')) : op.after e = e' :=
  congrArg Prod.snd h

theorem edits_eq {answer : Except StoryError Answer} {e' : Editor β}
    (h : op.perform e = (answer, e')) : op.edits e = op.editsBy e answer := by
  rw [Operation.edits, h]

/-- What an operation does that is to make an edit: it makes it, which is recorded, or it does
nothing. -/
theorem edit_cases (hd : e.Mirrors e.kinds) (hsaves : op.saves = false) (hundo : op ≠ .undo)
    (hredo : op ≠ .redo) :
    (op.edits e = true ∧ ∃ c d, e.Makes op c d ∧ op.after e = e.update d (e.history.record c)) ∨
      op.edits e = false ∧ op.after e = e := by
  cases op with
  | addNode new tag position =>
      rcases e.perform_addNode new tag position with ⟨x, h⟩ | ⟨c, d, hmakes, h⟩
      · exact .inr ⟨edits_eq h, after_eq h⟩
      · exact .inl ⟨edits_eq h, c, d, hmakes, after_eq h⟩
  | connect source target =>
      rcases e.perform_connect source target with (⟨x, h⟩ | h) | ⟨c, d, hmakes, h⟩
      · exact .inr ⟨edits_eq h, after_eq h⟩
      · exact .inr ⟨edits_eq h, after_eq h⟩
      · exact .inl ⟨edits_eq h, c, d, hmakes, after_eq h⟩
  | disconnect source target =>
      rcases e.perform_disconnect source target with (⟨x, h⟩ | h) | ⟨c, d, n, hmakes, h⟩
      · exact .inr ⟨edits_eq h, after_eq h⟩
      · exact .inr ⟨edits_eq h, after_eq h⟩
      · exact .inl ⟨edits_eq h, c, d, hmakes, after_eq h⟩
  | deleteNode target =>
      rcases e.perform_deleteNode target with ⟨x, h⟩ | ⟨c, d, hmakes, h⟩
      · exact .inr ⟨edits_eq h, after_eq h⟩
      · exact .inl ⟨edits_eq h, c, d, hmakes, after_eq h⟩
  | moveNode target position =>
      rcases e.perform_moveNode hd target position with
        (⟨x, h⟩ | ⟨⟨box, hbox, hsame⟩, h⟩) | ⟨⟨box, hbox, hsame⟩, c, d, hmakes, h⟩
      · exact .inr ⟨edits_eq h, after_eq h⟩
      · refine .inr ⟨?_, after_eq h⟩
        rw [edits_eq h, Operation.editsBy, hbox, Option.any_some, hsame]
        rfl
      · refine .inl ⟨?_, c, d, hmakes, after_eq h⟩
        rw [edits_eq h, Operation.editsBy, hbox, Option.any_some, hsame]
        rfl
  | setStart target =>
      rcases e.perform_setStart target with ⟨x, h⟩ | ⟨c, d, hmakes, h⟩
      · exact .inr ⟨edits_eq h, after_eq h⟩
      · exact .inl ⟨edits_eq h, c, d, hmakes, after_eq h⟩
  | save | saveAs => cases hsaves
  | undo => exact absurd rfl hundo
  | redo => exact absurd rfl hredo

/-- What an operation does that neither takes an edit back nor does one again: it makes an edit,
which is recorded, or it saves, or it does nothing. -/
theorem after_cases (hd : e.Mirrors e.kinds) (hundo : op ≠ .undo) (hredo : op ≠ .redo) :
    (op.edits e = true ∧ ∃ c d, e.Makes op c d ∧ op.after e = e.update d (e.history.record c)) ∨
      op.edits e = false ∧ (op.after e = e ∨ e.Saves (op.after e)) := by
  cases hsaves : op.saves with
  | false => exact (edit_cases hd hsaves hundo hredo).imp id fun h => ⟨h.1, .inl h.2⟩
  | true =>
      cases op with
      | save folder => exact .inr ⟨rfl, after_save hd folder⟩
      | saveAs folder path => exact .inr ⟨rfl, .inr (saves_saveAs hd folder path)⟩
      | _ => cases hsaves

end Editor

end StoryGraph
