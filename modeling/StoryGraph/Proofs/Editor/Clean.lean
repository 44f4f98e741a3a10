import Mathlib
import StoryGraph.Proofs.Editor.Reopening
import StoryGraph.Proofs.Editor.Usage

/-!
# Editors that have nothing to save

An editor is clean from the moment at which a graph is loaded, opened, begun anew or saved until the
next edit. What would be saved in the meantime is that graph, with the same positions to the last
bit: a refusal, an operation that does nothing and a save that fails do not change the form.
-/

namespace StoryGraph

variable {β : Type} {e : Editor β} {asset kept : Graph} {op : Operation} {use : Use}

/-- The graph that is loaded, opened, begun anew or saved by a use. -/
def Use.kept? (use : Use) (e : Editor β) : Option Graph :=
  match use with
  | load graph => some graph
  | openFile folder path => (folder.read? path).bind fun text => (Graph.read text).toOption
  | new => some {}
  | operate op => if op.saves && (op.perform e).1.isOk then some (op.after e).graph else none

namespace Editor

def lastKept (e : Editor β) (kept : Graph) : List Use → Graph
  | [] => kept
  | use :: uses => (use.perform e).2.lastKept ((use.kept? e).getD kept) uses

/-- There is nothing to save that is not in a graph that was kept. -/
def Clean (e : Editor β) (kept : Graph) : Prop := e.dirty = false → e.form = kept

theorem clean_of_dirty (h : e.dirty = true) (kept : Graph) : e.Clean kept := by
  intro hclean
  rw [h] at hclean
  cases hclean

/-- An operation that is not to write a file makes an edit or leaves the form as it was. -/
theorem after_of_not_saves (hd : e.Mirrors e.kinds) (hop : op.saves = false) :
    (op.after e).dirty = true ∨
      (op.after e).form = e.form ∧ (op.after e).dirty = e.dirty := by
  by_cases hundo : op = .undo
  · rw [hundo]
    change e.undo.2.dirty = true ∨ e.undo.2.form = e.form ∧ e.undo.2.dirty = e.dirty
    cases hpop : e.history.popUndo? with
    | none =>
        rw [undo_of_none hpop]
        exact .inr ⟨rfl, rfl⟩
    | some r =>
        cases hr : e.revert r.1 with
        | error x =>
            rw [undo_of_error hpop hr]
            exact .inr ⟨rfl, rfl⟩
        | ok d =>
            rw [undo_of_ok hpop hr]
            exact .inl rfl
  by_cases hredo : op = .redo
  · rw [hredo]
    change e.redo.2.dirty = true ∨ e.redo.2.form = e.form ∧ e.redo.2.dirty = e.dirty
    cases hpop : e.history.popRedo? with
    | none =>
        rw [redo_of_none hpop]
        exact .inr ⟨rfl, rfl⟩
    | some r =>
        cases hr : e.apply r.1 with
        | error x =>
            rw [redo_of_error hpop hr]
            exact .inr ⟨rfl, rfl⟩
        | ok d =>
            rw [redo_of_ok hpop hr]
            exact .inl rfl
  rcases edit_cases hd hop hundo hredo with ⟨-, c, d, -, hafter⟩ | ⟨-, hafter⟩ <;> rw [hafter]
  · exact .inl rfl
  · exact .inr ⟨rfl, rfl⟩

namespace Clean

/-- What is saved is kept from then on. A save that fails leaves what would be saved. -/
theorem saveAs (he : e.Clean kept) (hd : e.Mirrors e.kinds) (folder : Folder) (path : String) :
    let saved := e.saveAs folder path
    saved.2.1.Clean (if saved.1.isOk then saved.2.1.graph else kept) := by
  intro saved
  have hsaved : saved = e.saveAs folder path := rfl
  have hform : { e.toDraft with graph := e.form }.form = e.form := Draft.form_settle e.toDraft
  rw [Editor.saveAs, settled_eq hd] at hsaved
  cases hwrite : folder.write? path e.form.write with
  | none =>
      simp only [hwrite] at hsaved
      rw [hsaved]
      exact fun hclean => hform.trans (he hclean)
  | some folder =>
      simp only [hwrite] at hsaved
      rw [hsaved]
      exact fun _ => hform

theorem of_saves (he : e.Clean kept) (hd : e.Mirrors e.kinds) (hop : op.saves = true) :
    (op.after e).Clean (if (op.perform e).1.isOk then (op.after e).graph else kept) := by
  have hanswer : ∀ r : Except StoryError Unit, (r.map fun _ => Answer.done).isOk = r.isOk := by
    intro r
    cases r <;> rfl
  cases op with
  | save folder =>
      rw [Operation.after, Operation.perform, save]
      cases e.path with
      | none => exact he
      | some path =>
          rw [Prod.map_fst, hanswer]
          exact he.saveAs hd folder path
  | saveAs folder path =>
      rw [Operation.after, Operation.perform, Prod.map_fst, hanswer]
      exact he.saveAs hd folder path
  | addNode | connect | disconnect | deleteNode | moveNode | setStart | undo | redo => cases hop

theorem of_not_saves (he : e.Clean kept) (hd : e.Mirrors e.kinds) (hop : op.saves = false) :
    (op.after e).Clean kept := by
  rcases after_of_not_saves hd hop with hdirty | ⟨hform, hdirty⟩
  · exact clean_of_dirty hdirty kept
  · intro hclean
    exact hform.trans (he (hdirty.symm.trans hclean))

theorem load (e : Editor β) (hu : asset.Unique) (path : Option String) :
    { e.load asset with path }.Clean asset := fun _ => Draft.form_build hu e.kinds

theorem perform (he : e.Clean kept) (hs : e.Steady asset)
    (hload : ∀ graph, use = .load graph → graph.Unique) :
    (use.perform e).2.Clean ((use.kept? e).getD kept) := by
  cases use with
  | load graph => exact Clean.load e (hload graph rfl) none
  | new => exact Clean.load e Graph.unique_empty none
  | openFile folder path =>
      rw [Use.perform, Use.kept?, openFile]
      cases folder.read? path with
      | none => exact he
      | some text =>
          dsimp only [Option.bind_some]
          cases hread : Graph.read text with
          | error x => exact he
          | ok graph => exact Clean.load e (unique_of_read hread) (some path)
  | operate op =>
      rw [Use.kept?]
      cases hop : op.saves with
      | false => exact he.of_not_saves hs.mirrors hop
      | true =>
          have hsaved := he.of_saves hs.mirrors hop
          rw [Bool.true_and]
          split_ifs at hsaved ⊢ with hdone
          · exact hsaved
          · exact hsaved

theorem used (he : e.Clean kept) (hs : e.Steady asset) {uses : List Use}
    (hloads : ∀ graph, .load graph ∈ uses → graph.Unique) :
    (e.used uses).Clean (e.lastKept kept uses) := by
  induction uses generalizing e asset kept with
  | nil => exact he
  | cons use uses ih =>
      have hload : ∀ graph, use = .load graph → graph.Unique := fun graph huse =>
        hloads graph (huse ▸ List.mem_cons_self)
      obtain ⟨_, hperform⟩ := hs.perform hload
      exact ih (he.perform hs hload) hperform fun graph hmem =>
        hloads graph (List.mem_cons_of_mem use hmem)

end Clean

/-- However an editor was used, if there is nothing to save then what would be saved is the graph
that was loaded, opened, begun anew or saved last, with the same positions to the last bit. An
editor begins with an empty graph. -/
theorem clean_has_nothing_to_save (kinds : Registry β) (config : EditorConfig) {uses : List Use}
    (hloads : ∀ graph, .load graph ∈ uses → graph.Unique)
    (hclean : ((Editor.empty kinds config).used uses).dirty = false) :
    ((Editor.empty kinds config).used uses).form = (Editor.empty kinds config).lastKept {} uses :=
  have hsteady : (Editor.empty kinds config).Steady {} :=
    steady_load (Editor.empty kinds config) Graph.unique_empty
  have hempty : (Editor.empty kinds config).Clean {} := fun _ => rfl
  hempty.used hsteady hloads hclean

/-- A node is moved and the graph is saved. To move it to the same place again is nothing to
save. -/
theorem clean_has_nothing_to_save_moved :
    let e := Editor.empty (β := Unit) {} {}
    let note : Graph := { nodes := [{ kind := "note", id := ⟨"a"⟩ }] }
    let place : Position := ⟨.ofInt .single 5, .zero false⟩
    let uses : List Use := [.load note, .operate (.moveNode ⟨"a"⟩ place),
      .operate (.saveAs {} "a.json"), .operate (.moveNode ⟨"a"⟩ place)]
    (e.used uses).dirty = false ∧ (e.used uses).form = e.lastKept {} uses ∧
      (e.used uses).form.nodes.map Node.position = [place] := by
  intro e note place uses
  have hloads : ∀ graph, .load graph ∈ uses → graph.Unique := by
    intro graph hmem
    have hgraph : graph = note := by simpa [uses] using hmem
    rw [hgraph]
    decide
  have hmoved : (e.used [.load note, .operate (.moveNode ⟨"a"⟩ place)]).Steady note :=
    (steady_load e (by decide)).after (.moveNode ⟨"a"⟩ place)
  have hsaved := saveAs_eq hmoved.mirrors {} (by cbv : Folder.isFileName "a.json" = true)
  have hused : e.used uses = (Operation.moveNode ⟨"a"⟩ place).after
      ((e.used [.load note, .operate (.moveNode ⟨"a"⟩ place)]).saveAs {} "a.json").2.1 := rfl
  have hclean : (e.used uses).dirty = false := by
    rw [hused, hsaved]
    decide
  refine ⟨hclean, clean_has_nothing_to_save {} {} hloads hclean, ?_⟩
  rw [hused, hsaved]
  decide

end Editor

end StoryGraph
