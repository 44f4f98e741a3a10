import Mathlib
import StoryGraph.Proofs.Editor.Refusal

/-!
# Everything that is done with an editor

An editor is used by opening graphs and by operating on them. Whatever is done, and whatever of it
is refused, the view shows the graph as it is, except for where the boxes are.

A refusal leaves the editor as it was in all but two cases. An edit that cannot be taken back is
forgotten, and a graph that cannot be written has taken the positions that are seen.
-/

namespace StoryGraph

variable {β : Type} {kinds : Registry β} {g g' : Graph} {id : NodeId} {position : Position}

/-! ### Leaving positions aside -/

namespace Graph

def gathered (g : Graph) : Graph :=
  { g with nodes := g.nodes.map fun n => { n with position := .origin } }

theorem unique_empty : ({} : Graph).Unique := List.nodup_nil

theorem ids_gathered (g : Graph) : g.gathered.ids = g.ids := by
  rw [ids, gathered, List.map_map]
  rfl

theorem edges_gathered (g : Graph) : g.gathered.edges = g.edges := by
  have hmem : (fun id => decide (id ∈ g.gathered)) = fun id => decide (id ∈ g) := by
    funext id
    rw [decide_eq_decide]
    exact mem_of_ids_eq (ids_gathered g)
  rw [edges, edges, hmem, gathered, List.flatMap_map]

theorem ids_eq_of_gathered_eq (h : g'.gathered = g.gathered) : g'.ids = g.ids := by
  rw [← ids_gathered, h, ids_gathered]

theorem gathered_setPosition (h : g.setPosition id position = .ok g') :
    g'.gathered = g.gathered := by
  obtain ⟨-, rfl⟩ := modify?_eq_ok_iff.1 h
  have hnodes := map_modify_eq_map (f := fun n : Node => { n with position })
    (k := fun n : Node => { n with position := .origin }) fun _ => rfl
  exact congrArg (Graph.mk g.start) (hnodes _ _)

theorem exists_foldlM_setPosition {boxes : List ViewNode} (hmem : ∀ box ∈ boxes, box.id ∈ g) :
    ∃ g', boxes.foldlM (fun g n => g.setPosition n.id n.position) g = .ok g' ∧
      g'.gathered = g.gathered := by
  induction boxes generalizing g with
  | nil => exact ⟨g, rfl, rfl⟩
  | cons box boxes ih =>
      obtain ⟨g₁, hset⟩ : ∃ g₁, g.setPosition box.id box.position = .ok g₁ :=
        ⟨_, modify?_eq_ok_iff.2 ⟨hmem box List.mem_cons_self, rfl⟩⟩
      have hgathered := gathered_setPosition hset
      have hids := ids_eq_of_gathered_eq hgathered
      obtain ⟨g', hfold, hg'⟩ := ih fun b hb =>
        (mem_of_ids_eq hids).2 (hmem b (List.mem_cons_of_mem box hb))
      refine ⟨g', ?_, hg'.trans hgathered⟩
      rw [List.foldlM_cons, hset]
      exact hfold

end Graph

namespace View

variable {v : View}

def gathered (v : View) : View :=
  { v with nodes := v.nodes.map fun n => { n with position := .origin } }

theorem gathered_sync (v : View) (kinds : Registry β) (g : Graph) :
    (v.sync kinds g).gathered = build kinds g.gathered := by
  apply eq_of_fields
  · rw [nodes_build, gathered, sync, Graph.gathered, List.map_map, List.map_map]
    rfl
  · exact (Graph.edges_gathered g).symm
  · rfl

theorem gathered_place (v : View) (id : NodeId) (position : Position) :
    (v.place id position).gathered = v.gathered := by
  have hnodes := map_modify_eq_map (f := fun n : ViewNode => { n with position })
    (k := fun n : ViewNode => { n with position := .origin }) fun _ => rfl
  exact congrArg (fun nodes => View.mk nodes v.edges v.start) (hnodes _ _)

end View

/-! ### What a use does -/

/-- Something that is done with an editor. A graph or a file takes the place of what is edited. -/
inductive Use where
  | load (graph : Graph)
  | openFile (folder : Folder) (path : String)
  | new
  | operate (op : Operation)

def Use.perform (use : Use) (e : Editor β) : Except StoryError Answer × Editor β :=
  match use with
  | load graph => (.ok .done, e.load graph)
  | openFile folder path => (e.openFile folder path).map (Except.map fun _ => .done) fun e => e
  | new => (.ok .done, e.new)
  | operate op => op.perform e

namespace Editor

variable {e e' : Editor β} {use : Use} {c : Command} {d : Draft}
  {history : History Command} {x : StoryError}

def used (e : Editor β) (uses : List Use) : Editor β :=
  uses.foldl (fun e use => (use.perform e).2) e

def Writes (e : Editor β) : Use → Prop
  | .operate (.save _) => e.path.isSome
  | .operate (.saveAs _ _) => True
  | _ => False

inductive Outcome (e : Editor β) : Use → Except StoryError Answer → Editor β → Prop
  | refused {use : Use} (x : StoryError) (plain : ¬e.Writes use) (undo : use ≠ .operate .undo)
      (redo : use ≠ .operate .redo) : Outcome e use (.error x) e
  | nothing {use : Use} (answer : Answer) : Outcome e use (.ok answer) e
  | loaded {use : Use} (graph : Graph) (path : Option String) :
      Outcome e use (.ok .done) { e.load graph with path }
  | updated {use : Use} (answer : Answer) (d : Draft) (history : History Command) :
      Outcome e use (.ok answer) (e.update d history)
  | moved (id : NodeId) (position : Position) (history : History Command) :
      Outcome e (.operate (.moveNode id position)) (.ok .done)
        { e with view := e.view.place id (e.config.snap position), history, dirty := true }
  | written {use : Use} (writes : e.Writes use) {graph : Graph} (settled : e.settled = .ok graph)
      (path : String) :
      Outcome e use (.ok .done) { e with graph, path := some path, dirty := false }
  | unwritten {use : Use} (writes : e.Writes use) {graph : Graph}
      (settled : e.settled = .ok graph) :
      Outcome e use (.error (.data .io)) { e with graph }
  | undoLost {c : Command} {history : History Command} {x : StoryError}
      (pop : e.history.popUndo? = some (c, history)) (fails : e.revert c = .error x) :
      Outcome e (.operate .undo) (.error x) { e with history }
  | redoLost {c : Command} {history : History Command} {x : StoryError}
      (pop : e.history.popRedo? = some (c, history)) (fails : e.apply c = .error x) :
      Outcome e (.operate .redo) (.error x) { e with history }

def Shows (e : Editor β) : Prop := e.view.gathered = .build e.kinds e.graph.gathered

namespace Shows

theorem ids_eq (he : e.Shows) : e.view.nodes.map ViewNode.id = e.graph.ids := by
  have hids := congrArg (fun v : View => v.nodes.map ViewNode.id) he
  rw [View.ids_build, Graph.ids_gathered, View.gathered, List.map_map] at hids
  exact hids

theorem exists_settled (he : e.Shows) :
    ∃ graph, e.settled = .ok graph ∧ graph.gathered = e.graph.gathered := by
  apply Graph.exists_foldlM_setPosition
  intro box hbox
  change box.id ∈ e.graph.ids
  rw [← he.ids_eq]
  exact List.mem_map_of_mem hbox

theorem settle (he : e.Shows) {graph : Graph} (hsettled : e.settled = .ok graph) :
    e.view.gathered = .build e.kinds graph.gathered := by
  obtain ⟨_, h, hgathered⟩ := he.exists_settled
  obtain rfl := Except.ok.inj (h.symm.trans hsettled)
  rw [hgathered]
  exact he

theorem of_outcome (he : e.Shows) {answer : Except StoryError Answer}
    (h : e.Outcome use answer e') : e'.Shows := by
  cases h with
  | refused => exact he
  | nothing => exact he
  | loaded graph path => exact View.gathered_sync {} e.kinds graph
  | updated answer d history => exact View.gathered_sync d.view e.kinds d.graph
  | moved id position history => exact (View.gathered_place e.view id _).trans he
  | written writes settled path => exact he.settle settled
  | unwritten writes settled => exact he.settle settled
  | undoLost => exact he
  | redoLost => exact he

end Shows

theorem outcome_saveAs (he : e.Shows) (hw : e.Writes use) (folder : Folder) (path : String) :
    e.Outcome use ((e.saveAs folder path).1.map fun _ => .done) (e.saveAs folder path).2.1 := by
  obtain ⟨graph, hsettled, -⟩ := he.exists_settled
  rw [saveAs, hsettled]
  cases hwrite : folder.write? path graph.write with
  | none =>
      simp only [hwrite]
      exact .unwritten hw hsettled
  | some folder =>
      simp only [hwrite]
      exact .written hw hsettled path

theorem outcome_operate (he : e.Shows) (op : Operation) :
    e.Outcome (.operate op) (op.perform e).1 (op.perform e).2 := by
  cases op with
  | addNode new tag position =>
      rcases e.perform_addNode new tag position with ⟨x, h⟩ | ⟨c, d, -, h⟩ <;> rw [h]
      · exact .refused x not_false (by simp) (by simp)
      · exact .updated _ d _
  | connect source target =>
      rcases e.perform_connect source target with (⟨x, h⟩ | h) | ⟨c, d, -, h⟩ <;> rw [h]
      · exact .refused x not_false (by simp) (by simp)
      · exact .nothing _
      · exact .updated _ d _
  | disconnect source target =>
      rcases e.perform_disconnect source target with (⟨x, h⟩ | h) | ⟨c, d, n, -, h⟩ <;> rw [h]
      · exact .refused x not_false (by simp) (by simp)
      · exact .nothing _
      · exact .updated _ d _
  | deleteNode target =>
      rcases e.perform_deleteNode target with ⟨x, h⟩ | ⟨c, d, -, h⟩ <;> rw [h]
      · exact .refused x not_false (by simp) (by simp)
      · exact .updated _ d _
  | moveNode target position =>
      rw [Operation.perform, moveNode]
      cases e.view.node? target with
      | none => exact .refused _ not_false (by simp) (by simp)
      | some box =>
          by_cases hsame : box.position.same (e.config.snap position) = true
          · simp only [hsame, if_true]
            exact .nothing _
          · simp only [hsame]
            exact .moved target position _
  | setStart target =>
      rcases e.perform_setStart target with ⟨x, h⟩ | ⟨c, d, -, h⟩ <;> rw [h]
      · exact .refused x not_false (by simp) (by simp)
      · exact .updated _ d _
  | save folder =>
      rw [Operation.perform, save]
      cases hpath : e.path with
      | none =>
          have hw : ¬e.Writes (.operate (.save folder)) := by simp [Writes, hpath]
          exact .refused _ hw (by simp) (by simp)
      | some path =>
          have hw : e.Writes (.operate (.save folder)) := by simp [Writes, hpath]
          exact outcome_saveAs he hw folder path
  | saveAs folder path =>
      have hw : e.Writes (.operate (.saveAs folder path)) := trivial
      exact outcome_saveAs he hw folder path
  | undo =>
      rw [Operation.perform]
      cases hpop : e.history.popUndo? with
      | none =>
          rw [undo_of_none hpop]
          exact .nothing _
      | some r =>
          cases hd : e.revert r.1 with
          | error x =>
              rw [undo_of_error hpop hd]
              exact .undoLost hpop hd
          | ok d =>
              rw [undo_of_ok hpop hd]
              exact .updated _ d _
  | redo =>
      rw [Operation.perform]
      cases hpop : e.history.popRedo? with
      | none =>
          rw [redo_of_none hpop]
          exact .nothing _
      | some r =>
          cases hd : e.apply r.1 with
          | error x =>
              rw [redo_of_error hpop hd]
              exact .redoLost hpop hd
          | ok d =>
              rw [redo_of_ok hpop hd]
              exact .updated _ d _

theorem outcome_perform (he : e.Shows) (use : Use) :
    e.Outcome use (use.perform e).1 (use.perform e).2 := by
  cases use with
  | load graph => exact .loaded graph none
  | new => exact .loaded {} none
  | operate op => exact outcome_operate he op
  | openFile folder path =>
      rw [Use.perform, openFile]
      cases folder.read? path with
      | none => exact .refused _ not_false (by simp) (by simp)
      | some text =>
          dsimp only
          cases Graph.read text with
          | error x => exact .refused _ not_false (by simp) (by simp)
          | ok graph => exact .loaded graph (some path)

theorem Shows.used (he : e.Shows) (uses : List Use) : (e.used uses).Shows := by
  induction uses generalizing e with
  | nil => exact he
  | cons use uses ih => exact ih (he.of_outcome (outcome_perform he use))

/-- However an editor was used, its view is that of its graph, except for where the boxes are. -/
theorem view_shows_graph (kinds : Registry β) (config : EditorConfig) (uses : List Use) :
    let e := (Editor.empty kinds config).used uses
    let fresh := View.build e.kinds e.graph
    e.view.nodes.map ViewNode.id = e.graph.ids ∧
      (e.view.nodes.map fun box => (box.title, box.kind, box.color)) =
        (fresh.nodes.map fun box => (box.title, box.kind, box.color)) ∧
      e.view.edges = e.graph.edges ∧ e.view.start = e.graph.start ∧
      e.view.gathered = fresh.gathered := by
  intro e fresh
  have he : e.Shows := Shows.used (e := Editor.empty kinds config) rfl uses
  have hview : e.view.gathered = fresh.gathered :=
    he.trans (View.gathered_sync {} e.kinds e.graph).symm
  refine ⟨he.ids_eq, ?_, ?_, ?_, hview⟩
  · have hboxes := congrArg
      (fun v : View => v.nodes.map fun box => (box.title, box.kind, box.color)) hview
    simp only [View.gathered, List.map_map] at hboxes
    exact hboxes
  · exact congrArg View.edges hview
  · exact congrArg View.start hview

/-! ### What a refusal leaves -/

theorem Steady.load {asset : Graph} (hu : asset.Unique) (path : Option String) :
    { e.load asset with path }.Steady asset :=
  have he := steady_load e hu
  ⟨he.mirrors, he.anchored, he.trail⟩

theorem Steady.perform {asset : Graph} (he : e.Steady asset)
    (hload : ∀ graph, use = .load graph → graph.Unique) :
    ∃ asset, (use.perform e).2.Steady asset := by
  cases use with
  | load graph => exact ⟨graph, Steady.load (hload graph rfl) none⟩
  | new => exact ⟨{}, Steady.load Graph.unique_empty none⟩
  | operate op => exact ⟨asset, he.after op⟩
  | openFile folder path =>
      rw [Use.perform, openFile]
      cases folder.read? path with
      | none => exact ⟨asset, he⟩
      | some text =>
          dsimp only
          cases hread : Graph.read text with
          | error x => exact ⟨asset, he⟩
          | ok graph => exact ⟨graph, Steady.load (unique_of_read hread) (some path)⟩

theorem Steady.used {asset : Graph} (he : e.Steady asset) {uses : List Use}
    (hloads : ∀ graph, .load graph ∈ uses → graph.Unique) :
    ∃ asset, (e.used uses).Steady asset := by
  induction uses generalizing e asset with
  | nil => exact ⟨asset, he⟩
  | cons use uses ih =>
      have hload : ∀ graph, use = .load graph → graph.Unique := fun graph huse =>
        hloads graph (huse ▸ List.mem_cons_self)
      obtain ⟨_, hperform⟩ := he.perform hload
      exact ih hperform fun graph hmem => hloads graph (List.mem_cons_of_mem use hmem)

theorem Steady.loses_of_error {asset : Graph} (he : e.Steady asset)
    (hpop : e.history.popUndo? = some (c, history)) (hx : e.revert c = .error x) :
    ∃ id, e.Loses id ∧ x = .data (.unknownNode id) := by
  have hundo := undo_of_error hpop hx
  by_cases hkeeps : e.Keeps c
  · obtain ⟨d, hdone, -⟩ := he.undo_of_keeps hpop hkeeps
    cases hundo.symm.trans hdone
  · simp only [Draft.Keeps, not_forall] at hkeeps
    obtain ⟨id, new, rfl, hid⟩ := hkeeps
    obtain ⟨hloses, -⟩ := he.undo_of_loses hpop hid
    refine ⟨id, ⟨hid, new, history, hpop⟩, ?_⟩
    exact Except.error.inj (congrArg Prod.fst (hundo.symm.trans hloses))

theorem Shows.refused (he : e.Shows) (h : e.Outcome use (.error x) e') :
    (¬e.Writes use → use ≠ .operate .undo → use ≠ .operate .redo → e' = e) ∧
      (e.Writes use → x = .data .io ∧ ∃ graph, e.settled = .ok graph ∧
        graph.gathered = e.graph.gathered ∧ e' = { e with graph }) ∧
      (use = .operate .undo →
        e' = { e with history := { e.history with undo := e.history.undo.tail } }) ∧
      (use = .operate .redo →
        e' = { e with history := { e.history with redo := e.history.redo.tail } }) := by
  cases h with
  | refused x plain undo redo =>
      exact ⟨fun _ _ _ => rfl, fun hw => absurd hw plain, fun hu => absurd hu undo,
        fun hr => absurd hr redo⟩
  | unwritten writes settled =>
      obtain ⟨_, hsettled, hgathered⟩ := he.exists_settled
      obtain rfl := Except.ok.inj (hsettled.symm.trans settled)
      refine ⟨fun hw => absurd writes hw, fun _ => ⟨rfl, _, settled, hgathered, rfl⟩, ?_, ?_⟩
      · rintro rfl
        exact writes.elim
      · rintro rfl
        exact writes.elim
  | undoLost pop fails =>
      rw [History.eq_of_popUndo? pop]
      exact ⟨fun _ hu => absurd rfl hu, fun hw => hw.elim, fun _ => rfl, nofun⟩
  | redoLost pop fails =>
      rw [History.eq_of_popRedo? pop]
      exact ⟨fun _ _ hr => absurd rfl hr, fun hw => hw.elim, nofun, fun _ => rfl⟩

theorem Steady.refused {asset : Graph} (he : e.Steady asset) (h : e.Outcome use (.error x) e') :
    use ≠ .operate .redo ∧
      (use = .operate .undo → ∃ id, e.Loses id ∧ x = .data (.unknownNode id)) ∧
      (e.Writes use → e'.graph = e.form) := by
  cases h with
  | refused x plain undo redo => exact ⟨redo, fun hu => absurd hu undo, fun hw => absurd hw plain⟩
  | unwritten writes settled =>
      refine ⟨?_, ?_, fun _ => Except.ok.inj (settled.symm.trans (settled_eq he.mirrors))⟩
      · rintro rfl
        exact writes
      · rintro rfl
        exact writes.elim
  | undoLost pop fails => exact ⟨nofun, fun _ => he.loses_of_error pop fails, fun hw => hw.elim⟩
  | redoLost pop fails =>
      obtain ⟨d, hdone, -⟩ := he.redo_of_some pop
      cases (redo_of_error pop fails).symm.trans hdone

/-- What is refused leaves the editor as it was. But a save that gets as far as the file has given
the graph the positions that are seen, and undo and redo have forgotten an edit. If the nodes of
every graph that was loaded have different names, redo is not refused at all, and undo only where
the start that it would set again is no node. -/
theorem refusal_leaves (kinds : Registry β) (config : EditorConfig) (uses : List Use)
    (h : use.perform ((Editor.empty kinds config).used uses) = (.error x, e')) :
    let e := (Editor.empty kinds config).used uses
    ((¬e.Writes use → use ≠ .operate .undo → use ≠ .operate .redo → e' = e) ∧
      (e.Writes use → x = .data .io ∧ ∃ graph, e.settled = .ok graph ∧
        graph.gathered = e.graph.gathered ∧ e' = { e with graph }) ∧
      (use = .operate .undo →
        e' = { e with history := { e.history with undo := e.history.undo.tail } }) ∧
      (use = .operate .redo →
        e' = { e with history := { e.history with redo := e.history.redo.tail } })) ∧
    ((∀ graph, .load graph ∈ uses → graph.Unique) →
      use ≠ .operate .redo ∧
        (use = .operate .undo → ∃ id, e.Loses id ∧ x = .data (.unknownNode id)) ∧
        (e.Writes use → e'.graph = e.form)) := by
  intro e
  have he : e.Shows := Shows.used (e := Editor.empty kinds config) rfl uses
  have hout := outcome_perform he use
  rw [h] at hout
  refine ⟨he.refused hout, ?_⟩
  intro hloads
  have hempty : (Editor.empty kinds config).Steady {} :=
    steady_load (Editor.empty kinds config) Graph.unique_empty
  obtain ⟨asset, hsteady⟩ := hempty.used hloads
  exact hsteady.refused hout

theorem Shows.perform_saveAs (he : e.Shows) (folder : Folder) {path : String}
    (hpath : Folder.isFileName path = false) : ∃ graph, e.settled = .ok graph ∧
      (Use.operate (.saveAs folder path)).perform e = (.error (.data .io), { e with graph }) := by
  obtain ⟨graph, hsettled, -⟩ := he.exists_settled
  have hwrite : folder.write? path graph.write = none := by simp [Folder.write?, hpath]
  refine ⟨graph, hsettled, ?_⟩
  rw [Use.perform, Operation.perform, saveAs, hsettled]
  simp only [hwrite]
  rfl

/-- A node that was moved is moved in the graph too once it is to be saved, even if no file can have
the name. A start that was no node is not set again, and the edit that replaced it is forgotten. -/
theorem refusal_leaves_stray :
    let stray : Graph := { start := some ⟨"ghost"⟩, nodes := [{ kind := "note", id := ⟨"a"⟩ }] }
    let e := (Editor.empty (β := Unit) {} {}).used [.load stray,
      .operate (.moveNode ⟨"a"⟩ ⟨.ofInt .single 5, .zero false⟩), .operate (.setStart ⟨"a"⟩)]
    (∃ x e', (Use.operate (.saveAs {} "x/y")).perform e = (.error x, e') ∧ x = .data .io ∧
      e'.graph = e.form ∧ e.form ≠ e.graph) ∧
    ∃ x e', (Use.operate .undo).perform e = (.error x, e') ∧ x = .data (.unknownNode ⟨"ghost"⟩) ∧
      e.history.undo.length = 2 ∧ e'.history.undo.length = 1 := by
  intro stray e
  have hloads : ∀ graph, .load graph ∈ [Use.load stray,
      .operate (.moveNode ⟨"a"⟩ ⟨.ofInt .single 5, .zero false⟩), .operate (.setStart ⟨"a"⟩)] →
      graph.Unique := by
    intro graph hmem
    have hgraph : graph = stray := by simpa using hmem
    rw [hgraph]
    decide
  have he : e.Shows := Shows.used (e := Editor.empty (β := Unit) {} {}) rfl _
  have hname : Folder.isFileName "x/y" = false := by cbv
  obtain ⟨graph, -, hsave⟩ := he.perform_saveAs {} hname
  obtain ⟨⟨-, hwrites, -, -⟩, hunique⟩ := refusal_leaves {} {} _ hsave
  have hundo : (Use.operate .undo).perform e = (.error (.data (.unknownNode ⟨"ghost"⟩)), _) := rfl
  obtain ⟨⟨-, -, hlost, -⟩, -⟩ := refusal_leaves {} {} _ hundo
  have hplaces : e.form.nodes.map Node.position ≠ e.graph.nodes.map Node.position := by decide
  refine ⟨⟨_, _, hsave, (hwrites trivial).1, (hunique hloads).2.2 trivial, ?_⟩, ?_⟩
  · exact fun h => hplaces (congrArg (fun g : Graph => g.nodes.map Node.position) h)
  · exact ⟨_, _, hundo, rfl, rfl, congrArg (fun e => e.history.undo.length) (hlost rfl)⟩

end Editor

end StoryGraph
