import Mathlib
import StoryGraph.Proofs.Editor.Operation
import StoryGraph.Proofs.Editor.Trail
import StoryGraph.Proofs.Graph.Anchored

/-!
# When undo is refused

Whether an edit can be done again or taken back depends on the names of the nodes alone, with one
exception: a start can be set again only if it is a node. A start that is no node comes with the
asset, so setting another start on such an asset is the one edit that cannot be taken back.
-/

namespace StoryGraph

variable {β : Type} {kinds : Registry β} {asset g g' : Graph} {id : NodeId}

/-- What the names are before and after an edit. A start that was replaced is a node, or was missed
by the asset. -/
def Command.Fits (asset : Graph) (c : Command) (before after : Set NodeId) : Prop :=
  match c with
  | .addNode node _ => node.id ∉ before ∧ after = insert node.id before
  | .deleteNode removed => removed.node.id ∉ after ∧ before = insert removed.node.id after
  | .connect source target => source ∈ before ∧ target ∈ before ∧ after = before
  | .disconnect source _ _ => source ∈ before ∧ after = before
  | .move id _ _ => id ∈ before ∧ after = before
  | .setStart old new => new ∈ before ∧ after = before ∧ ∀ id ∈ old, id ∈ before ∨ asset.Misses id

namespace Draft

variable {d : Draft} {c : Command} {before after : Set NodeId}

theorem change_eq_ok {result : Except DataError Graph} {names : Set NodeId} (h : result = .ok g)
    (hg : asset.Anchored g) (hnames : g.names = names) :
    ∃ d', d.change result = .ok d' ∧ asset.Anchored d'.graph ∧ d'.graph.names = names := by
  refine ⟨{ d with graph := g }, ?_, hg, hnames⟩
  rw [h]
  rfl

theorem remove_eq_ok (hg : asset.Anchored d.graph) (hid : id ∈ d.graph) :
    ∃ d', d.remove id = .ok d' ∧ asset.Anchored d'.graph ∧ id ∉ d'.graph ∧
      d.graph.names = insert id d'.graph.names := by
  obtain ⟨⟨removed, g'⟩, h⟩ := Graph.exists_removeNode_iff.2 hid
  have hperm := Graph.ids_perm_of_removeNode h
  refine ⟨{ d with graph := g' }, ?_, hg.removeNode h, Graph.not_mem_of_perm hg.unique hperm,
    Graph.names_of_perm hperm⟩
  rw [remove, h]

theorem place_eq_ok (hd : d.Mirrors kinds) (hg : asset.Anchored d.graph) (hid : id ∈ d.graph)
    (position : Position) :
    ∃ d', d.place id position = .ok d' ∧ asset.Anchored d'.graph ∧
      d'.graph.names = d.graph.names := by
  refine ⟨{ d with view := d.view.place id position }, ?_, hg, rfl⟩
  rw [place, if_pos (hd.node?_isSome_iff.2 hid)]

theorem eq_of_insert_eq {a : NodeId} {s t : Set NodeId} (h : insert a s = insert a t)
    (hs : a ∉ s) (ht : a ∉ t) : s = t := by
  rw [← Set.insert_sdiff_self_of_notMem hs, h, Set.insert_sdiff_self_of_notMem ht]

/-- Where an edit was made it can be done again. -/
theorem apply_of_fits (hd : d.Mirrors kinds) (hg : asset.Anchored d.graph)
    (hc : c.Fits asset d.graph.names after) :
    ∃ d', d.apply c = .ok d' ∧ asset.Anchored d'.graph ∧ d'.graph.names = after := by
  cases c with
  | addNode node becameStart =>
      obtain ⟨hnew, rfl⟩ := hc
      have hadd : d.graph.addNode node = .ok { d.graph with nodes := d.graph.nodes ++ [node] } :=
        Graph.addNode_eq_ok_iff.2 ⟨hnew, rfl⟩
      have hperm := Graph.ids_perm_of_insertNode hadd
      have hg' := hg.insertNode hadd
      have hmem : node.id ∈ { d.graph with nodes := d.graph.nodes ++ [node] } :=
        hperm.mem_iff.2 List.mem_cons_self
      rw [apply, hadd]
      cases becameStart with
      | false => exact change_eq_ok rfl hg' (Graph.names_of_perm hperm)
      | true =>
          have hstart := Graph.setStart_eq_ok_iff.2 ⟨hmem, rfl⟩
          exact change_eq_ok hstart (hg'.setStart hstart) (Graph.names_of_perm hperm)
  | deleteNode removed =>
      obtain ⟨hnew, hbefore⟩ := hc
      have hid : removed.node.id ∈ d.graph.names := hbefore ▸ Set.mem_insert _ _
      obtain ⟨d', hd', hg', hid', hnames⟩ := remove_eq_ok hg hid
      exact ⟨d', hd', hg', eq_of_insert_eq (hnames.symm.trans hbefore) hid' hnew⟩
  | connect source target =>
      obtain ⟨hsource, htarget, rfl⟩ := hc
      obtain ⟨⟨isNew, g'⟩, h⟩ := Graph.exists_link_iff.2 ⟨hsource, htarget⟩
      have hids := Graph.ids_of_link h
      have hg' := hg.of_ids_eq hids (Graph.start_of_link h)
      rw [apply, h]
      exact change_eq_ok rfl hg' (Graph.names_of_ids_eq hids)
  | disconnect source target slots =>
      obtain ⟨hsource, rfl⟩ := hc
      obtain ⟨⟨cut, g'⟩, h⟩ : ∃ r, d.graph.unlink source target = .ok r :=
        Graph.exists_unlink_iff.2 hsource
      have hids := Graph.ids_of_unlink h
      have hg' := hg.of_ids_eq hids (Graph.start_of_unlink h)
      rw [apply, h]
      exact change_eq_ok rfl hg' (Graph.names_of_ids_eq hids)
  | move id old new =>
      obtain ⟨hid, rfl⟩ := hc
      exact place_eq_ok hd hg hid new
  | setStart old new =>
      obtain ⟨hnew, rfl, -⟩ := hc
      have h : d.graph.setStart new = .ok { d.graph with start := some new } :=
        Graph.setStart_eq_ok_iff.2 ⟨hnew, rfl⟩
      exact change_eq_ok h (hg.setStart h) rfl

/-- An edit is taken back if it can be: if it did not replace a start that is no node. -/
def Keeps (d : Draft) (c : Command) : Prop :=
  ∀ id new, c = .setStart (some id) new → id ∈ d.graph

/-- Where an edit led it can be taken back, unless it replaced a start that is no node. -/
theorem revert_of_fits (hd : d.Mirrors kinds) (hg : asset.Anchored d.graph)
    (hc : c.Fits asset before d.graph.names) (hkeeps : d.Keeps c) :
    ∃ d', d.revert c = .ok d' ∧ asset.Anchored d'.graph ∧ d'.graph.names = before := by
  cases c with
  | addNode node becameStart =>
      obtain ⟨hnew, hafter⟩ := hc
      have hid : node.id ∈ d.graph.names := hafter ▸ Set.mem_insert _ _
      obtain ⟨d', hd', hg', hid', hnames⟩ := remove_eq_ok hg hid
      exact ⟨d', hd', hg', eq_of_insert_eq (hnames.symm.trans hafter) hid' hnew⟩
  | deleteNode removed =>
      obtain ⟨hnew, rfl⟩ := hc
      obtain ⟨g', h⟩ := Graph.exists_restoreNode_iff.2 hnew
      have hperm := Graph.ids_perm_of_restoreNode h
      exact change_eq_ok h (hg.restoreNode h) (Graph.names_of_perm hperm)
  | connect source target =>
      obtain ⟨hsource, -, hnames⟩ := hc
      have hmem : source ∈ d.graph.names := hnames ▸ hsource
      obtain ⟨⟨held, g'⟩, h⟩ : ∃ r, d.graph.popLink source target = .ok r :=
        Graph.exists_popLink_iff.2 hmem
      have hids := Graph.ids_of_popLink h
      have hg' := hg.of_ids_eq hids (Graph.start_of_popLink h)
      rw [revert, h]
      exact change_eq_ok rfl hg' ((Graph.names_of_ids_eq hids).trans hnames)
  | disconnect source target slots =>
      obtain ⟨hsource, hnames⟩ := hc
      have hmem : source ∈ d.graph.names := hnames ▸ hsource
      have h : d.graph.relinkAt source target slots =
          .ok (d.graph.modify source (·.relink target slots)) :=
        Graph.modify?_eq_ok_iff.2 ⟨hmem, rfl⟩
      have hids := Graph.ids_of_modify? h fun _ => rfl
      exact change_eq_ok h (hg.of_ids_eq hids rfl) ((Graph.names_of_ids_eq hids).trans hnames)
  | move id old new =>
      obtain ⟨hid, hnames⟩ := hc
      have hmem : id ∈ d.graph.names := hnames ▸ hid
      obtain ⟨d', hd', hg', hnames'⟩ := place_eq_ok hd hg hmem old
      exact ⟨d', hd', hg', hnames'.trans hnames⟩
  | setStart old new =>
      obtain ⟨hnew, hnames, -⟩ := hc
      cases old with
      | none =>
          exact ⟨{ d with graph := d.graph.clearStart }, rfl, hg.clearStart, hnames⟩
      | some old =>
          have h : d.graph.setStart old = .ok { d.graph with start := some old } :=
            Graph.setStart_eq_ok_iff.2 ⟨hkeeps old new rfl, rfl⟩
          exact change_eq_ok h (hg.setStart h) hnames

end Draft

namespace Editor

variable {e : Editor β} {op : Operation} {c : Command} {d : Draft} {history : History Command}

/-- An edit that is made fits the names there are, and doing it again makes it as it was made. -/
theorem Makes.fits (h : e.Makes op c d) (hd : e.Mirrors e.kinds) (hg : asset.Anchored e.graph) :
    (∃ after, c.Fits asset e.graph.names after) ∧ e.apply c = .ok d := by
  cases h with
  | @addNode tag position node graph add =>
      obtain ⟨hnew, rfl⟩ := Graph.addNode_eq_ok_iff.1 add
      refine ⟨⟨_, hnew, rfl⟩, ?_⟩
      rw [Draft.apply, add]
      have hmem : node.id ∈ { e.graph with nodes := e.graph.nodes ++ [node] } :=
        Graph.mem_iff.2 ⟨node, by simp, rfl⟩
      change e.change (if _ then Graph.setStart _ node.id else .ok _) = _
      by_cases hstart : e.graph.start.isNone = true
      · rw [if_pos hstart, if_pos hstart, Graph.setStart, if_pos hmem]
        rfl
      · rw [if_neg hstart, if_neg hstart]
        rfl
  | @connect source target graph link =>
      obtain ⟨hsource, htarget⟩ := Graph.exists_link_iff.1 ⟨_, link⟩
      refine ⟨⟨_, hsource, htarget, rfl⟩, ?_⟩
      rw [Draft.apply, link]
      rfl
  | @disconnect source target slots graph unlink =>
      refine ⟨⟨_, Graph.exists_unlink_iff.1 ⟨_, unlink⟩, rfl⟩, ?_⟩
      rw [Draft.apply, unlink]
      rfl
  | @deleteNode id removed graph remove =>
      have hperm := Graph.ids_perm_of_removeNode remove
      obtain ⟨-, rfl, -⟩ := Graph.exists_of_removeNode remove
      refine ⟨⟨graph.names, Graph.not_mem_of_perm hg.unique hperm, Graph.names_of_perm hperm⟩, ?_⟩
      change e.remove removed.node.id = _
      rw [Draft.remove, remove]
  | @moveNode id position box box_eq =>
      have hbox : (e.view.node? id).isSome := by rw [box_eq, Option.isSome_some]
      refine ⟨⟨_, hd.node?_isSome_iff.1 hbox, rfl⟩, ?_⟩
      change e.place id _ = _
      rw [Draft.place, if_pos hbox]
  | @setStart id graph set =>
      obtain ⟨hmem, rfl⟩ := Graph.setStart_eq_ok_iff.1 set
      refine ⟨⟨_, hmem, rfl, hg.start⟩, ?_⟩
      rw [Draft.apply, set]
      rfl

structure Steady (asset : Graph) (e : Editor β) : Prop where
  mirrors : e.Mirrors e.kinds
  anchored : asset.Anchored e.graph
  trail : e.history.Trail (Command.Fits asset) e.graph.names

theorem steady_load (e : Editor β) (hu : asset.Unique) : (e.load asset).Steady asset :=
  ⟨Draft.mirrors_build hu e.kinds, Graph.anchored_self hu, History.trail_empty _ _ _⟩

theorem steady_update (e : Editor β) (hg : asset.Anchored d.graph)
    (ht : history.Trail (Command.Fits asset) d.graph.names) : (e.update d history).Steady asset :=
  ⟨Draft.mirrors_synced hg.unique e.kinds, hg, ht⟩

/-- The edit that is taken back next replaced a start that is no node. -/
def Loses (e : Editor β) (id : NodeId) : Prop :=
  id ∉ e.graph ∧ ∃ new history, e.history.popUndo? = some (.setStart (some id) new, history)

namespace Steady

/-- Undo is done unless there is nothing to undo or the edit replaced a start that is no node. -/
theorem undo_of_keeps (he : e.Steady asset) (hpop : e.history.popUndo? = some (c, history))
    (hkeeps : e.Keeps c) :
    ∃ d, e.undo = (.ok true, e.update d (history.pushRedo c)) ∧
      (e.update d (history.pushRedo c)).Steady asset := by
  obtain ⟨before, hfits, htrail⟩ := he.trail.undo hpop
  obtain ⟨d, hd, hg, rfl⟩ := Draft.revert_of_fits he.mirrors he.anchored hfits hkeeps
  exact ⟨d, undo_of_ok hpop hd, steady_update e hg htrail⟩

/-- Undo is refused where the start that would be set again is no node. That is a start that the
asset missed, and all that happens is that the edit is forgotten. -/
theorem undo_of_loses (he : e.Steady asset) {new : NodeId}
    (hpop : e.history.popUndo? = some (.setStart (some id) new, history)) (hid : id ∉ e.graph) :
    e.undo = (.error (.data (.unknownNode id)), { e with history }) ∧ asset.Misses id ∧
      { e with history }.Steady asset := by
  have hrevert : e.revert (.setStart (some id) new) = .error (.data (.unknownNode id)) := by
    rw [Draft.revert, Graph.setStart, if_neg hid]
    rfl
  obtain ⟨before, ⟨-, hnames, hold⟩, -⟩ := he.trail.undo hpop
  refine ⟨undo_of_error hpop hrevert, ?_, he.mirrors, he.anchored, ?_⟩
  · rw [← hnames] at hold
    exact (hold id rfl).resolve_left hid
  · exact he.trail.drop hpop fun _ h => h.2.1.symm

theorem redo_of_some (he : e.Steady asset) (hpop : e.history.popRedo? = some (c, history)) :
    ∃ d, e.redo = (.ok true, e.update d (history.remember c)) ∧
      (e.update d (history.remember c)).Steady asset := by
  obtain ⟨after, hfits, htrail⟩ := he.trail.redo hpop
  obtain ⟨d, hd, hg, rfl⟩ := Draft.apply_of_fits he.mirrors he.anchored hfits
  exact ⟨d, redo_of_ok hpop hd, steady_update e hg htrail⟩

theorem of_saves (he : e.Steady asset) {e' : Editor β} (h : e.Saves e') : e'.Steady asset := by
  have hmirrors := Draft.mirrors_settle he.mirrors
  have hids : e.form.ids = e.graph.ids := Graph.ids_overlay e.graph e.view
  have hanchored : asset.Anchored e.form := he.anchored.of_ids_eq hids rfl
  have htrail := he.trail
  rw [← Graph.names_of_ids_eq hids] at htrail
  cases h with
  | failed => exact ⟨hmirrors, hanchored, htrail⟩
  | written path => exact ⟨hmirrors, hanchored, htrail⟩

/-- An edit that is made can be taken back and done again from then on. -/
theorem of_makes (he : e.Steady asset) (h : e.Makes op c d) :
    (e.update d (e.history.record c)).Steady asset := by
  obtain ⟨⟨after, hfits⟩, happly⟩ := h.fits he.mirrors he.anchored
  obtain ⟨d', hd', hg, rfl⟩ := Draft.apply_of_fits he.mirrors he.anchored hfits
  obtain rfl := Except.ok.inj (happly.symm.trans hd')
  exact steady_update e hg (he.trail.record hfits)

theorem undo (he : e.Steady asset) : e.undo.2.Steady asset := by
  cases hpop : e.history.popUndo? with
  | none =>
      rw [undo_of_none hpop]
      exact he
  | some r =>
      obtain ⟨c, history⟩ := r
      by_cases hkeeps : e.Keeps c
      · obtain ⟨d, hundo, hsteady⟩ := he.undo_of_keeps hpop hkeeps
        rw [hundo]
        exact hsteady
      · simp only [Draft.Keeps, not_forall] at hkeeps
        obtain ⟨id, new, rfl, hid⟩ := hkeeps
        obtain ⟨hundo, -, hsteady⟩ := he.undo_of_loses hpop hid
        rw [hundo]
        exact hsteady

theorem redo (he : e.Steady asset) : e.redo.2.Steady asset := by
  cases hpop : e.history.popRedo? with
  | none =>
      rw [redo_of_none hpop]
      exact he
  | some r =>
      obtain ⟨d, hredo, hsteady⟩ := he.redo_of_some hpop
      rw [hredo]
      exact hsteady

theorem after (he : e.Steady asset) (op : Operation) : (op.after e).Steady asset := by
  by_cases hundo : op = .undo
  · rw [hundo]
    exact he.undo
  by_cases hredo : op = .redo
  · rw [hredo]
    exact he.redo
  rcases after_cases he.mirrors hundo hredo with ⟨-, c, d, hmakes, hafter⟩ | ⟨-, hafter | hsaves⟩
  · rw [hafter]
    exact he.of_makes hmakes
  · rw [hafter]
    exact he
  · exact he.of_saves hsaves

theorem run (he : e.Steady asset) (ops : List Operation) : (e.run ops).Steady asset := by
  induction ops generalizing e with
  | nil => exact he
  | cons op ops ih => exact ih (he.after op)

end Steady

theorem unique_of_read {text : String} (h : Graph.read text = .ok asset) : asset.Unique := by
  unfold Graph.read at h
  split at h
  · cases h
  · split at h
    · cases h
    · rename_i hhead
      obtain rfl := Except.ok.inj h
      exact Graph.unique_iff.2 (List.head?_eq_none_iff.1 hhead)

/-- In every session on an asset that is read, redo is done whenever there is something to redo, and
undo whenever there is something to undo, with one exception: an edit that replaced a start that is
no node is not taken back. The start is then one that the asset missed, undo is refused, and the
edit is forgotten. -/
theorem undo_redo_total {text : String} (hread : Graph.read text = .ok asset) (e : Editor β)
    (ops : List Operation) :
    let e := (e.load asset).run ops
    e.redo.1 = .ok (!e.history.redo.isEmpty) ∧
      ((∀ id, ¬e.Loses id) → e.undo.1 = .ok (!e.history.undo.isEmpty)) ∧
      ∀ id, e.Loses id → asset.Misses id ∧ e.undo =
        (.error (.data (.unknownNode id)),
          { e with history := { e.history with undo := e.history.undo.tail } }) := by
  intro e
  have he : e.Steady asset := (steady_load _ (unique_of_read hread)).run ops
  refine ⟨?_, ?_, ?_⟩
  · rw [History.isEmpty_redo]
    cases hpop : e.history.popRedo? with
    | none => rw [redo_of_none hpop, Option.isNone_none, Bool.not_true]
    | some r =>
        obtain ⟨d, hredo, -⟩ := he.redo_of_some hpop
        rw [hredo, Option.isNone_some, Bool.not_false]
  · intro hloses
    rw [History.isEmpty_undo]
    cases hpop : e.history.popUndo? with
    | none => rw [undo_of_none hpop, Option.isNone_none, Bool.not_true]
    | some r =>
        obtain ⟨c, history⟩ := r
        have hkeeps : e.Keeps c := by
          rintro id new rfl
          exact not_not.1 fun hid => hloses id ⟨hid, new, history, hpop⟩
        obtain ⟨d, hundo, -⟩ := he.undo_of_keeps hpop hkeeps
        rw [hundo, Option.isNone_some, Bool.not_false]
  · rintro id ⟨hid, new, history, hpop⟩
    obtain ⟨hundo, hmisses, -⟩ := he.undo_of_loses hpop hid
    rw [History.eq_of_popUndo? hpop] at hundo
    exact ⟨hmisses, hundo⟩

def strayText : String :=
  "\x7b\"startNodeId\":\"ghost\",\"nodes\":[\x7b\"typeTag\":\"note\",\"id\":\"a\"\x7d]\x7d"

theorem undo_redo_total_stray :
    let stray : Graph := { start := some ⟨"ghost"⟩, nodes := [{ kind := "note", id := ⟨"a"⟩ }] }
    let e := ((Editor.empty (β := Unit) {} {}).load stray).run [.setStart ⟨"a"⟩]
    Graph.read strayText = .ok stray ∧ e.redo.1 = .ok false ∧
      e.undo = (.error (.data (.unknownNode ⟨"ghost"⟩)),
        { e with history := { e.history with undo := [] } }) := by
  intro stray e
  have hread : Graph.read strayText = .ok stray := by cbv
  obtain ⟨hredo, -, hundo⟩ := undo_redo_total hread (Editor.empty (β := Unit) {} {})
    [.setStart ⟨"a"⟩]
  have hloses : e.Loses ⟨"ghost"⟩ := ⟨by decide, ⟨"a"⟩, _, rfl⟩
  exact ⟨hread, hredo, (hundo _ hloses).2⟩

end Editor

end StoryGraph
