import Mathlib
import StoryGraph.Proofs.Editor.Reopening

/-!
# Edits break nothing

Whatever is edited, and whatever of it is taken back and done again, no slot comes to hold a name
that no node has, unless the asset had it in a slot already. Taking back a deletion or a cut puts
references back without looking whether their targets are there. They are, because an edit is only
taken back where the nodes have the names that they had when it was made.
-/

namespace StoryGraph

variable {β : Type} {asset : Graph} {id : NodeId}

def Command.Carries (known : Set NodeId) : Command → Prop
  | .addNode node _ => node.outputs = []
  | .deleteNode removed => removed.node.Within known
  | .disconnect _ target slots => target ∈ known ∨ slots = []
  | _ => True

/-- The names before and after an edit, with all that the edit holds known before it. Known are the
names of the nodes and those that the asset had lost. -/
def Command.Sound (asset : Graph) (c : Command) (before after : Set NodeId) : Prop :=
  c.Fits asset before after ∧ c.Carries (before ∪ asset.lost)

namespace Draft

variable {d d' : Draft} {c : Command} {before after : Set NodeId}

theorem within_remove (hg : d.graph.Within (insert id after ∪ asset.lost))
    (h : d.remove id = .ok d') : d'.graph.Within (after ∪ asset.lost) := by
  obtain ⟨removed, hremove⟩ := exists_of_remove h
  refine (hg.removeNode hremove).1.mono ?_
  rintro other ⟨(rfl | hafter) | hlost, hne⟩
  · exact absurd rfl hne
  · exact .inl hafter
  · exact .inr hlost

theorem within_apply (hg : d.graph.Within (d.graph.names ∪ asset.lost))
    (hc : c.Sound asset d.graph.names after) (h : d.apply c = .ok d') :
    d'.graph.Within (after ∪ asset.lost) := by
  obtain ⟨hfits, hcarries⟩ := hc
  cases c with
  | addNode node becameStart =>
      obtain ⟨-, rfl⟩ := hfits
      obtain ⟨g, hadd, hrest⟩ := exists_of_addNode h
      have hsub := Set.union_subset_union_left asset.lost
        (Set.subset_insert node.id d.graph.names)
      have hg' := (hg.mono hsub).insertNode (Node.within_of_outputs_eq_nil hcarries _) hadd
      rcases hrest with hsame | hset
      · exact hsame ▸ hg'
      · exact hg'.setStart hset
  | deleteNode removed =>
      rw [hfits.2] at hg
      exact within_remove hg h
  | connect source target =>
      obtain ⟨-, htarget, rfl⟩ := hfits
      obtain ⟨isNew, hlink⟩ := exists_of_map h
      exact hg.link (.inl htarget) hlink
  | disconnect source target slots =>
      obtain ⟨-, rfl⟩ := hfits
      obtain ⟨slots, hunlink⟩ := exists_of_map h
      exact (hg.unlink hunlink).1
  | move id old new =>
      obtain ⟨-, rfl⟩ := hfits
      rw [graph_of_place h]
      exact hg
  | setStart old new =>
      obtain ⟨-, rfl, -⟩ := hfits
      exact hg.setStart (exists_of_change h)

theorem within_revert (hg : d.graph.Within (d.graph.names ∪ asset.lost))
    (hc : c.Sound asset before d.graph.names) (h : d.revert c = .ok d') :
    d'.graph.Within (before ∪ asset.lost) := by
  obtain ⟨hfits, hcarries⟩ := hc
  cases c with
  | addNode node becameStart =>
      rw [hfits.2] at hg
      exact within_remove hg h
  | deleteNode removed =>
      obtain ⟨-, rfl⟩ := hfits
      have hsub := Set.union_subset_union_left asset.lost
        (Set.subset_insert removed.node.id d.graph.names)
      exact (hg.mono hsub).restoreNode hcarries (.inl (Set.mem_insert _ _)) (exists_of_change h)
  | connect source target =>
      rw [hfits.2.2] at hg
      obtain ⟨held, hpop⟩ := exists_of_map h
      exact hg.popLink hpop
  | disconnect source target slots =>
      rw [hfits.2] at hg
      obtain ⟨-, hrelink⟩ := Graph.modify?_eq_ok_iff.1 (exists_of_change h)
      rw [hrelink]
      exact hg.modify source fun n hn => hn.relink hcarries
  | move id old new =>
      rw [hfits.2] at hg
      rw [graph_of_place h]
      exact hg
  | setStart old new =>
      rw [hfits.2.1] at hg
      cases old with
      | none =>
          obtain rfl := Except.ok.inj h
          exact hg
      | some old => exact hg.setStart (exists_of_change h)

end Draft

namespace Editor

variable {e : Editor β} {op : Operation} {c : Command} {d : Draft} {history : History Command}

/-- All slots hold known names, and so they do wherever the history leads. -/
structure Sound (asset : Graph) (e : Editor β) : Prop where
  steady : e.Steady asset
  within : e.graph.Within (e.graph.names ∪ asset.lost)
  trail : e.history.Trail (Command.Sound asset) e.graph.names

theorem sound_load (e : Editor β) (hu : asset.Unique) : (e.load asset).Sound asset :=
  ⟨steady_load e hu, asset.within_self, History.trail_empty _ _ _⟩

theorem sound_update (hs : (e.update d history).Steady asset)
    (hg : d.graph.Within (d.graph.names ∪ asset.lost))
    (ht : history.Trail (Command.Sound asset) d.graph.names) : (e.update d history).Sound asset :=
  ⟨hs, hg, ht⟩

theorem Makes.carries {known : Set NodeId} (h : e.Makes op c d) (hg : e.graph.Within known)
    (hbare : ∀ node becameStart, c = .addNode node becameStart → node.outputs = []) :
    c.Carries known := by
  cases h with
  | addNode add => exact hbare _ _ rfl
  | connect link => exact trivial
  | disconnect unlink => exact (hg.unlink unlink).2
  | deleteNode remove => exact (hg.removeNode remove).2
  | moveNode box_eq => exact trivial
  | setStart set => exact trivial

namespace Sound

theorem of_makes (he : e.Sound asset) (h : e.Makes op c d)
    (hbare : ∀ node becameStart, c = .addNode node becameStart → node.outputs = []) :
    (e.update d (e.history.record c)).Sound asset := by
  obtain ⟨⟨after, hfits⟩, happly⟩ := h.fits he.steady.mirrors he.steady.anchored
  obtain ⟨d', hd', -, rfl⟩ := Draft.apply_of_fits he.steady.mirrors he.steady.anchored hfits
  obtain rfl := Except.ok.inj (happly.symm.trans hd')
  have hc : c.Sound asset e.graph.names d.graph.names := ⟨hfits, h.carries he.within hbare⟩
  exact sound_update (he.steady.of_makes h) (Draft.within_apply he.within hc happly)
    (he.trail.record hc)

theorem of_saves (he : e.Sound asset) {e' : Editor β} (h : e.Saves e') : e'.Sound asset := by
  have hids : e.form.ids = e.graph.ids := Graph.ids_overlay e.graph e.view
  have hwithin : e.form.Within (e.graph.names ∪ asset.lost) := List.forall_mem_map.2 he.within
  have htrail := he.trail
  rw [← Graph.names_of_ids_eq hids] at hwithin htrail
  have hsteady := he.steady.of_saves h
  cases h with
  | failed => exact ⟨hsteady, hwithin, htrail⟩
  | written path => exact ⟨hsteady, hwithin, htrail⟩

theorem undo (he : e.Sound asset) : e.undo.2.Sound asset := by
  cases hpop : e.history.popUndo? with
  | none =>
      rw [undo_of_none hpop]
      exact he
  | some r =>
      obtain ⟨c, history⟩ := r
      by_cases hkeeps : e.Keeps c
      · obtain ⟨before, hc, htrail⟩ := he.trail.undo hpop
        obtain ⟨d, hd, hg, rfl⟩ :=
          Draft.revert_of_fits he.steady.mirrors he.steady.anchored hc.1 hkeeps
        have hsteady := he.steady.undo
        rw [undo_of_ok hpop hd] at hsteady ⊢
        exact sound_update hsteady (Draft.within_revert he.within hc hd) htrail
      · simp only [Draft.Keeps, not_forall] at hkeeps
        obtain ⟨id, new, rfl, hid⟩ := hkeeps
        obtain ⟨hundo, -, hsteady⟩ := he.steady.undo_of_loses hpop hid
        rw [hundo]
        exact ⟨hsteady, he.within, he.trail.drop hpop fun _ hc => hc.1.2.1.symm⟩

theorem redo (he : e.Sound asset) : e.redo.2.Sound asset := by
  cases hpop : e.history.popRedo? with
  | none =>
      rw [redo_of_none hpop]
      exact he
  | some r =>
      obtain ⟨c, history⟩ := r
      obtain ⟨after, hc, htrail⟩ := he.trail.redo hpop
      obtain ⟨d, hd, hg, rfl⟩ := Draft.apply_of_fits he.steady.mirrors he.steady.anchored hc.1
      have hsteady := he.steady.redo
      rw [redo_of_ok hpop hd] at hsteady ⊢
      exact sound_update hsteady (Draft.within_apply he.within hc hd) htrail

theorem after (he : e.Sound asset) (op : Operation) : (op.after e).Sound asset := by
  by_cases hadd : ∃ id tag position, op = .addNode id tag position
  · obtain ⟨id, tag, position, rfl⟩ := hadd
    rcases e.perform_addNode_cases id tag position with
      ⟨x, h⟩ | ⟨node, c, d, hmakes, rfl, hbare, -, h⟩ <;> rw [after_eq h]
    · exact he
    · refine he.of_makes hmakes ?_
      rintro _ _ ⟨⟩
      exact hbare
  by_cases hundo : op = .undo
  · rw [hundo]
    exact he.undo
  by_cases hredo : op = .redo
  · rw [hredo]
    exact he.redo
  rcases after_cases he.steady.mirrors hundo hredo with
    ⟨-, c, d, hmakes, hafter⟩ | ⟨-, hafter | hsaves⟩
  · rw [hafter]
    refine he.of_makes hmakes ?_
    rintro node becameStart rfl
    cases hmakes
    exact absurd ⟨_, _, _, rfl⟩ hadd
  · rw [hafter]
    exact he
  · exact he.of_saves hsaves

theorem run (he : e.Sound asset) (ops : List Operation) : (e.run ops).Sound asset := by
  induction ops generalizing e with
  | nil => exact he
  | cons op ops ih => exact ih (he.after op)

theorem lost_subset (he : e.Sound asset) : e.graph.lost ⊆ asset.lost := fun _ hid =>
  (Graph.mem_of_mem_lost he.within hid).resolve_left hid.1

end Sound

/-- Whatever is done in a session on an asset, the names of the nodes stay different, a target that
dangles dangled in the asset already, and a start that is no node is the one that the asset missed.
So a session on an asset with which nothing is wrong never comes to a graph with which something
is. -/
theorem edits_break_nothing (hu : asset.Unique) (e : Editor β) (ops : List Operation) :
    let g := ((e.load asset).run ops).graph
    (g.Unique ∧ ∀ id, .duplicate id ∉ g.issues) ∧
      (∀ source slot target, .dangling source slot target ∈ g.issues →
        ∃ source slot, .dangling source slot target ∈ asset.issues) ∧
      (∀ id ∈ g.start, id ∈ g ∨ asset.Misses id) ∧
      (asset.issues = [] → g.issues = []) := by
  intro g
  have he := (sound_load e hu).run ops
  have hg : asset.Anchored g := he.steady.anchored
  have hlost : g.lost ⊆ asset.lost := he.lost_subset
  refine ⟨⟨hg.unique, Graph.unique_iff_issues.1 hg.unique⟩, ?_, hg.start, ?_⟩
  · intro source slot target hissue
    exact Graph.exists_dangling_iff.2 (hlost (Graph.exists_dangling_iff.1 ⟨source, slot, hissue⟩))
  · intro hasset
    obtain ⟨hproper, hnone⟩ := Graph.issues_eq_nil_iff.1 hasset
    refine Graph.issues_eq_nil_iff.2 ⟨⟨hg.unique, ?_⟩, Set.subset_eq_empty hlost hnone⟩
    intro id hid
    rcases hg.start id hid with hmem | ⟨hstart, hmiss⟩
    · exact hmem
    · exact absurd (hproper.start_mem id hstart) hmiss

/-- A node that leads to a ghost is deleted and comes back. The ghost was there before. -/
theorem edits_break_nothing_ghost :
    let asset : Graph :=
      { nodes := [{ kind := "note", id := ⟨"a"⟩, outputs := [some ⟨"b"⟩, some ⟨"ghost"⟩] },
          { kind := "note", id := ⟨"b"⟩ }] }
    let g := (((Editor.empty (β := Unit) {} {}).load asset).run
      [.disconnect ⟨"a"⟩ ⟨"ghost"⟩, .deleteNode ⟨"b"⟩, .undo, .undo]).graph
    .dangling ⟨"a"⟩ 1 ⟨"ghost"⟩ ∈ g.issues ∧
      (∃ source slot, .dangling source slot ⟨"ghost"⟩ ∈ asset.issues) ∧ g.Unique := by
  intro asset g
  have hissue : .dangling ⟨"a"⟩ 1 ⟨"ghost"⟩ ∈ g.issues := by decide
  have hasset : asset.Unique := by decide
  obtain ⟨⟨hunique, -⟩, hdangling, -⟩ := edits_break_nothing hasset (Editor.empty (β := Unit) {} {})
    [.disconnect ⟨"a"⟩ ⟨"ghost"⟩, .deleteNode ⟨"b"⟩, .undo, .undo]
  exact ⟨hissue, hdangling _ _ _ hissue, hunique⟩

end Editor

end StoryGraph
