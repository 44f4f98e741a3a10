import StoryGraph.Editor.Basic
import StoryGraph.Proofs.Editor.Overlay
import StoryGraph.Proofs.Graph.Inverse

/-!
# Drafts whose view mirrors the graph

The form of a draft is its graph with the positions that are seen, which is what is saved. After
every operation the view of a draft is the view of its form, so a draft is known by its form and
the positions that its graph had when it was saved.
-/

namespace StoryGraph

variable {β : Type} {kinds : Registry β} {g : Graph} {v : View} {id : NodeId}

namespace View

theorem eq_of_fields {v w : View} (hnodes : v.nodes = w.nodes) (hedges : v.edges = w.edges)
    (hstart : v.start = w.start) : v = w := by
  cases v
  cases w
  simp only [mk.injEq]
  exact ⟨hnodes, hedges, hstart⟩

theorem sync_eq_build (v : View) (kinds : Registry β) (g : Graph) :
    v.sync kinds g = build kinds (g.overlay v) := by
  apply eq_of_fields
  · rw [build, sync, sync, Graph.overlay, List.map_map]
    rfl
  · exact (Graph.edges_overlay g v).symm
  · rfl

theorem nodes_build (kinds : Registry β) (g : Graph) :
    (build kinds g).nodes = g.nodes.map (ViewNode.ofNode kinds) := rfl

theorem ids_build (kinds : Registry β) (g : Graph) :
    (build kinds g).nodes.map ViewNode.id = g.ids := by
  rw [nodes_build, List.map_map]
  rfl

theorem node?_build (kinds : Registry β) (g : Graph) (id : NodeId) :
    (build kinds g).node? id = (g.node? id).map (ViewNode.ofNode kinds) := by
  rw [node?, nodes_build, List.find?_map]
  rfl

theorem node?_isSome_iff (h : v.nodes.map ViewNode.id = g.ids) :
    (v.node? id).isSome ↔ id ∈ g := by
  change _ ↔ id ∈ g.ids
  rw [← h]
  simp [node?]

theorem node?_place (v : View) (hv : (v.nodes.map ViewNode.id).Nodup) (id other : NodeId)
    (position : Position) : (v.place id position).node? other =
      (v.node? other).map fun n => if n.id = id then { n with position } else n := by
  have hcomp : ((fun n : ViewNode => decide (n.id = other)) ∘
      fun n => if n.id = id then { n with position } else n) = fun n => decide (n.id = other) := by
    funext n
    by_cases hid : n.id = id <;> simp [hid]
  rw [node?, place, modify_eq_map hv, List.find?_map, hcomp]
  rfl

end View

namespace Graph

theorem overlay_build_overlay (hu : g.Unique) (v : View) (kinds : Registry β) :
    g.overlay (.build kinds (g.overlay v)) = g.overlay v := by
  unfold overlay
  congr 1
  apply List.map_congr_left
  intro n hn
  have hbox : (View.build kinds (g.overlay v)).node? n.id =
      some (ViewNode.ofNode kinds (v.reposition n)) := by
    rw [View.node?_build, node?_overlay, (node?_eq_some_iff hu).2 ⟨hn, rfl⟩]
    rfl
  change (View.build kinds (g.overlay v)).reposition n = v.reposition n
  rw [View.reposition, hbox]
  rfl

theorem overlay_build (hu : g.Unique) (kinds : Registry β) : g.overlay (.build kinds g) = g := by
  have hself : g.overlay {} = g := by
    unfold overlay
    have hnodes : g.nodes.map ({} : View).reposition = g.nodes := List.map_id g.nodes
    rw [hnodes]
  have h := overlay_build_overlay hu {} kinds
  rwa [hself] at h

theorem overlay_place (hu : g.Unique) (hv : v.nodes.map ViewNode.id = g.ids) (id : NodeId)
    (position : Position) :
    g.overlay (v.place id position) = (g.overlay v).modify id fun n => { n with position } := by
  have hnodup : (v.nodes.map ViewNode.id).Nodup := hv ▸ hu
  rw [modify_eq (unique_overlay hu v)]
  unfold overlay
  rw [List.map_map]
  congr 1
  apply List.map_congr_left
  intro n hn
  have hmem : n.id ∈ g := mem_iff.2 ⟨n, hn, rfl⟩
  obtain ⟨box, hbox⟩ := Option.isSome_iff_exists.1 ((View.node?_isSome_iff hv).2 hmem)
  have hboxid : box.id = n.id := by simpa using List.find?_some hbox
  rw [View.reposition, View.node?_place v hnodup, hbox, Function.comp_apply, View.reposition, hbox]
  by_cases he : n.id = id
  · simp [hboxid, he]
  · simp [hboxid, he]

end Graph

theorem View.place_build (hu : g.Unique) (kinds : Registry β) (id : NodeId) (position : Position) :
    (View.build kinds g).place id position =
      .build kinds (g.modify id fun n => { n with position }) := by
  have hover := Graph.overlay_place hu (ids_build kinds g) id position
  rw [Graph.overlay_build hu] at hover
  have hindex : ((build kinds g).nodes.findIdx fun n => n.id = id) =
      g.nodes.findIdx fun n => n.id = id := by
    rw [nodes_build, List.findIdx_map]
    rfl
  apply eq_of_fields
  · change (g.nodes.map (ViewNode.ofNode kinds)).modify _ _ =
      (g.nodes.modify _ fun n => { n with position }).map (ViewNode.ofNode kinds)
    rw [hindex]
    exact modify_map (k := ViewNode.ofNode kinds) (fun _ => rfl) g.nodes _
  · change g.edges = (g.modify id fun n => { n with position }).edges
    rw [← hover, Graph.edges_overlay]
  · rfl

namespace Draft

def form (d : Draft) : Graph := d.graph.overlay d.view

structure Mirrors (kinds : Registry β) (d : Draft) : Prop where
  unique : d.graph.Unique
  view_eq : d.view = .build kinds d.form

variable {d : Draft}

theorem unique_form_iff : d.form.Unique ↔ d.graph.Unique := by
  rw [Graph.Unique, form, Graph.ids_overlay]
  rfl

theorem mem_form : id ∈ d.form ↔ id ∈ d.graph := Graph.mem_overlay

namespace Mirrors

theorem unique_form (hd : d.Mirrors kinds) : d.form.Unique := unique_form_iff.2 hd.unique

theorem ids_eq (hd : d.Mirrors kinds) : d.view.nodes.map ViewNode.id = d.graph.ids := by
  rw [hd.view_eq, View.ids_build, form, Graph.ids_overlay]

theorem node?_isSome_iff (hd : d.Mirrors kinds) : (d.view.node? id).isSome ↔ id ∈ d.graph :=
  View.node?_isSome_iff hd.ids_eq

theorem node?_eq_none (hd : d.Mirrors kinds) (h : id ∉ d.graph) : d.view.node? id = none :=
  Option.not_isSome_iff_eq_none.1 (mt hd.node?_isSome_iff.1 h)

end Mirrors

theorem form_build (hu : g.Unique) (kinds : Registry β) :
    { graph := g, view := .build kinds g : Draft }.form = g := Graph.overlay_build hu kinds

theorem mirrors_build (hu : g.Unique) (kinds : Registry β) :
    { graph := g, view := .build kinds g : Draft }.Mirrors kinds :=
  ⟨hu, congrArg (View.build kinds) (form_build hu kinds).symm⟩

def synced (d : Draft) (kinds : Registry β) : Draft :=
  { d with view := d.view.sync kinds d.graph }

theorem form_synced (hu : d.graph.Unique) (kinds : Registry β) :
    (d.synced kinds).form = d.form := by
  rw [form, synced, View.sync_eq_build]
  exact Graph.overlay_build_overlay hu d.view kinds

theorem mirrors_synced (hu : d.graph.Unique) (kinds : Registry β) :
    (d.synced kinds).Mirrors kinds := by
  refine ⟨hu, ?_⟩
  rw [form_synced hu, synced, View.sync_eq_build]
  rfl

theorem form_place (hd : d.Mirrors kinds) (id : NodeId) (position : Position) :
    { d with view := d.view.place id position }.form =
      d.form.modify id fun n => { n with position } :=
  Graph.overlay_place hd.unique hd.ids_eq id position

theorem mirrors_place (hd : d.Mirrors kinds) (id : NodeId) (position : Position) :
    { d with view := d.view.place id position }.Mirrors kinds := by
  refine ⟨hd.unique, ?_⟩
  rw [form_place hd]
  change d.view.place id position = _
  rw [hd.view_eq, View.place_build hd.unique_form]

theorem form_settle (d : Draft) : { d with graph := d.form }.form = d.form :=
  Graph.overlay_overlay d.graph d.view

theorem mirrors_settle (hd : d.Mirrors kinds) : { d with graph := d.form }.Mirrors kinds := by
  refine ⟨hd.unique_form, ?_⟩
  rw [form_settle]
  exact hd.view_eq

end Draft

theorem View.reposition_cons {box : ViewNode} {boxes : List ViewNode}
    (hbox : box.id ∉ boxes.map ViewNode.id) (n : Node) :
    ({ nodes := boxes } : View).reposition
        (if n.id = box.id then { n with position := box.position } else n) =
      ({ nodes := box :: boxes } : View).reposition n := by
  by_cases hid : n.id = box.id
  · have hnone : ({ nodes := boxes } : View).node? n.id = none := by
      rw [node?, List.find?_eq_none]
      intro b hb he
      apply hbox
      rw [← hid, ← of_decide_eq_true he]
      exact List.mem_map_of_mem hb
    have hrest : ({ nodes := boxes } : View).reposition { n with position := box.position } =
        { n with position := box.position } := reposition_of_node?_eq_none hnone
    have hsome : ({ nodes := box :: boxes } : View).node? n.id = some box := by
      simp [node?, hid]
    rw [if_pos hid, hrest, reposition, hsome]
    rfl
  · have hnode : ({ nodes := box :: boxes } : View).node? n.id =
        ({ nodes := boxes } : View).node? n.id := by
      simp [node?, Ne.symm hid]
    rw [if_neg hid, reposition, reposition, hnode]

/-- Boxes of different names, put one after the other, leave each of their nodes where its box
is. -/
theorem Graph.foldlM_setPosition {boxes : List ViewNode} (hu : g.Unique)
    (hboxes : (boxes.map ViewNode.id).Nodup) (hmem : ∀ box ∈ boxes, box.id ∈ g) :
    boxes.foldlM (fun g n => g.setPosition n.id n.position) g =
      .ok (g.overlay { nodes := boxes }) := by
  induction boxes generalizing g with
  | nil =>
      have hnodes : g.nodes.map ({ nodes := [] } : View).reposition = g.nodes := List.map_id g.nodes
      rw [overlay, hnodes]
      rfl
  | cons box boxes ih =>
      obtain ⟨hbox, hboxes⟩ := List.nodup_cons.1 hboxes
      have hf : ∀ n : Node, { n with position := box.position }.id = n.id := fun _ => rfl
      have hids := ids_modify g box.id hf
      have hrest := ih (unique_modify hu box.id hf) hboxes fun b hb =>
        (mem_of_ids_eq hids).2 (hmem b (List.mem_cons_of_mem box hb))
      have hset : g.setPosition box.id box.position =
          .ok (g.modify box.id fun n => { n with position := box.position }) :=
        modify?_eq_ok_iff.2 ⟨hmem box List.mem_cons_self, rfl⟩
      rw [List.foldlM_cons, hset]
      change boxes.foldlM _ _ = _
      rw [hrest, modify_eq hu]
      unfold overlay
      rw [List.map_map]
      congr 2
      apply List.map_congr_left
      intro n _
      exact View.reposition_cons hbox n

/-- What is saved is the form. -/
theorem Editor.settled_eq {e : Editor β} (hd : e.Mirrors kinds) : e.settled = .ok e.form := by
  have hnodup : (e.view.nodes.map ViewNode.id).Nodup := hd.ids_eq ▸ hd.unique
  apply Graph.foldlM_setPosition hd.unique hnodup
  intro box hbox
  change box.id ∈ e.graph.ids
  rw [← hd.ids_eq]
  exact List.mem_map_of_mem hbox

end StoryGraph
