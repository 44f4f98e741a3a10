import StoryGraph.Editor.View
import StoryGraph.Proofs.Graph.Names

/-!
# Graphs with the positions of a view

Laying a view over a graph gives its nodes the positions of their boxes. A view that is brought up
to date is the view of the graph under it, and what is done to a graph is done in the same way to
the graph with the positions of the view.
-/

namespace StoryGraph

namespace View

def reposition (v : View) (n : Node) : Node :=
  { n with position := (v.node? n.id).elim n.position ViewNode.position }

variable {β : Type} {v : View} {n : Node}

@[simp] theorem id_reposition (v : View) (n : Node) : (v.reposition n).id = n.id := rfl

@[simp] theorem outputs_reposition (v : View) (n : Node) :
    (v.reposition n).outputs = n.outputs := rfl

theorem reposition_of_node?_eq_none (h : v.node? n.id = none) : v.reposition n = n := by
  rw [reposition, h]
  rfl

theorem reposition_reposition (v : View) (n : Node) :
    v.reposition (v.reposition n) = v.reposition n := by
  simp only [reposition]
  cases v.node? n.id with
  | none => rfl
  | some box => rfl

end View

namespace Graph

def overlay (g : Graph) (v : View) : Graph := { g with nodes := g.nodes.map v.reposition }

variable {β : Type} {g g' : Graph} {v : View} {id source target : NodeId} {f : Node → Node}

@[simp] theorem start_overlay (g : Graph) (v : View) : (g.overlay v).start = g.start := rfl

@[simp] theorem ids_overlay (g : Graph) (v : View) : (g.overlay v).ids = g.ids := by
  unfold overlay ids
  rw [List.map_map]
  rfl

@[simp] theorem mem_overlay : id ∈ g.overlay v ↔ id ∈ g := mem_of_ids_eq (ids_overlay g v)

theorem unique_overlay (hu : g.Unique) (v : View) : (g.overlay v).Unique :=
  unique_of_ids_eq (ids_overlay g v) hu

@[simp] theorem node?_overlay (g : Graph) (v : View) (id : NodeId) :
    (g.overlay v).node? id = (g.node? id).map v.reposition := by
  rw [node?, overlay, List.find?_map]
  rfl

theorem overlay_overlay (g : Graph) (v : View) : (g.overlay v).overlay v = g.overlay v := by
  unfold overlay
  rw [List.map_map]
  congr 1
  apply List.map_congr_left
  intro n _
  exact v.reposition_reposition n

@[simp] theorem edges_overlay (g : Graph) (v : View) : (g.overlay v).edges = g.edges := by
  have hmem : (fun id => decide (id ∈ g.overlay v)) = fun id => decide (id ∈ g) := by
    funext id
    rw [decide_eq_decide]
    exact mem_overlay
  rw [edges, edges, hmem, overlay, List.flatMap_map]
  rfl

/-! ### Changes under a view -/

theorem overlay_modify (hf : ∀ n, v.reposition (f n) = f (v.reposition n)) :
    (g.modify id f).overlay v = (g.overlay v).modify id f := by
  have hindex : ((g.nodes.map v.reposition).findIdx fun n => n.id = id) =
      g.nodes.findIdx fun n => n.id = id := by
    rw [List.findIdx_map]
    rfl
  unfold overlay modify
  rw [hindex, modify_map hf]

theorem overlay_insertNode {n : Node} (i : Nat) (hn : n.id ∉ g → v.node? n.id = none) :
    (g.insertNode i n).map (overlay · v) = (g.overlay v).insertNode i n := by
  rw [insertNode, insertNode]
  by_cases hmem : n.id ∈ g
  · rw [if_pos hmem, if_pos (mem_overlay.2 hmem)]
    rfl
  · rw [if_neg hmem, if_neg (mt mem_overlay.1 hmem), Except.map, overlay, overlay, map_insertAt,
      View.reposition_of_node?_eq_none (hn hmem)]

theorem overlay_addNode {n : Node} (hn : n.id ∉ g → v.node? n.id = none) :
    (g.addNode n).map (overlay · v) = (g.overlay v).addNode n := by
  have hlength : (g.overlay v).nodes.length = g.nodes.length := List.length_map _
  rw [addNode, addNode, hlength, overlay_insertNode _ hn]

theorem overlay_link (g : Graph) (v : View) (source target : NodeId) :
    (g.link source target).map (fun r => (r.1, r.2.overlay v)) =
      (g.overlay v).link source target := by
  rw [link, link, node?_overlay]
  by_cases ht : target ∈ g
  · rw [if_neg (not_not.2 ht), if_neg (not_not.2 (mem_overlay.2 ht))]
    cases g.node? source with
    | none => rfl
    | some n =>
        by_cases hl : n.LinksTo target
        · have hl' : (v.reposition n).LinksTo target := hl
          simp [hl, hl', Except.map]
        · have hl' : ¬(v.reposition n).LinksTo target := hl
          simp only [Option.map_some, if_neg hl, if_neg hl', Except.map]
          exact congrArg (fun g => Except.ok (true, g)) (overlay_modify fun _ => rfl)
  · rw [if_pos ht, if_pos (mt mem_overlay.1 ht)]
    rfl

theorem overlay_unlink (g : Graph) (v : View) (source target : NodeId) :
    (g.unlink source target).map (fun r => (r.1, r.2.overlay v)) =
      (g.overlay v).unlink source target := by
  rw [unlink, unlink, node?_overlay]
  cases g.node? source with
  | none => rfl
  | some n =>
      simp only [Option.map_some, Except.map, View.outputs_reposition]
      exact congrArg (fun g => Except.ok (_, g)) (overlay_modify fun _ => rfl)

theorem overlay_popLink (g : Graph) (v : View) (source target : NodeId) :
    (g.popLink source target).map (fun r => (r.1, r.2.overlay v)) =
      (g.overlay v).popLink source target := by
  rw [popLink, popLink, node?_overlay]
  cases g.node? source with
  | none => rfl
  | some n =>
      by_cases hl : n.outputs.getLast? = some (some target)
      · have hl' : (v.reposition n).outputs.getLast? = some (some target) := hl
        simp only [Option.map_some, if_pos hl, if_pos hl', Except.map]
        exact congrArg (fun g => Except.ok (true, g)) (overlay_modify fun _ => rfl)
      · have hl' : ¬(v.reposition n).outputs.getLast? = some (some target) := hl
        simp only [Option.map_some, if_neg hl, if_neg hl', Except.map]

theorem overlay_modify? (hf : ∀ n, v.reposition (f n) = f (v.reposition n)) :
    (g.modify? id f).map (overlay · v) = (g.overlay v).modify? id f := by
  rw [modify?, modify?]
  by_cases hmem : id ∈ g
  · rw [if_pos hmem, if_pos (mem_overlay.2 hmem), Except.map, overlay_modify hf]
  · rw [if_neg hmem, if_neg (mt mem_overlay.1 hmem)]
    rfl

theorem overlay_relinkAt (g : Graph) (v : View) (source target : NodeId) (slots : List Nat) :
    (g.relinkAt source target slots).map (overlay · v) =
      (g.overlay v).relinkAt source target slots :=
  overlay_modify? fun _ => rfl

theorem overlay_setStart (g : Graph) (v : View) (id : NodeId) :
    (g.setStart id).map (overlay · v) = (g.overlay v).setStart id := by
  rw [setStart, setStart]
  by_cases hmem : id ∈ g
  · rw [if_pos hmem, if_pos (mem_overlay.2 hmem)]
    rfl
  · rw [if_neg hmem, if_neg (mt mem_overlay.1 hmem)]
    rfl

theorem overlay_relinkAll (g : Graph) (v : View) (target : NodeId) (slots : List (NodeId × Nat)) :
    (g.relinkAll target slots).overlay v = (g.overlay v).relinkAll target slots := by
  unfold relinkAll
  induction slots generalizing g with
  | nil => rfl
  | cons e slots ih =>
      have hlink : (g.modify e.1 (·.relink target [e.2])).overlay v =
          (g.overlay v).modify e.1 (·.relink target [e.2]) := overlay_modify fun _ => rfl
      rw [List.foldl_cons, List.foldl_cons, ih, hlink]

theorem overlay_restoreNode {removed : RemovedNode}
    (hn : removed.node.id ∉ g → v.node? removed.node.id = none) :
    (g.restoreNode removed).map (overlay · v) = (g.overlay v).restoreNode removed := by
  have hinsert := overlay_insertNode removed.index hn
  cases h : g.insertNode removed.index removed.node with
  | error e =>
      rw [h] at hinsert
      rw [restoreNode, restoreNode, h, ← hinsert]
      rfl
  | ok g' =>
      rw [h] at hinsert
      rw [restoreNode_eq h, restoreNode_eq hinsert.symm, ← overlay_relinkAll]
      split_ifs <;> rfl

/-- A node that is removed from under a view takes the position of its box with it. -/
theorem overlay_removeNode (g : Graph) (v : View) (id : NodeId) :
    (g.removeNode id).map (fun r => ({ r.1 with node := v.reposition r.1.node }, r.2.overlay v)) =
      (g.overlay v).removeNode id := by
  have hindex : (g.overlay v).index? id = g.index? id := by
    rw [index?, overlay, List.findIdx?_map]
    rfl
  rw [removeNode, removeNode, hindex]
  cases g.index? id with
  | none => rfl
  | some index =>
      have hnode : (g.overlay v).nodes[index]? = g.nodes[index]?.map v.reposition :=
        List.getElem?_map ..
      have hothers : (g.overlay v).nodes.eraseIdx index =
          (g.nodes.eraseIdx index).map v.reposition := List.eraseIdx_map ..
      simp only [Option.bind_eq_bind, Option.bind_some, hnode, hothers]
      cases g.nodes[index]? with
      | none => rfl
      | some n =>
          simp only [Option.map_some, Option.bind_some, Option.pure_def, overlay,
            List.flatMap_map, List.map_map]
          rfl

end Graph

end StoryGraph
