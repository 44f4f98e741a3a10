import StoryGraph.Proofs.Graph.Names

/-!
# Changes to a graph are taken back

Each change to a graph has another that takes it back exactly, as long as no two nodes of the graph
have the same name: restoring a node takes back its removal, popping a link takes back a new link,
and relinking takes back a cut.
-/

namespace StoryGraph

namespace Graph

variable {g g' : Graph} {id source target : NodeId} {n : Node} {f h : Node → Node}

theorem node?_eq_some_iff (hu : g.Unique) : g.node? id = some n ↔ n ∈ g.nodes ∧ n.id = id :=
  find?_eq_some_iff_mem hu

theorem modify_eq (hu : g.Unique) (id : NodeId) (f : Node → Node) :
    g.modify id f = { g with nodes := g.nodes.map fun n => if n.id = id then f n else n } := by
  rw [modify, modify_eq_map hu]

theorem node?_modify (hu : g.Unique) (id : NodeId) (hf : ∀ n, (f n).id = n.id) :
    (g.modify id f).node? id = (g.node? id).map f := by
  rw [modify_eq hu]
  unfold node?
  have hcomp : ((fun n : Node => decide (n.id = id)) ∘ fun n => if n.id = id then f n else n) =
      fun n => decide (n.id = id) := by
    funext n
    by_cases hid : n.id = id <;> simp [hid, hf]
  rw [List.find?_map, hcomp]
  cases hfind : g.nodes.find? fun n => n.id = id with
  | none => rfl
  | some n =>
      have hid : n.id = id := by simpa using List.find?_some hfind
      simp [hid]

theorem modify_eq_self (hu : g.Unique) (hf : ∀ n ∈ g.node? id, f n = n) : g.modify id f = g := by
  have hnodes : (g.nodes.map fun n => if n.id = id then f n else n) = g.nodes.map fun n => n := by
    apply List.map_congr_left
    intro n hn
    by_cases hid : n.id = id
    · rw [if_pos hid]
      exact hf n ((node?_eq_some_iff hu).2 ⟨hn, hid⟩)
    · rw [if_neg hid]
  rw [modify_eq hu, hnodes, List.map_id']

theorem modify_modify (hu : g.Unique) (hf : ∀ n, (f n).id = n.id) :
    (g.modify id f).modify id h = g.modify id fun n => h (f n) := by
  rw [modify_eq (unique_modify hu id hf), modify_eq hu, modify_eq hu, List.map_map]
  congr 1
  apply List.map_congr_left
  intro n _
  by_cases hid : n.id = id
  · simp [hid, hf]
  · simp [hid]

theorem modify_modify_eq_self (hu : g.Unique) (id : NodeId) (hf : ∀ n, (f n).id = n.id)
    (hh : ∀ n ∈ g.node? id, h (f n) = n) : (g.modify id f).modify id h = g := by
  rw [modify_modify hu hf, modify_eq_self hu hh]

/-! ### Edges -/

theorem node?_modify_append (hu : g.Unique) (hn : g.node? source = some n) :
    (g.modify source fun n => { n with outputs := n.outputs ++ [some target] }).node? source =
      some { n with outputs := n.outputs ++ [some target] } := by
  have hnode := node?_modify (f := fun n => { n with outputs := n.outputs ++ [some target] })
    hu source fun _ => rfl
  rwa [hn, Option.map_some] at hnode

theorem popLink_of_link (hu : g.Unique) (hl : g.link source target = .ok (true, g')) :
    g'.popLink source target = .ok (true, g) := by
  obtain ⟨-, n, hn, ⟨-, hold, -⟩ | ⟨-, -, rfl⟩⟩ := exists_of_link hl
  · cases hold
  · have hback := modify_modify_eq_self
      (f := fun n => { n with outputs := n.outputs ++ [some target] })
      (h := fun n => { n with outputs := n.outputs.dropLast }) hu source (fun _ => rfl)
      fun m _ => by simp
    rw [popLink_of_getLast? (node?_modify_append hu hn) List.getLast?_concat, hback]

theorem relinkAt_of_unlink (hu : g.Unique) {slots : List Nat}
    (hl : g.unlink source target = .ok (slots, g')) :
    g'.relinkAt source target slots = .ok g := by
  obtain ⟨n, hn, rfl, rfl⟩ := exists_of_unlink hl
  have hid : ∀ n : Node, (n.unlink target).id = n.id := fun _ => rfl
  have hmem : source ∈ g.modify source (·.unlink target) := by
    rw [mem_of_ids_eq (ids_modify g source hid), ← node?_isSome_iff, hn]
    rfl
  have hback := modify_modify_eq_self (f := (·.unlink target))
    (h := (·.relink target (slotsOf target n.outputs))) hu source hid fun m hm => by
      obtain rfl := Option.some.inj (hn.symm.trans hm)
      exact n.relink_unlink target
  rw [relinkAt, modify?, if_pos hmem]
  exact congrArg Except.ok hback

/-! ### Nodes -/

def slotsIn (source : NodeId) (slots : List (NodeId × Nat)) : List Nat :=
  (slots.filter fun e => e.1 = source).map Prod.snd

theorem slotsIn_cons (source id : NodeId) (slot : Nat) (slots : List (NodeId × Nat)) :
    slotsIn source ((id, slot) :: slots) =
      if id = source then slot :: slotsIn source slots else slotsIn source slots := by
  by_cases hid : id = source <;> simp [slotsIn, hid]

theorem slotsIn_append (source : NodeId) (l l' : List (NodeId × Nat)) :
    slotsIn source (l ++ l') = slotsIn source l ++ slotsIn source l' := by
  simp [slotsIn]

theorem slotsIn_map_pair (source id : NodeId) (slots : List Nat) :
    slotsIn source (slots.map fun slot => (id, slot)) = if id = source then slots else [] := by
  by_cases hid : id = source <;>
    simp [slotsIn, List.filter_map, Function.comp_def, hid]

theorem slotsInto_cons (target : NodeId) (n : Node) (l : List Node) :
    slotsInto target (n :: l) =
      (slotsOf target n.outputs).map (fun slot => (n.id, slot)) ++ slotsInto target l := rfl

theorem slotsIn_slotsInto_of_not_mem {l : List Node} (h : source ∉ l.map Node.id)
    (target : NodeId) : slotsIn source (slotsInto target l) = [] := by
  induction l with
  | nil => rfl
  | cons n l ih =>
      obtain ⟨hn, hl⟩ := not_or.1 (mt List.mem_cons.2 h)
      rw [slotsInto_cons, slotsIn_append, slotsIn_map_pair, if_neg (Ne.symm hn), ih hl]
      rfl

theorem slotsIn_slotsInto {l : List Node} (h : (l.map Node.id).Nodup) (hn : n ∈ l)
    (target : NodeId) : slotsIn n.id (slotsInto target l) = slotsOf target n.outputs := by
  induction l with
  | nil => cases hn
  | cons m l ih =>
      obtain ⟨hm, hl⟩ := List.nodup_cons.1 h
      rw [slotsInto_cons, slotsIn_append, slotsIn_map_pair]
      rcases List.mem_cons.1 hn with rfl | hn
      · rw [if_pos rfl, slotsIn_slotsInto_of_not_mem hm, List.append_nil]
      · have hne : m.id ≠ n.id := fun he => hm (he ▸ List.mem_map_of_mem hn)
        rw [if_neg hne, ih hl hn, List.nil_append]

theorem relinkAll_eq (hu : g.Unique) (target : NodeId) (slots : List (NodeId × Nat)) :
    g.relinkAll target slots =
      { g with nodes := g.nodes.map fun n => n.relink target (slotsIn n.id slots) } := by
  unfold relinkAll
  induction slots generalizing g with
  | nil =>
      have hnodes : (g.nodes.map fun n => n.relink target (slotsIn n.id [])) = g.nodes :=
        List.map_id g.nodes
      rw [hnodes]
      rfl
  | cons e slots ih =>
      obtain ⟨source, slot⟩ := e
      have hid : ∀ n : Node, (n.relink target [slot]).id = n.id := fun _ => rfl
      rw [List.foldl_cons, ih (unique_modify hu source hid), modify_eq hu]
      dsimp only
      rw [List.map_map]
      congr 1
      apply List.map_congr_left
      intro n _
      rw [Function.comp_apply, slotsIn_cons]
      by_cases hs : source = n.id
      · rw [if_pos hs.symm, if_pos hs, hid]
        exact (relink_cons n target slot _).symm
      · rw [if_neg (Ne.symm hs), if_neg hs]

/-- The nodes that are left get back what led to the node that was removed. -/
theorem map_relink_unlink {l : List Node} (h : (l.map Node.id).Nodup) (target : NodeId) :
    ((l.map (·.unlink target)).map fun n => n.relink target (slotsIn n.id (slotsInto target l))) =
      l := by
  rw [List.map_map]
  have hnodes : (l.map ((fun n => n.relink target (slotsIn n.id (slotsInto target l))) ∘
      (·.unlink target))) = l.map fun n => n := by
    apply List.map_congr_left
    intro n hn
    have hid : (n.unlink target).id = n.id := rfl
    rw [Function.comp_apply, hid, slotsIn_slotsInto h hn, n.relink_unlink]
  rw [hnodes, List.map_id']

/-- A node that was removed is restored with all that led to it. -/
theorem restoreNode_of_removeNode (hu : g.Unique) {removed : RemovedNode}
    (h : g.removeNode id = some (removed, g')) : g'.restoreNode removed = .ok g := by
  have hperm := (ids_perm_of_removeNode h).nodup_iff.1 hu
  obtain ⟨hnode, hid, hincoming, hstart, rfl⟩ := exists_of_removeNode h
  have hids : ((g.nodes.eraseIdx removed.index).map (·.unlink id)).map Node.id =
      (g.nodes.eraseIdx removed.index).map Node.id := by
    rw [List.map_map]
    rfl
  rw [ids, hids, ← hid] at hperm
  obtain ⟨hnew, hnodup⟩ := List.nodup_cons.1 hperm
  let back : Graph :=
    { start := if g.start = some id then none else g.start
      nodes := insertAt ((g.nodes.eraseIdx removed.index).map (·.unlink id)) removed.index
        removed.node }
  have hback : back.ids = g.ids := by
    rw [ids, ids, map_insertAt, hids, ← map_insertAt, insertAt_eraseIdx hnode]
  have hinsert : insertNode
      { start := if g.start = some id then none else g.start
        nodes := (g.nodes.eraseIdx removed.index).map (·.unlink id) } removed.index
      removed.node = .ok back := by
    rw [insertNode, if_neg]
    change removed.node.id ∉ List.map Node.id _
    rw [hids]
    exact hnew
  have hall := relinkAll_eq (g := back) (by rw [Unique, hback]; exact hu) id removed.incoming
  have hself : removed.node.relink id (slotsIn removed.node.id removed.incoming) = removed.node := by
    rw [hincoming, slotsIn_slotsInto_of_not_mem hnew]
    rfl
  have hnodes : back.nodes.map (fun n => n.relink id (slotsIn n.id removed.incoming)) =
      g.nodes := by
    rw [map_insertAt, hself, hincoming, map_relink_unlink hnodup, insertAt_eraseIdx hnode]
  rw [hnodes] at hall
  rw [restoreNode_eq hinsert, hid, hall, hstart]
  by_cases hs : g.start = some id
  · rw [if_pos (decide_eq_true hs), ← hs]
  · rw [if_neg (by simpa using hs)]
    simp only [back, if_neg hs]

/-- A node that was added, and that nothing leads to but maybe the start, is removed again. -/
theorem removeNode_of_append (hnew : n.id ∉ g) (hlinks : ∀ m ∈ g.nodes, ¬m.LinksTo n.id)
    {start : Option NodeId} (hstart : (if start = some n.id then none else start) = g.start) :
    ∃ removed, Graph.removeNode { start, nodes := g.nodes ++ [n] } n.id = some (removed, g) := by
  have hindex : Graph.index? { start, nodes := g.nodes ++ [n] } n.id = some g.nodes.length := by
    have hnone : g.nodes.findIdx? (fun m => m.id = n.id) = none := by
      rw [List.findIdx?_eq_none_iff]
      intro m hm
      simpa using fun he => hnew (mem_iff.2 ⟨m, hm, he⟩)
    simp [index?, List.findIdx?_append, hnone]
  have hunlink : g.nodes.map (·.unlink n.id) = g.nodes := by
    have hnodes : g.nodes.map (·.unlink n.id) = g.nodes.map fun m => m := by
      apply List.map_congr_left
      intro m hm
      exact Node.unlink_of_not_linksTo (hlinks m hm)
    rw [hnodes, List.map_id']
  have herase : (g.nodes ++ [n]).eraseIdx g.nodes.length = g.nodes := by
    rw [List.eraseIdx_append_of_length_le (Nat.le_refl _)]
    simp
  simp only [removeNode, hindex, List.getElem?_concat_length, herase, hunlink, decide_eq_true_eq,
    hstart, Option.bind_eq_bind, Option.bind_some, Option.pure_def]
  exact ⟨_, rfl⟩

theorem setPosition_setPosition (hu : g.Unique) {position : Position}
    (hn : g.node? id = some n) (h : g.setPosition id position = .ok g') :
    g'.setPosition id n.position = .ok g := by
  have hf : ∀ m : Node, { m with position }.id = m.id := fun _ => rfl
  obtain ⟨hmem, rfl⟩ := modify?_eq_ok_iff.1 h
  apply modify?_eq_ok_iff.2
  constructor
  · exact (mem_of_ids_eq (ids_modify g id hf)).2 hmem
  · symm
    apply modify_modify_eq_self hu id hf
    intro m hm
    obtain rfl := Option.some.inj (hn.symm.trans hm)
    rfl

end Graph

end StoryGraph
