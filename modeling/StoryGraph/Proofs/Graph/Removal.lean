import StoryGraph.Proofs.Graph.Anchored
import StoryGraph.Proofs.Graph.Inverse

/-!
# What is taken out of a graph with a node

The record of a node that is removed lists every slot of another node that held it, in the order in
which the slots stand in the graph (`Graph.Before`). Nothing else is taken out of the graph, and
restoring the node from the record puts all of it back.
-/

namespace StoryGraph

namespace Graph

variable {g g' : Graph} {id target : NodeId} {removed : RemovedNode}

/-- Of two slots the first stands before the second: in a node further in front, or in the same node
with a lower number. -/
def Before (g : Graph) (a b : NodeId × Nat) : Prop :=
  g.ids.idxOf a.1 < g.ids.idxOf b.1 ∨ a.1 = b.1 ∧ a.2 < b.2

instance (g : Graph) (a b : NodeId × Nat) : Decidable (g.Before a b) :=
  inferInstanceAs (Decidable (_ ∨ _))

theorem mem_slotsInto {l : List Node} {source : NodeId} {slot : Nat} :
    (source, slot) ∈ slotsInto target l ↔
      ∃ n ∈ l, n.id = source ∧ n.outputs[slot]? = some (some target) := by
  rw [slotsInto, List.mem_flatMap]
  refine exists_congr fun n => and_congr_right fun _ => ?_
  rw [List.mem_map]
  constructor
  · rintro ⟨slot, hslot, heq⟩
    obtain ⟨rfl, rfl⟩ := Prod.mk.inj heq
    exact ⟨rfl, mem_slotsOf.1 hslot⟩
  · rintro ⟨rfl, hslot⟩
    exact ⟨slot, mem_slotsOf.2 hslot, rfl⟩

theorem pairwise_idxOf (hu : g.Unique) :
    g.nodes.Pairwise fun m n => g.ids.idxOf m.id < g.ids.idxOf n.id := by
  have hids : g.ids.Pairwise fun a b => g.ids.idxOf a < g.ids.idxOf b := by
    rw [List.pairwise_iff_getElem]
    intro i j hi hj hlt
    rwa [hu.idxOf_getElem, hu.idxOf_getElem]
  exact (List.pairwise_map (f := Node.id)).1 hids

/-- The slots of some nodes of a graph are listed as they stand in the graph. -/
theorem pairwise_slotsInto (hu : g.Unique) {l : List Node} (hl : l.Sublist g.nodes)
    (target : NodeId) : (slotsInto target l).Pairwise g.Before := by
  refine List.pairwise_flatMap.2 ⟨fun n _ => ?_, ((pairwise_idxOf hu).sublist hl).imp ?_⟩
  · refine List.pairwise_map.2 ((pairwise_slotsOf target n.outputs).imp ?_)
    exact fun hlt => .inr ⟨rfl, hlt⟩
  · intro m n hlt a ha b hb
    obtain ⟨_, -, rfl⟩ := List.mem_map.1 ha
    obtain ⟨_, -, rfl⟩ := List.mem_map.1 hb
    exact .inl hlt

/-- The nodes that are left when one is removed are those of another name. -/
theorem mem_eraseIdx_iff (hu : g.Unique) {i : Nat} {n : Node} (hi : g.nodes[i]? = some n)
    {m : Node} : m ∈ g.nodes.eraseIdx i ↔ m ∈ g.nodes ∧ m.id ≠ n.id := by
  have hsame : ∀ {j : Nat} {m : Node}, g.nodes[j]? = some m → m.id = n.id → j = i := by
    intro j m hj hid
    have hlt : i < g.ids.length := by
      rw [ids, List.length_map]
      exact (List.getElem?_eq_some_iff.1 hi).1
    refine ((List.getElem?_inj hlt hu).1 ?_).symm
    rw [ids, List.getElem?_map, List.getElem?_map, hi, hj, Option.map_some, Option.map_some, hid]
  rw [List.mem_eraseIdx_iff_getElem?]
  constructor
  · rintro ⟨j, hne, hj⟩
    exact ⟨List.mem_of_getElem? hj, fun hid => hne (hsame hj hid)⟩
  · rintro ⟨hm, hid⟩
    obtain ⟨j, hj⟩ := List.mem_iff_getElem?.1 hm
    refine ⟨j, ?_, hj⟩
    rintro rfl
    obtain rfl := Option.some.inj (hi.symm.trans hj)
    exact hid rfl

/-- Where a name is removed, nothing leads to it any more. -/
theorem not_linksTo_of_unlink (n : Node) (target : NodeId) : ¬(n.unlink target).LinksTo target := by
  intro h
  simpa using (List.mem_filter.1 h).2

/-- The slots in which a node was held are those of the other nodes that held it, in order. -/
theorem incoming_of_removeNode (hu : g.Unique) (h : g.removeNode id = some (removed, g')) :
    (∀ source slot, (source, slot) ∈ removed.incoming ↔
      source ≠ id ∧ ∃ n ∈ g.nodes, n.id = source ∧ n.outputs[slot]? = some (some id)) ∧
      removed.incoming.Pairwise g.Before := by
  obtain ⟨hnode, rfl, hincoming, -⟩ := exists_of_removeNode h
  rw [hincoming]
  refine ⟨fun source slot => ?_, pairwise_slotsInto hu (List.eraseIdx_sublist _ _) _⟩
  rw [mem_slotsInto]
  constructor
  · rintro ⟨n, hn, rfl, hslot⟩
    obtain ⟨hmem, hne⟩ := (mem_eraseIdx_iff hu hnode).1 hn
    exact ⟨hne, n, hmem, rfl, hslot⟩
  · rintro ⟨hne, n, hmem, rfl, hslot⟩
    exact ⟨n, (mem_eraseIdx_iff hu hnode).2 ⟨hmem, hne⟩, rfl, hslot⟩

/-- A node that is in a graph is removed with all that leads to it. The record has the node, its
place and whether it was the start, and lists the slots of the other nodes that held it, each once,
as they stand in the graph. Restored from the record, the graph is what it was. -/
theorem restoring_undoes_removing (hu : g.Unique) (hmem : id ∈ g) :
    ∃ removed rest, g.removeNode id = some (removed, rest) ∧
      (id ∉ rest ∧ ∀ n ∈ rest.nodes, ¬n.LinksTo id) ∧
      (g.nodes[removed.index]? = some removed.node ∧ removed.node.id = id) ∧
      (removed.wasStart = true ↔ g.start = some id) ∧
      (∀ source slot, (source, slot) ∈ removed.incoming ↔
        source ≠ id ∧ ∃ n ∈ g.nodes, n.id = source ∧ n.outputs[slot]? = some (some id)) ∧
      removed.incoming.Pairwise g.Before ∧
      rest.restoreNode removed = .ok g := by
  obtain ⟨⟨removed, rest⟩, h⟩ := exists_removeNode_iff.2 hmem
  obtain ⟨hnode, hid, -, hstart, hrest⟩ := exists_of_removeNode h
  obtain ⟨hincoming, hordered⟩ := incoming_of_removeNode hu h
  have hgone : id ∉ rest := not_mem_of_perm hu (ids_perm_of_removeNode h)
  refine ⟨removed, rest, h, ⟨hgone, fun n hn => ?_⟩, ⟨hnode, hid⟩, ?_, hincoming, hordered,
    restoreNode_of_removeNode hu h⟩
  · rw [hrest] at hn
    obtain ⟨m, -, rfl⟩ := List.mem_map.1 hn
    exact not_linksTo_of_unlink m id
  · rw [hstart, decide_eq_true_iff]

def knot : Graph where
  start := some ⟨"b"⟩
  nodes := [{ kind := "note", id := ⟨"a"⟩, outputs := [some ⟨"b"⟩, none, some ⟨"b"⟩, some ⟨"c"⟩] },
    { kind := "note", id := ⟨"b"⟩, outputs := [some ⟨"b"⟩, none, some ⟨"a"⟩] },
    { kind := "note", id := ⟨"c"⟩, outputs := [none, some ⟨"b"⟩, some ⟨"b"⟩] }]

theorem restoring_undoes_removing_knot : ∃ removed rest,
    knot.Unique ∧ ⟨"b"⟩ ∈ knot ∧ knot.removeNode ⟨"b"⟩ = some (removed, rest) ∧
      removed.index = 1 ∧ removed.wasStart = true ∧
      removed.incoming = [(⟨"a"⟩, 0), (⟨"a"⟩, 2), (⟨"c"⟩, 1), (⟨"c"⟩, 2)] ∧
      rest.nodes.map Node.outputs = [[none, some ⟨"c"⟩], [none]] ∧
      rest.restoreNode removed = .ok knot := by
  have hu : knot.Unique := by decide
  have hmem : ⟨"b"⟩ ∈ knot := by decide
  obtain ⟨removed, rest, h, -, -, -, -, -, hrestore⟩ := restoring_undoes_removing hu hmem
  have hcut : (knot.removeNode ⟨"b"⟩).map (fun r => (r.1.index, r.1.wasStart, r.1.incoming,
      r.2.nodes.map Node.outputs)) = some (1, true,
        [(⟨"a"⟩, 0), (⟨"a"⟩, 2), (⟨"c"⟩, 1), (⟨"c"⟩, 2)], [[none, some ⟨"c"⟩], [none]]) := rfl
  rw [h, Option.map_some, Option.some.injEq, Prod.mk.injEq, Prod.mk.injEq, Prod.mk.injEq] at hcut
  obtain ⟨hindex, hstart, hincoming, hleft⟩ := hcut
  exact ⟨removed, rest, hu, hmem, h, hindex, hstart, hincoming, hleft, hrestore⟩

end Graph

end StoryGraph
