import StoryGraph.Proofs.Graph.Inverse

/-!
# Edges that are set and cut

Setting and cutting edges changes the slots of one node and nothing else (`Graph.Rewired`). What is
cut is put back by its slots, wherever they were, and an edge that was new is taken back from the end
of the slots. An edge that is there is not set again.
-/

namespace StoryGraph

namespace Graph

variable {g g' : Graph} {source target : NodeId} {n : Node}

/-- A graph of which the node with a name has other slots now. All else is as it was: the start, the
other nodes, the order, and what the node is apart from its slots. -/
structure Rewired (g : Graph) (source : NodeId) (outputs : List (Option NodeId)) (g' : Graph) :
    Prop where
  start_eq : g'.start = g.start
  length_eq : g'.nodes.length = g.nodes.length
  node_eq : ∀ (i : Nat) (n : Node), g.nodes[i]? = some n → n.id = source →
    g'.nodes[i]? = some { n with outputs }
  other_eq : ∀ (i : Nat) (n : Node), g.nodes[i]? = some n → n.id ≠ source →
    g'.nodes[i]? = some n

theorem rewired_modify (hu : g.Unique) (hn : n ∈ g.nodes)
    (f : List (Option NodeId) → List (Option NodeId)) :
    g.Rewired n.id (f n.outputs) (g.modify n.id fun m => { m with outputs := f m.outputs }) := by
  rw [modify_eq hu]
  refine ⟨rfl, List.length_map _, fun i m hm hid => ?_, fun i m hm hid => ?_⟩
  · have hnode : g.node? n.id = some m :=
      (node?_eq_some_iff hu).2 ⟨List.mem_of_getElem? hm, hid⟩
    obtain rfl : n = m := Option.some.inj (((node?_eq_some_iff hu).2 ⟨hn, rfl⟩).symm.trans hnode)
    rw [List.getElem?_map, hm, Option.map_some, if_pos rfl]
  · rw [List.getElem?_map, hm, Option.map_some, if_neg hid]

theorem link_of_link (hu : g.Unique) {isNew : Bool}
    (h : g.link source target = .ok (isNew, g')) :
    g'.link source target = .ok (false, g') := by
  have hids := ids_of_link h
  obtain ⟨ht, n, hn, ⟨hl, -, rfl⟩ | ⟨-, -, rfl⟩⟩ := exists_of_link h
  · exact link_of_linksTo hn ht hl
  · have hlast : Node.LinksTo { n with outputs := n.outputs ++ [some target] } target :=
      List.mem_append_right _ (List.mem_singleton_self _)
    exact link_of_linksTo (node?_modify_append hu hn) ((mem_of_ids_eq hids).2 ht) hlast

/-- A node of a graph is linked and unlinked, with any name as the other end. Cutting answers with
the slots that held the name, ascending, and leaves the others; putting these slots back gives the
graph that was cut. Linking to a node succeeds. It sets a new last slot unless there is one that
holds the node; then popping gives back the graph. Otherwise it changes nothing, and nor does linking
a second time. Popping takes the last slot if it holds the name, and changes nothing if not. Whatever
is done, with whatever slots, all but the slots of the node stays as it was. -/
theorem edge_changes_invert (hu : g.Unique) (hn : n ∈ g.nodes) (target : NodeId) :
    (∃ slots cut, g.unlink n.id target = .ok (slots, cut) ∧
      slots.Pairwise (· < ·) ∧ (∀ slot, slot ∈ slots ↔ n.outputs[slot]? = some (some target)) ∧
      g.Rewired n.id (n.outputs.filter (· ≠ some target)) cut ∧
      cut.relinkAt n.id target slots = .ok g) ∧
    (target ∈ g → ∃ isNew linked, g.link n.id target = .ok (isNew, linked) ∧
      (isNew = true ↔ some target ∉ n.outputs) ∧
      (isNew = true → g.Rewired n.id (n.outputs ++ [some target]) linked ∧
        linked.popLink n.id target = .ok (true, g)) ∧
      (isNew = false → linked = g) ∧ linked.link n.id target = .ok (false, linked)) ∧
    (target ∉ g → g.link n.id target = .error (.unknownNode target)) ∧
    (∃ held popped, g.popLink n.id target = .ok (held, popped) ∧
      (held = true ↔ n.outputs.getLast? = some (some target)) ∧
      (held = true → g.Rewired n.id n.outputs.dropLast popped) ∧ (held = false → popped = g)) ∧
    ∀ slots, ∃ relinked, g.relinkAt n.id target slots = .ok relinked ∧
      g.Rewired n.id (insertSlots target n.outputs slots) relinked := by
  have hmem : n.id ∈ g := mem_iff.2 ⟨n, hn, rfl⟩
  have hnode : g.node? n.id = some n := (node?_eq_some_iff hu).2 ⟨hn, rfl⟩
  refine ⟨?_, fun ht => ?_, fun ht => if_pos ht, ?_, fun slots => ?_⟩
  · have hcut := unlink_eq hnode target
    exact ⟨_, _, hcut, pairwise_slotsOf target n.outputs, fun slot => mem_slotsOf,
      rewired_modify hu hn (dropSlots target), relinkAt_of_unlink hu hcut⟩
  · by_cases hl : n.LinksTo target
    · have hlink := link_of_linksTo hnode ht hl
      exact ⟨false, g, hlink, ⟨nofun, fun hnot => absurd hl hnot⟩, nofun, fun _ => rfl, hlink⟩
    · have hlink := link_of_not_linksTo hnode ht hl
      have hset := rewired_modify hu hn (· ++ [some target])
      exact ⟨true, _, hlink, ⟨fun _ => hl, fun _ => rfl⟩,
        fun _ => ⟨hset, popLink_of_link hu hlink⟩, nofun, link_of_link hu hlink⟩
  · by_cases hl : n.outputs.getLast? = some (some target)
    · have hpop := popLink_of_getLast? hnode hl
      have htaken := rewired_modify hu hn List.dropLast
      exact ⟨true, _, hpop, ⟨fun _ => hl, fun _ => rfl⟩, fun _ => htaken, nofun⟩
    · have hpop := popLink_of_getLast?_ne hnode hl
      exact ⟨false, g, hpop, ⟨nofun, fun hlast => absurd hlast hl⟩, nofun, fun _ => rfl⟩
  · exact ⟨_, modify?_eq_ok_iff.2 ⟨hmem, rfl⟩, rewired_modify hu hn (insertSlots target · slots)⟩

/-- A node with slots that are not set, repeated and lost. -/
def frayed : Node where
  kind := "note"
  id := ⟨"a"⟩
  outputs := [none, some ⟨"b"⟩, some ⟨"ghost"⟩, some ⟨"b"⟩, none, some ⟨"b"⟩]

def braid : Graph where
  start := some ⟨"a"⟩
  nodes := [{ kind := "note", id := ⟨"b"⟩, outputs := [some ⟨"a"⟩] }, frayed]

theorem edge_changes_invert_braid : ∃ cut linked,
    braid.Unique ∧ frayed ∈ braid.nodes ∧
      braid.unlink ⟨"a"⟩ ⟨"b"⟩ = .ok ([1, 3, 5], cut) ∧
      cut.nodes.map Node.outputs = [[some ⟨"a"⟩], [none, some ⟨"ghost"⟩, none]] ∧
      cut.relinkAt ⟨"a"⟩ ⟨"b"⟩ [1, 3, 5] = .ok braid ∧
      braid.link ⟨"a"⟩ ⟨"a"⟩ = .ok (true, linked) ∧
      linked.link ⟨"a"⟩ ⟨"a"⟩ = .ok (false, linked) ∧
      linked.popLink ⟨"a"⟩ ⟨"a"⟩ = .ok (true, braid) := by
  have hu : braid.Unique := by decide
  have hn : frayed ∈ braid.nodes := List.mem_cons_of_mem _ (List.mem_singleton_self _)
  obtain ⟨⟨slots, cut, hcut, -, -, -, hback⟩, -⟩ := edge_changes_invert hu hn ⟨"b"⟩
  obtain ⟨-, hlink, -⟩ := edge_changes_invert hu hn ⟨"a"⟩
  obtain ⟨isNew, linked, hlinked, hnew, hset, -, hagain⟩ := hlink (by decide)
  obtain rfl : isNew = true := hnew.2 (by decide)
  have hslots : (braid.unlink ⟨"a"⟩ ⟨"b"⟩).map (fun r => (r.1, r.2.nodes.map Node.outputs)) =
      .ok ([1, 3, 5], [[some ⟨"a"⟩], [none, some ⟨"ghost"⟩, none]]) := rfl
  have hcut' : braid.unlink ⟨"a"⟩ ⟨"b"⟩ = .ok (slots, cut) := hcut
  rw [hcut'] at hslots
  obtain ⟨rfl, hleft⟩ := Prod.mk.inj (Except.ok.inj hslots)
  exact ⟨cut, linked, hu, hn, hcut, hleft, hback, hlinked, hagain, (hset rfl).2⟩

end Graph

end StoryGraph
