import StoryGraph.Proofs.Graph.References
import StoryGraph.Proofs.Graph.Removal

/-!
# Every slot is accounted for

To walk through a graph is to go through its nodes, and through the slots of each, in order. The walk
meets every slot that is set once (`Graph.references`). The edges of a graph are the slots of the
walk that hold a node, and the dangling slots among its issues are the others. The model goes through
the slots anew for each of the two and for predecessors; they agree because each is equal to what
the one walk gives.
-/

namespace StoryGraph

/-- A slot that is set: the node that has it, its number, and the name that it holds. -/
structure Reference where
  source : NodeId
  slot : Nat
  target : NodeId
deriving DecidableEq

namespace Reference

def edge (r : Reference) : NodeId × NodeId := (r.source, r.target)

def dangling (r : Reference) : Issue := .dangling r.source r.slot r.target

end Reference

namespace Node

def references (n : Node) : List Reference :=
  n.outputs.zipIdx.filterMap fun (held, slot) => held.map (Reference.mk n.id slot)

variable {n : Node} {r : Reference}

theorem mem_references :
    r ∈ n.references ↔ r.source = n.id ∧ n.outputs[r.slot]? = some (some r.target) := by
  obtain ⟨source, slot, target⟩ := r
  simp only [references, List.mem_filterMap, Prod.exists, List.mem_zipIdx_iff_getElem?,
    Option.map_eq_some_iff, Reference.mk.injEq]
  constructor
  · rintro ⟨_, _, hslot, _, rfl, rfl, rfl, rfl⟩
    exact ⟨rfl, hslot⟩
  · rintro ⟨rfl, hslot⟩
    exact ⟨some target, slot, hslot, target, rfl, rfl, rfl, rfl⟩

theorem pairwise_references (n : Node) :
    n.references.Pairwise fun r s => r.slot < s.slot := by
  refine List.pairwise_filterMap.2 ((pairwise_zipIdx n.outputs).imp fun {a b} hlt r hr s hs => ?_)
  obtain ⟨_, -, rfl⟩ := Option.map_eq_some_iff.1 hr
  obtain ⟨_, -, rfl⟩ := Option.map_eq_some_iff.1 hs
  exact hlt

end Node

theorem map_target_references (n : Node) :
    n.references.map Reference.target = n.outputs.filterMap id := by
  have hslots : n.outputs.zipIdx.map Prod.fst = n.outputs := List.zipIdx_map_fst 0 n.outputs
  rw [Node.references, List.map_filterMap, ← congrArg (List.filterMap id) hslots, List.filterMap_map]
  congr 1
  funext e
  obtain ⟨held, slot⟩ := e
  cases held <;> rfl

namespace Graph

variable {g : Graph} {id source target : NodeId} {r : Reference}

def references (g : Graph) : List Reference := g.nodes.flatMap Node.references

theorem mem_references : r ∈ g.references ↔
    ∃ n ∈ g.nodes, n.id = r.source ∧ n.outputs[r.slot]? = some (some r.target) := by
  simp only [references, List.mem_flatMap, Node.mem_references, eq_comm]

/-- The walk meets the slots as they stand in the graph. -/
theorem pairwise_references (hu : g.Unique) :
    g.references.Pairwise fun r s => g.Before (r.source, r.slot) (s.source, s.slot) := by
  refine List.pairwise_flatMap.2 ⟨fun n _ => ?_, (pairwise_idxOf hu).imp fun {m n} hlt => ?_⟩
  · refine n.pairwise_references.imp_of_mem fun {r s} hr hs hlt => .inr ⟨?_, hlt⟩
    exact (Node.mem_references.1 hr).1.trans (Node.mem_references.1 hs).1.symm
  · intro r hr s hs
    rw [← (Node.mem_references.1 hr).1, ← (Node.mem_references.1 hs).1] at hlt
    exact .inl hlt

/-- The edges are the slots that hold a node. -/
theorem edges_eq (g : Graph) :
    g.edges = (g.references.filter (·.target ∈ g)).map Reference.edge := by
  rw [edges, references, List.filter_flatMap, List.map_flatMap]
  congr 1
  funext n
  rw [← map_target_references n, List.filter_map, List.map_map]
  refine List.map_congr_left fun r hr => ?_
  have hsource := (Node.mem_references.1 (List.mem_of_mem_filter hr)).1
  rw [Function.comp_apply, Reference.edge, hsource]

theorem danglingOf_eq (g : Graph) (n : Node) :
    g.danglingOf n = (n.references.filter (·.target ∉ g)).map Reference.dangling := by
  rw [danglingOf, Node.references, List.filter_filterMap, List.map_filterMap]
  congr 1
  funext e
  obtain ⟨held, slot⟩ := e
  cases held with
  | none => rfl
  | some target => by_cases hmem : target ∈ g <;> simp [hmem, Reference.dangling]

theorem issues_eq (hu : g.Unique) :
    g.issues = (g.start.toList.filter (· ∉ g)).map .unknownStart ++
      (g.references.filter (·.target ∉ g)).map Reference.dangling := by
  have hdangling : g.nodes.flatMap g.danglingOf =
      (g.references.filter (·.target ∉ g)).map Reference.dangling := by
    rw [references, List.filter_flatMap, List.map_flatMap]
    congr 1
    exact funext g.danglingOf_eq
  rw [issues, unique_iff.1 hu, hdangling]
  rfl

theorem mem_edges_iff : (source, target) ∈ g.edges ↔
    target ∈ g ∧ ∃ n ∈ g.nodes, n.id = source ∧ n.LinksTo target := by
  simp only [edges, List.mem_flatMap, List.mem_map, List.mem_filter, List.mem_filterMap,
    decide_eq_true_eq, Prod.mk.injEq, id_eq]
  constructor
  · rintro ⟨n, hn, _, ⟨⟨_, hheld, rfl⟩, hmem⟩, rfl, rfl⟩
    exact ⟨hmem, n, hn, rfl, hheld⟩
  · rintro ⟨hmem, n, hn, rfl, hheld⟩
    exact ⟨n, hn, target, ⟨⟨some target, hheld, rfl⟩, hmem⟩, rfl, rfl⟩

theorem mem_predecessors_iff :
    source ∈ g.predecessors target ↔ ∃ n ∈ g.nodes, n.id = source ∧ n.LinksTo target := by
  simp only [predecessors, List.mem_map, List.mem_filter, decide_eq_true_eq]
  exact exists_congr fun n => by rw [and_right_comm, and_assoc]

theorem exists_dangling_slot_iff : (∃ slot, .dangling source slot target ∈ g.issues) ↔
    target ∉ g ∧ ∃ n ∈ g.nodes, n.id = source ∧ n.LinksTo target := by
  simp only [dangling_mem_issues_iff]
  constructor
  · rintro ⟨slot, hmem, n, hn, hid, hslot⟩
    exact ⟨hmem, n, hn, hid, List.mem_of_getElem? hslot⟩
  · rintro ⟨hmem, n, hn, hid, hlink⟩
    obtain ⟨slot, hslot⟩ := List.mem_iff_getElem?.1 hlink
    exact ⟨slot, hmem, n, hn, hid, hslot⟩

/-- The nodes that lead to a name stand in the order of the graph. -/
theorem predecessors_sublist (g : Graph) (id : NodeId) : (g.predecessors id).Sublist g.ids :=
  List.filter_sublist.map Node.id

/-- A graph is in order if its start, should it have one, and every slot that is set hold nodes. -/
theorem issues_eq_nil_iff_references (hu : g.Unique) :
    g.issues = [] ↔ (∀ id ∈ g.start, id ∈ g) ∧ ∀ r ∈ g.references, r.target ∈ g := by
  simp [issues_eq hu]

/-- A walk through a graph meets every slot that is set, each once and in order, and no other slot.
Those that hold a node are the edges, and the others are reported, after the start if that is no
node; both are listed as the walk meets them. So nothing is reported exactly if the start and all
slots hold nodes where they hold anything. The predecessors of a node are those that an edge leads
from, and those of any other name are the nodes that are reported for it; they are listed as they
stand in the graph, each once. -/
theorem survey_accounts_for_slots (hu : g.Unique) :
    (∀ r, r ∈ g.references ↔
      ∃ n ∈ g.nodes, n.id = r.source ∧ n.outputs[r.slot]? = some (some r.target)) ∧
    g.references.Pairwise (fun r s => g.Before (r.source, r.slot) (s.source, s.slot)) ∧
    g.edges = (g.references.filter (·.target ∈ g)).map (fun r => (r.source, r.target)) ∧
    g.issues = (g.start.toList.filter (· ∉ g)).map .unknownStart ++
      (g.references.filter (·.target ∉ g)).map (fun r => .dangling r.source r.slot r.target) ∧
    (g.issues = [] ↔ (∀ id ∈ g.start, id ∈ g) ∧ ∀ r ∈ g.references, r.target ∈ g) ∧
    ∀ id, (g.predecessors id).Sublist g.ids ∧ (g.predecessors id).Nodup ∧
      ∀ source, source ∈ g.predecessors id ↔
        if id ∈ g then (source, id) ∈ g.edges else ∃ slot, .dangling source slot id ∈ g.issues := by
  refine ⟨fun r => mem_references, pairwise_references hu, edges_eq g, issues_eq hu,
    issues_eq_nil_iff_references hu, fun id => ⟨predecessors_sublist g id,
      hu.sublist (predecessors_sublist g id), fun source => ?_⟩⟩
  rw [mem_predecessors_iff]
  split_ifs with hmem
  · rw [mem_edges_iff, and_iff_right hmem]
  · rw [exists_dangling_slot_iff, and_iff_right hmem]

def maze : Graph where
  start := some ⟨"gate"⟩
  nodes := [{ kind := "note", id := ⟨"a"⟩
              outputs := [none, some ⟨"b"⟩, some ⟨"pit"⟩, some ⟨"b"⟩] },
    { kind := "note", id := ⟨"b"⟩, outputs := [some ⟨"pit"⟩, none, some ⟨"b"⟩] }]

theorem survey_accounts_for_slots_maze : maze.Unique ∧
    maze.references = [⟨⟨"a"⟩, 1, ⟨"b"⟩⟩, ⟨⟨"a"⟩, 2, ⟨"pit"⟩⟩, ⟨⟨"a"⟩, 3, ⟨"b"⟩⟩,
      ⟨⟨"b"⟩, 0, ⟨"pit"⟩⟩, ⟨⟨"b"⟩, 2, ⟨"b"⟩⟩] ∧
    maze.edges = [(⟨"a"⟩, ⟨"b"⟩), (⟨"a"⟩, ⟨"b"⟩), (⟨"b"⟩, ⟨"b"⟩)] ∧
    maze.issues = [.unknownStart ⟨"gate"⟩, .dangling ⟨"a"⟩ 2 ⟨"pit"⟩, .dangling ⟨"b"⟩ 0 ⟨"pit"⟩] ∧
    maze.predecessors ⟨"pit"⟩ = [⟨"a"⟩, ⟨"b"⟩] := by
  have hu : maze.Unique := by decide
  obtain ⟨-, -, hedges, hissues, -⟩ := survey_accounts_for_slots hu
  exact ⟨hu, rfl, hedges.trans rfl, hissues.trans rfl, rfl⟩

end Graph

end StoryGraph
