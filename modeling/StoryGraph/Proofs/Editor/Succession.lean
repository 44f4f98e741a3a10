import StoryGraph.Proofs.Editor.Positions

/-!
# Views of one graph after another

A view is built of a graph and brought up to date with one graph after another, each with nodes of
its own. It shows what the last of them has. Only where a box is depends on the others: it stays where
it was as long as its node is there, so it is where the node was in the first graph of the unbroken
series that ends with the last one (`Graph.unbroken`). A node that was gone for a while is new when
it comes back.
-/

namespace StoryGraph

variable {β : Type} {kinds : Registry β} {g : Graph} {graphs : List Graph} {id : NodeId}

namespace Graph

theorem isSome_spot?_iff : (g.spot? id).isSome ↔ id ∈ g := by
  rw [spot?, Option.isSome_map, node?_isSome_iff]

theorem exists_of_spot? {position : Position} (h : g.spot? id = some position) :
    ∃ n ∈ g.nodes, n.id = id ∧ position = n.position := by
  obtain ⟨n, hn, rfl⟩ := Option.map_eq_some_iff.1 h
  exact ⟨n, List.mem_of_find?_eq_some hn, by simpa using List.find?_some hn, rfl⟩

/-- The places in a series of graphs from which on all of them have a node of some name. -/
def unbroken (graphs : List Graph) (id : NodeId) : Set Nat :=
  {j | j < graphs.length ∧ ∀ g ∈ graphs.drop j, id ∈ g}

theorem unbroken_nil (id : NodeId) : unbroken [] id = ∅ :=
  Set.eq_empty_of_forall_notMem fun _ hj => Nat.not_lt_zero _ hj.1

theorem unbroken_append_singleton (graphs : List Graph) (hmem : id ∈ g) :
    unbroken (graphs ++ [g]) id = insert graphs.length (unbroken graphs id) := by
  ext j
  change j < (graphs ++ [g]).length ∧ _ ↔ j = graphs.length ∨ j < graphs.length ∧ _
  rw [List.length_append, List.length_singleton]
  rcases Nat.lt_trichotomy j graphs.length with hlt | rfl | hgt
  · rw [List.drop_append_of_le_length hlt.le, List.forall_mem_append, List.forall_mem_singleton,
      and_iff_left hmem, and_iff_right hlt, and_iff_right (Nat.lt_succ_of_lt hlt),
      or_iff_right hlt.ne]
  · simp [hmem]
  · omega

theorem mem_of_unbroken {j : Nat} (hj : j ∈ unbroken graphs id) (hg : graphs[j]? = some g) :
    id ∈ g := by
  apply hj.2 g
  rw [← Nat.add_zero j, ← List.getElem?_drop] at hg
  exact List.mem_of_getElem? hg

theorem unbroken_append_singleton_of_not_mem (graphs : List Graph) (hmem : id ∉ g) :
    unbroken (graphs ++ [g]) id = ∅ := by
  refine Set.eq_empty_of_forall_notMem fun j hj => hmem (hj.2 g ?_)
  have hle : j ≤ graphs.length := by
    have hlt := hj.1
    rw [List.length_append, List.length_singleton] at hlt
    omega
  rw [List.drop_append_of_le_length hle]
  exact List.mem_append_right _ (List.mem_singleton_self g)

end Graph

namespace View

/-- The view that is built of the first graph and brought up to date with the others. -/
def follow (kinds : Registry β) (graphs : List Graph) : View :=
  graphs.foldl (fun v g => v.sync kinds g) {}

theorem follow_append_singleton (kinds : Registry β) (graphs : List Graph) (g : Graph) :
    follow kinds (graphs ++ [g]) = (follow kinds graphs).sync kinds g := by
  rw [follow, List.foldl_append]
  rfl

theorem spot?_sync_eq (v : View) (kinds : Registry β) (g : Graph) (id : NodeId) :
    (v.sync kinds g).spot? id = (g.spot? id).map fun position => (v.spot? id).getD position := by
  rw [spot?, sync_eq_build, node?_build, Graph.node?_overlay, Graph.spot?]
  cases hn : g.node? id with
  | none => rfl
  | some n =>
      have hid : n.id = id := by simpa using List.find?_some hn
      rw [← hid, spot?]
      simp only [Option.map_some, ViewNode.ofNode, reposition]
      cases v.node? n.id <;> rfl

/-- A box is where its node was at the start of the last series of graphs that have it. -/
theorem spot?_follow (kinds : Registry β) (graphs : List Graph) (id : NodeId) :
    Graph.unbroken graphs id = ∅ ∧ (follow kinds graphs).spot? id = none ∨
      ∃ j g, IsLeast (Graph.unbroken graphs id) j ∧ graphs[j]? = some g ∧
        (follow kinds graphs).spot? id = g.spot? id := by
  induction graphs using List.reverseRecOn with
  | nil => exact .inl ⟨Graph.unbroken_nil id, rfl⟩
  | append_singleton graphs g ih =>
      rw [follow_append_singleton, spot?_sync_eq]
      by_cases hmem : id ∈ g
      · right
        rw [Graph.unbroken_append_singleton graphs hmem]
        rcases ih with ⟨hempty, hnone⟩ | ⟨j, h, hleast, hj, hspot⟩
        · -- the series starts with this graph
          refine ⟨graphs.length, g, ?_, List.getElem?_concat_length .., ?_⟩
          · rw [hempty, insert_empty_eq]
            exact isLeast_singleton
          · simp [hnone]
        · -- the series has started before
          have hlt : j < graphs.length := hleast.1.1
          refine ⟨j, h, ⟨Set.mem_insert_of_mem _ hleast.1, ?_⟩, ?_, ?_⟩
          · rintro k (rfl | hk)
            · exact hlt.le
            · exact hleast.2 hk
          · rw [List.getElem?_append_left hlt, hj]
          · obtain ⟨p, hp⟩ := Option.isSome_iff_exists.1
              (Graph.isSome_spot?_iff.2 (Graph.mem_of_unbroken hleast.1 hj))
            obtain ⟨q, hq⟩ := Option.isSome_iff_exists.1 (Graph.isSome_spot?_iff.2 hmem)
            rw [hspot, hp, hq]
            rfl
      · refine .inl ⟨Graph.unbroken_append_singleton_of_not_mem graphs hmem, ?_⟩
        rw [← Graph.isSome_spot?_iff, Option.not_isSome_iff_eq_none] at hmem
        rw [hmem, Option.map_none]

theorem ids_sync (v : View) (kinds : Registry β) (g : Graph) :
    (v.sync kinds g).nodes.map ViewNode.id = g.ids := by
  rw [sync_eq_build, ids_build, Graph.ids_overlay]

/-- Apart from where the boxes are, a view shows its last graph and nothing else. -/
theorem forall₂_sync_build (v : View) (kinds : Registry β) (g : Graph) :
    List.Forall₂ (fun box fresh => box = { fresh with position := box.position })
      (v.sync kinds g).nodes (build kinds g).nodes := by
  rw [nodes_build, sync, List.forall₂_map_left_iff, List.forall₂_map_right_iff]
  exact List.forall₂_same.2 fun _ _ => rfl

theorem sync_sync (v : View) (kinds : Registry β) (hu : g.Unique) :
    (v.sync kinds g).sync kinds g = v.sync kinds g := by
  rw [sync_eq_build v, sync_eq_build, Graph.overlay_build_overlay hu]

theorem spot?_eq_of_mem {v : View} (hv : (v.nodes.map ViewNode.id).Nodup) {box : ViewNode}
    (hbox : box ∈ v.nodes) : v.spot? box.id = some box.position := by
  rw [spot?, node?, (find?_eq_some_iff_mem hv).2 ⟨hbox, rfl⟩]
  rfl

/-- A view is built of a graph and brought up to date with others. It has the boxes, edges and start
of the view that is built of the last one, in the same order, with the same titles, kinds and
colours. A box is where its node is in the first of the graphs from which on all have the node. To
bring the view up to date once more changes nothing. -/
theorem follow_remembers_positions (kinds : Registry β) (first : Graph) (rest : List Graph)
    (hu : ∀ g ∈ first :: rest, g.Unique) :
    let graphs := first :: rest
    let last := graphs.getLast (List.cons_ne_nil first rest)
    let v := rest.foldl (fun v g => v.sync kinds g) (build kinds first)
    List.Forall₂ (fun box fresh => box = { fresh with position := box.position })
        v.nodes (build kinds last).nodes ∧
      v.edges = (build kinds last).edges ∧ v.start = (build kinds last).start ∧
      (∀ box ∈ v.nodes, ∃ j g n, IsLeast (Graph.unbroken graphs box.id) j ∧
        graphs[j]? = some g ∧ n ∈ g.nodes ∧ n.id = box.id ∧ box.position = n.position) ∧
      v.sync kinds last = v := by
  intro graphs last v
  have hlast : last.Unique := hu last (List.getLast_mem _)
  have hv : v = (follow kinds graphs.dropLast).sync kinds last := by
    rw [← follow_append_singleton, List.dropLast_append_getLast]
    rfl
  have hids : (v.nodes.map ViewNode.id).Nodup := by
    rw [hv, ids_sync]
    exact hlast
  refine ⟨?_, ?_, ?_, fun box hbox => ?_, ?_⟩
  · rw [hv]
    exact forall₂_sync_build _ kinds last
  · rw [hv]
    rfl
  · rw [hv]
    rfl
  · have hspot : (follow kinds graphs).spot? box.id = some box.position :=
      spot?_eq_of_mem hids hbox
    rcases spot?_follow kinds graphs box.id with ⟨-, hnone⟩ | ⟨j, g, hleast, hj, heq⟩
    · rw [hspot] at hnone
      cases hnone
    · obtain ⟨n, hn, hid, hposition⟩ := Graph.exists_of_spot? (heq.symm.trans hspot)
      exact ⟨j, g, n, hleast, hj, hn, hid, hposition⟩
  · rw [hv, sync_sync _ kinds hlast]

def standing (id : String) (x : Int) : Node :=
  { kind := "note", id := ⟨id⟩, position := ⟨.ofInt .single x, .zero false⟩ }

def outings : List Graph :=
  [{ nodes := [standing "b" 2] }, { nodes := [standing "a" 3, standing "b" 3] },
    { nodes := [standing "b" 4, standing "a" 4, standing "c" 4] }]

theorem follow_remembers_positions_outings :
    let kinds : Registry Unit := {}
    let first : Graph := { nodes := [standing "a" 1, standing "b" 1] }
    let v := outings.foldl (fun v g => v.sync kinds g) (build kinds first)
    (∀ g ∈ first :: outings, g.Unique) ∧
      v.nodes.map (fun box => (box.id.text, box.position.x)) =
        [("b", .ofInt .single 1), ("a", .ofInt .single 3), ("c", .ofInt .single 4)] ∧
      v.sync kinds { nodes := [standing "b" 4, standing "a" 4, standing "c" 4] } = v := by
  intro kinds first v
  have hu : ∀ g ∈ first :: outings, g.Unique := by decide
  obtain ⟨-, -, -, -, hagain⟩ := follow_remembers_positions kinds first outings hu
  exact ⟨hu, rfl, hagain⟩

end View

end StoryGraph
