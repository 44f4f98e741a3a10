import Mathlib
import StoryGraph.Graph.Survey
import StoryGraph.Proofs.Graph.Slots

/-!
# Names of the nodes of a changed graph

Only three changes touch the names of the nodes: a node that is put in has a new name, a node that
is removed takes its name away, and one that is restored brings it back. So the names stay
different.
-/

namespace StoryGraph

theorem insertAt_eraseIdx {α : Type _} {l : List α} {i : Nat} {a : α} (h : l[i]? = some a) :
    insertAt (l.eraseIdx i) i a = l := by
  obtain ⟨hlt, rfl⟩ := List.getElem?_eq_some_iff.1 h
  have hmin : min i (l.eraseIdx i).length = i := by
    rw [List.length_eraseIdx_of_lt hlt]
    omega
  rw [insertAt, hmin, List.insertIdx_eraseIdx_getElem hlt]

theorem map_insertAt {α β : Type _} (f : α → β) (l : List α) (i : Nat) (a : α) :
    (insertAt l i a).map f = insertAt (l.map f) i (f a) := by
  rw [insertAt, insertAt, List.length_map, List.map_insertIdx]

theorem insertAt_perm {α : Type _} (l : List α) (i : Nat) (a : α) :
    (insertAt l i a).Perm (a :: l) :=
  List.perm_insertIdx a l (Nat.min_le_right i l.length)

namespace Graph

variable {g g' : Graph} {id source target : NodeId} {n : Node} {f : Node → Node}

theorem mem_of_ids_eq (h : g'.ids = g.ids) : id ∈ g' ↔ id ∈ g := by
  change id ∈ g'.ids ↔ id ∈ g.ids
  rw [h]

theorem unique_of_ids_eq (h : g'.ids = g.ids) (hu : g.Unique) : g'.Unique := by
  rw [Unique, h]
  exact hu

/-- Where no name is found again, all names are different. -/
theorem repeated_eq_nil_iff {seen ids : List NodeId} :
    repeated seen ids = [] ↔ ids.Nodup ∧ ∀ id ∈ ids, id ∉ seen := by
  induction ids generalizing seen with
  | nil => simp [repeated]
  | cons id ids ih =>
      rw [repeated]
      split_ifs with hseen
      · simp [hseen]
      · rw [ih, List.nodup_cons]
        constructor
        · rintro ⟨hnodup, hnot⟩
          refine ⟨⟨fun hid => hnot id hid List.mem_cons_self, hnodup⟩, ?_⟩
          intro other hother
          rcases List.mem_cons.1 hother with rfl | hother
          · exact hseen
          · exact fun h => hnot other hother (List.mem_cons_of_mem id h)
        · rintro ⟨⟨hid, hnodup⟩, hnot⟩
          refine ⟨hnodup, ?_⟩
          intro other hother h
          rcases List.mem_cons.1 h with rfl | h
          · exact hid hother
          · exact hnot other (List.mem_cons_of_mem id hother) h

theorem unique_iff : g.Unique ↔ repeated [] g.ids = [] := by
  rw [repeated_eq_nil_iff, Unique]
  simp

/-- A graph whose nodes have different names and whose start, if it is set, is one of them. -/
structure Proper (g : Graph) : Prop where
  unique : g.Unique
  start_mem : ∀ id ∈ g.start, id ∈ g

theorem Proper.of_ids_eq (hg : g.Proper) (hids : g'.ids = g.ids) (hstart : g'.start = g.start) :
    g'.Proper := by
  refine ⟨unique_of_ids_eq hids hg.unique, ?_⟩
  intro id hid
  rw [hstart] at hid
  exact (mem_of_ids_eq hids).2 (hg.start_mem id hid)

theorem ids_modify (g : Graph) (id : NodeId) (hf : ∀ n, (f n).id = n.id) :
    (g.modify id f).ids = g.ids :=
  map_modify_eq_map hf g.nodes _

theorem unique_modify (hu : g.Unique) (id : NodeId) (hf : ∀ n, (f n).id = n.id) :
    (g.modify id f).Unique :=
  unique_of_ids_eq (ids_modify g id hf) hu

theorem modify?_eq_ok_iff : g.modify? id f = .ok g' ↔ id ∈ g ∧ g' = g.modify id f := by
  rw [modify?]
  split_ifs with hmem
  · simp [hmem, eq_comm]
  · simp [hmem]

theorem map_of_modify? {α : Type _} {k : Node → α} (h : g.modify? id f = .ok g')
    (hf : ∀ n, k (f n) = k n) : g'.nodes.map k = g.nodes.map k := by
  obtain ⟨-, rfl⟩ := modify?_eq_ok_iff.1 h
  exact map_modify_eq_map hf g.nodes _

theorem ids_of_modify? (h : g.modify? id f = .ok g') (hf : ∀ n, (f n).id = n.id) :
    g'.ids = g.ids :=
  map_of_modify? h hf

/-! ### Edges -/

theorem unlink_eq (hn : g.node? source = some n) (target : NodeId) :
    g.unlink source target = .ok (slotsOf target n.outputs, g.modify source (·.unlink target)) := by
  rw [unlink, hn]

theorem link_of_linksTo (hn : g.node? source = some n) (ht : target ∈ g) (hl : n.LinksTo target) :
    g.link source target = .ok (false, g) := by
  rw [link, if_neg (not_not.2 ht), hn]
  exact if_pos hl

theorem link_of_not_linksTo (hn : g.node? source = some n) (ht : target ∈ g)
    (hl : ¬n.LinksTo target) : g.link source target =
      .ok (true, g.modify source fun n => { n with outputs := n.outputs ++ [some target] }) := by
  rw [link, if_neg (not_not.2 ht), hn]
  exact if_neg hl

theorem popLink_of_getLast? (hn : g.node? source = some n)
    (hl : n.outputs.getLast? = some (some target)) : g.popLink source target =
      .ok (true, g.modify source fun n => { n with outputs := n.outputs.dropLast }) := by
  rw [popLink, hn]
  exact if_pos hl

theorem popLink_of_getLast?_ne (hn : g.node? source = some n)
    (hl : n.outputs.getLast? ≠ some (some target)) : g.popLink source target = .ok (false, g) := by
  rw [popLink, hn]
  exact if_neg hl

/-- A link that is there is left as it is; a new one is set behind the others. -/
theorem exists_of_link {isNew : Bool} (h : g.link source target = .ok (isNew, g')) :
    target ∈ g ∧ ∃ n, g.node? source = some n ∧
      (n.LinksTo target ∧ isNew = false ∧ g' = g ∨
        ¬ n.LinksTo target ∧ isNew = true ∧
          g' = g.modify source fun n => { n with outputs := n.outputs ++ [some target] }) := by
  unfold link at h
  split_ifs at h with hmem
  split at h
  · cases h
  · rename_i n hn
    refine ⟨hmem, n, hn, ?_⟩
    split_ifs at h with hlink <;> obtain ⟨rfl, rfl⟩ := Prod.mk.inj (Except.ok.inj h)
    · exact .inl ⟨hlink, rfl, rfl⟩
    · exact .inr ⟨hlink, rfl, rfl⟩

theorem exists_of_unlink {slots : List Nat} (h : g.unlink source target = .ok (slots, g')) :
    ∃ n, g.node? source = some n ∧ slots = slotsOf target n.outputs ∧
      g' = g.modify source (·.unlink target) := by
  unfold unlink at h
  split at h
  · cases h
  · rename_i n hn
    obtain ⟨rfl, rfl⟩ := Prod.mk.inj (Except.ok.inj h)
    exact ⟨n, hn, rfl, rfl⟩

/-- The last slot is taken back if it holds the target; any other is left. -/
theorem exists_of_popLink {held : Bool} (h : g.popLink source target = .ok (held, g')) :
    ∃ n, g.node? source = some n ∧
      (n.outputs.getLast? = some (some target) ∧ held = true ∧
          g' = g.modify source (fun n => { n with outputs := n.outputs.dropLast }) ∨
        n.outputs.getLast? ≠ some (some target) ∧ held = false ∧ g' = g) := by
  unfold popLink at h
  split at h
  · cases h
  · rename_i n hn
    refine ⟨n, hn, ?_⟩
    split_ifs at h with hlast <;> obtain ⟨rfl, rfl⟩ := Prod.mk.inj (Except.ok.inj h)
    · exact .inl ⟨hlast, rfl, rfl⟩
    · exact .inr ⟨hlast, rfl, rfl⟩

theorem map_of_link {α : Type _} {k : Node → α} (hk : ∀ n outputs, k { n with outputs } = k n)
    {isNew : Bool} (h : g.link source target = .ok (isNew, g')) :
    g'.nodes.map k = g.nodes.map k := by
  obtain ⟨-, -, -, ⟨-, -, rfl⟩ | ⟨-, -, rfl⟩⟩ := exists_of_link h
  · rfl
  · exact map_modify_eq_map (fun n => hk n _) g.nodes _

theorem map_of_unlink {α : Type _} {k : Node → α} (hk : ∀ n outputs, k { n with outputs } = k n)
    {slots : List Nat} (h : g.unlink source target = .ok (slots, g')) :
    g'.nodes.map k = g.nodes.map k := by
  obtain ⟨-, -, -, rfl⟩ := exists_of_unlink h
  exact map_modify_eq_map (fun n => hk n _) g.nodes _

theorem map_of_popLink {α : Type _} {k : Node → α} (hk : ∀ n outputs, k { n with outputs } = k n)
    {held : Bool} (h : g.popLink source target = .ok (held, g')) :
    g'.nodes.map k = g.nodes.map k := by
  obtain ⟨-, -, ⟨-, -, rfl⟩ | ⟨-, -, rfl⟩⟩ := exists_of_popLink h
  · exact map_modify_eq_map (fun n => hk n _) g.nodes _
  · rfl

theorem start_of_link {isNew : Bool} (h : g.link source target = .ok (isNew, g')) :
    g'.start = g.start := by
  obtain ⟨-, -, -, ⟨-, -, rfl⟩ | ⟨-, -, rfl⟩⟩ := exists_of_link h
  · rfl
  · rfl

theorem start_of_unlink {slots : List Nat} (h : g.unlink source target = .ok (slots, g')) :
    g'.start = g.start := by
  obtain ⟨-, -, -, rfl⟩ := exists_of_unlink h
  rfl

theorem start_of_popLink {held : Bool} (h : g.popLink source target = .ok (held, g')) :
    g'.start = g.start := by
  obtain ⟨-, -, ⟨-, -, rfl⟩ | ⟨-, -, rfl⟩⟩ := exists_of_popLink h
  · rfl
  · rfl

theorem exists_link_iff : (∃ r, g.link source target = .ok r) ↔ source ∈ g ∧ target ∈ g := by
  rw [link]
  by_cases ht : target ∈ g
  · have hs : source ∈ g ↔ (g.node? source).isSome := node?_isSome_iff.symm
    rw [if_neg (not_not.2 ht), hs]
    cases g.node? source with
    | none => simp
    | some n => by_cases hl : n.LinksTo target <;> simp [hl, ht]
  · simp [ht]

theorem ids_of_link {isNew : Bool} (h : g.link source target = .ok (isNew, g')) :
    g'.ids = g.ids :=
  map_of_link (fun _ _ => rfl) h

theorem exists_unlink_iff : (∃ r, g.unlink source target = .ok r) ↔ source ∈ g := by
  rw [unlink, ← node?_isSome_iff]
  cases g.node? source with
  | none => simp
  | some n => simp

theorem ids_of_unlink {slots : List Nat} (h : g.unlink source target = .ok (slots, g')) :
    g'.ids = g.ids :=
  map_of_unlink (fun _ _ => rfl) h

theorem exists_popLink_iff : (∃ r, g.popLink source target = .ok r) ↔ source ∈ g := by
  rw [popLink, ← node?_isSome_iff]
  cases g.node? source with
  | none => simp
  | some n => by_cases hl : n.outputs.getLast? = some (some target) <;> simp [hl]

theorem ids_of_popLink {held : Bool} (h : g.popLink source target = .ok (held, g')) :
    g'.ids = g.ids :=
  map_of_popLink (fun _ _ => rfl) h

theorem exists_of_map_snd {ι : Type} {result : Except DataError (ι × Graph)}
    (h : result.map Prod.snd = .ok g') : ∃ a, result = .ok (a, g') := by
  cases result with
  | error e => cases h
  | ok r =>
      obtain rfl := Except.ok.inj h
      exact ⟨r.1, rfl⟩

theorem setStart_eq_ok_iff :
    g.setStart id = .ok g' ↔ id ∈ g ∧ g' = { g with start := some id } := by
  rw [setStart]
  split_ifs with hmem
  · simp [hmem, eq_comm]
  · simp [hmem]

/-! ### Nodes -/

theorem insertNode_eq_ok_iff {place : Nat} : g.insertNode place n = .ok g' ↔
    n.id ∉ g ∧ g' = { g with nodes := insertAt g.nodes place n } := by
  rw [insertNode]
  split_ifs with hmem
  · simp [hmem]
  · simp [hmem, eq_comm]

theorem addNode_eq_ok_iff : g.addNode n = .ok g' ↔
    n.id ∉ g ∧ g' = { g with nodes := g.nodes ++ [n] } := by
  have hlast : insertAt g.nodes g.nodes.length n = g.nodes ++ [n] := by
    simp [insertAt]
  rw [addNode, insertNode_eq_ok_iff, hlast]

theorem nodes_perm_of_insertNode {place : Nat} (h : g.insertNode place n = .ok g') :
    g'.nodes.Perm (n :: g.nodes) := by
  obtain ⟨-, rfl⟩ := insertNode_eq_ok_iff.1 h
  exact insertAt_perm g.nodes place n

theorem ids_perm_of_insertNode {place : Nat} (h : g.insertNode place n = .ok g') :
    g'.ids.Perm (n.id :: g.ids) :=
  (nodes_perm_of_insertNode h).map Node.id

def slotsInto (target : NodeId) (l : List Node) : List (NodeId × Nat) :=
  l.flatMap fun n => (slotsOf target n.outputs).map fun slot => (n.id, slot)

/-- What is taken out of a graph with a node, and what is left. -/
theorem exists_of_removeNode {removed : RemovedNode} (h : g.removeNode id = some (removed, g')) :
    g.nodes[removed.index]? = some removed.node ∧ removed.node.id = id ∧
      removed.incoming = slotsInto id (g.nodes.eraseIdx removed.index) ∧
      removed.wasStart = decide (g.start = some id) ∧
      g' = { start := if g.start = some id then none else g.start
             nodes := (g.nodes.eraseIdx removed.index).map (·.unlink id) } := by
  obtain ⟨index, hindex, h⟩ := Option.bind_eq_some_iff.1 h
  obtain ⟨node, hnode, h⟩ := Option.bind_eq_some_iff.1 h
  obtain ⟨rfl, rfl⟩ := Prod.mk.inj (Option.some.inj h)
  obtain ⟨hlt, hid, -⟩ := List.findIdx?_eq_some_iff_getElem.1 hindex
  obtain ⟨_, rfl⟩ := List.getElem?_eq_some_iff.1 hnode
  refine ⟨hnode, of_decide_eq_true hid, rfl, rfl, ?_⟩
  simp only [decide_eq_true_eq]

theorem exists_removeNode_iff : (∃ r, g.removeNode id = some r) ↔ id ∈ g := by
  constructor
  · rintro ⟨⟨removed, g'⟩, h⟩
    obtain ⟨hnode, hid, -⟩ := exists_of_removeNode h
    exact mem_iff.2 ⟨_, List.mem_of_getElem? hnode, hid⟩
  · intro h
    obtain ⟨index, hindex⟩ := Option.isSome_iff_exists.1 (index?_isSome_iff.2 h)
    obtain ⟨hlt, -⟩ := List.findIdx?_eq_some_iff_getElem.1 hindex
    rw [removeNode, hindex, Option.bind_eq_bind, Option.bind_some,
      List.getElem?_eq_getElem hlt]
    exact ⟨_, rfl⟩

theorem map_sublist_of_removeNode {α : Type _} {k : Node → α}
    (hk : ∀ n outputs, k { n with outputs } = k n) {removed : RemovedNode}
    (h : g.removeNode id = some (removed, g')) : (g'.nodes.map k).Sublist (g.nodes.map k) := by
  obtain ⟨-, -, -, -, rfl⟩ := exists_of_removeNode h
  have hunlink : ((g.nodes.eraseIdx removed.index).map (·.unlink id)).map k =
      (g.nodes.eraseIdx removed.index).map k := by
    rw [List.map_map]
    exact List.map_congr_left fun n _ => hk n _
  rw [hunlink]
  exact (List.eraseIdx_sublist g.nodes removed.index).map k

theorem ids_perm_of_removeNode {removed : RemovedNode} (h : g.removeNode id = some (removed, g')) :
    g.ids.Perm (id :: g'.ids) := by
  obtain ⟨hnode, rfl, -, -, rfl⟩ := exists_of_removeNode h
  have hids : ((g.nodes.eraseIdx removed.index).map (·.unlink removed.node.id)).map Node.id =
      (g.nodes.eraseIdx removed.index).map Node.id := by
    rw [List.map_map]
    rfl
  obtain ⟨hlt, hget⟩ := List.getElem?_eq_some_iff.1 hnode
  have hperm := (List.getElem_cons_eraseIdx_perm hlt).map Node.id
  rw [List.map_cons, hget] at hperm
  rw [ids, ids, hids]
  exact hperm.symm

theorem relink_cons (n : Node) (target : NodeId) (slot : Nat) (slots : List Nat) :
    n.relink target (slot :: slots) = (n.relink target [slot]).relink target slots := rfl

def relinkAll (g : Graph) (target : NodeId) (slots : List (NodeId × Nat)) : Graph :=
  slots.foldl (fun g e => g.modify e.1 (·.relink target [e.2])) g

theorem restoreNode_eq {removed : RemovedNode}
    (h : g.insertNode removed.index removed.node = .ok g') :
    g.restoreNode removed = .ok
      (if removed.wasStart then
        { g'.relinkAll removed.node.id removed.incoming with start := some removed.node.id }
      else g'.relinkAll removed.node.id removed.incoming) := by
  rw [restoreNode, h]
  rfl

theorem map_relinkAll {α : Type _} {k : Node → α}
    (hk : ∀ n outputs, k { n with outputs } = k n) (g : Graph) (target : NodeId)
    (slots : List (NodeId × Nat)) : (g.relinkAll target slots).nodes.map k = g.nodes.map k := by
  induction slots generalizing g with
  | nil => rfl
  | cons e slots ih => exact (ih _).trans (map_modify_eq_map (fun n => hk n _) g.nodes _)

theorem start_relinkAll (g : Graph) (target : NodeId) (slots : List (NodeId × Nat)) :
    (g.relinkAll target slots).start = g.start := by
  unfold relinkAll
  induction slots generalizing g with
  | nil => rfl
  | cons e slots ih =>
      rw [List.foldl_cons, ih]
      rfl

theorem exists_restoreNode_iff {removed : RemovedNode} :
    (∃ g', g.restoreNode removed = .ok g') ↔ removed.node.id ∉ g := by
  constructor
  · rintro ⟨g', h⟩ hmem
    rw [restoreNode, insertNode, if_pos hmem] at h
    cases h
  · intro h
    exact ⟨_, restoreNode_eq (insertNode_eq_ok_iff.2 ⟨h, rfl⟩)⟩

/-- The node is put in, the slots are linked again, and the start is set if it was the node. -/
theorem exists_of_restoreNode {removed : RemovedNode} (h : g.restoreNode removed = .ok g') :
    ∃ g₀, g.insertNode removed.index removed.node = .ok g₀ ∧
      g' = { g₀.relinkAll removed.node.id removed.incoming with
        start := if removed.wasStart then some removed.node.id else g.start } := by
  obtain ⟨g₀, hinsert⟩ : ∃ g₀, g.insertNode removed.index removed.node = .ok g₀ :=
    ⟨_, insertNode_eq_ok_iff.2 ⟨exists_restoreNode_iff.1 ⟨g', h⟩, rfl⟩⟩
  have hstart : (g₀.relinkAll removed.node.id removed.incoming).start = g.start := by
    obtain ⟨-, rfl⟩ := insertNode_eq_ok_iff.1 hinsert
    exact start_relinkAll ..
  rw [restoreNode_eq hinsert] at h
  obtain rfl := Except.ok.inj h
  refine ⟨g₀, hinsert, ?_⟩
  split_ifs
  · rfl
  · rw [← hstart]

theorem start_of_restoreNode {removed : RemovedNode} (h : g.restoreNode removed = .ok g') :
    g'.start = if removed.wasStart then some removed.node.id else g.start := by
  obtain ⟨-, -, rfl⟩ := exists_of_restoreNode h
  rfl

theorem map_perm_of_restoreNode {α : Type _} {k : Node → α}
    (hk : ∀ n outputs, k { n with outputs } = k n) {removed : RemovedNode}
    (h : g.restoreNode removed = .ok g') :
    (g'.nodes.map k).Perm (k removed.node :: g.nodes.map k) := by
  obtain ⟨g₀, hinsert, rfl⟩ := exists_of_restoreNode h
  change ((g₀.relinkAll removed.node.id removed.incoming).nodes.map k).Perm _
  rw [map_relinkAll hk]
  exact (nodes_perm_of_insertNode hinsert).map k

theorem ids_perm_of_restoreNode {removed : RemovedNode} (h : g.restoreNode removed = .ok g') :
    g'.ids.Perm (removed.node.id :: g.ids) :=
  map_perm_of_restoreNode (fun _ _ => rfl) h

end Graph

end StoryGraph
