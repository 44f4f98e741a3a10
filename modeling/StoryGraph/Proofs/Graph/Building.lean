import StoryGraph.Proofs.Graph.Asset
import StoryGraph.Proofs.Json.Depth

/-!
# Graphs that can be built

A graph starts empty or as a document that was read, and it is changed by one call after the other;
the nodes that are put in were built by setting one part after the other. No call touches the name
or the properties of a node, so all nodes have different names and properties that are values. Such
a graph comes back from its own document unless it holds one of the few things that a document
cannot express.
-/

namespace StoryGraph

open Json (Value)

/-! ### Nodes -/

namespace Node

inductive Built : Node → Prop
  | ofKind (kind : String) (bits : BitVec 122) : Built (.ofKind kind bits)
  | withId {n : Node} (built : Built n) (id : NodeId) : Built (n.withId id)
  | withTitle {n : Node} (built : Built n) (title : String) : Built (n.withTitle title)
  | withPosition {n : Node} (built : Built n) (position : Position) :
      Built (n.withPosition position)
  | withOutput {n : Node} (built : Built n) (target : NodeId) : Built (n.withOutput target)
  | withEmptyOutput {n : Node} (built : Built n) : Built n.withEmptyOutput
  | withProperty {n : Node} (built : Built n) (name : String) {value : Value}
      (ordered : value.Ordered) : Built (n.withProperty name value)

variable {n : Node}

theorem Built.withOutputs (hn : n.Built) (outputs : List (Option NodeId)) :
    Built { n with outputs := n.outputs ++ outputs } := by
  induction outputs generalizing n with
  | nil =>
      rw [List.append_nil]
      exact hn
  | cons slot outputs ih =>
      have hslot : Built { n with outputs := n.outputs ++ [slot] } := by
        cases slot with
        | none => exact hn.withEmptyOutput
        | some target => exact hn.withOutput target
      have hrest := ih hslot
      rw [List.append_assoc] at hrest
      exact hrest

theorem Built.withProperties (hn : n.Built) {l : List (String × Value)}
    (hl : ∀ m ∈ l, m.2.Ordered) :
    Built { n with properties := l.foldl (fun t m => t.insert m.1 m.2) n.properties } := by
  induction l generalizing n with
  | nil => exact hn
  | cons m l ih =>
      obtain ⟨hm, hl⟩ := List.forall_mem_cons.1 hl
      exact ih (hn.withProperty m.1 hm) hl

/-- Every node whose properties are values can be built. -/
theorem built_iff : n.Built ↔ ∀ m ∈ n.properties.toList, m.2.Ordered := by
  constructor
  · intro hn
    induction hn with
    | ofKind => exact fun m hm => absurd hm List.not_mem_nil
    | withProperty _ name hvalue ih =>
        intro m hm
        rcases mem_upsert hm with rfl | hm
        · exact hvalue
        · exact ih m hm
    | _ => assumption
  · intro h
    have hbare : Built { Node.ofKind n.kind 0 with
        id := n.id, title := n.title, position := n.position } :=
      (((Built.ofKind n.kind 0).withId n.id).withTitle n.title).withPosition n.position
    have hbuilt := (hbare.withOutputs n.outputs).withProperties h
    have hproperties : n.properties.toList.foldl (fun t m => t.insert m.1 m.2) ∅ = n.properties :=
      Table.ofList_toList n.properties
    have heq : Node.mk n.kind n.id n.title n.position n.outputs
        (n.properties.toList.foldl (fun t m => t.insert m.1 m.2) ∅) = n := by
      rw [hproperties]
    exact heq ▸ hbuilt

def stock (n : Node) : NodeId × Table Value := (n.id, n.properties)

theorem Built.of_properties {m : Node} (hn : n.Built) (h : m.properties = n.properties) :
    m.Built := by
  rw [built_iff, h]
  exact built_iff.1 hn

end Node

/-! ### Graphs -/

namespace Graph

inductive Change where
  | addNode (n : Node)
  | insertNode (place : Nat) (n : Node)
  | removeNode (id : NodeId)
  | restoreNode (removed : RemovedNode)
  | link (source target : NodeId)
  | unlink (source target : NodeId)
  | relinkAt (source target : NodeId) (slots : List Nat)
  | popLink (source target : NodeId)
  | setStart (id : NodeId)
  | clearStart
  | setPosition (id : NodeId) (position : Position)
  | setTitle (id : NodeId) (title : String)

namespace Change

def perform (g : Graph) : Change → Except DataError Graph
  | addNode n => g.addNode n
  | insertNode place n => g.insertNode place n
  | removeNode id => .ok ((g.removeNode id).elim g Prod.snd)
  | restoreNode removed => g.restoreNode removed
  | link source target => (g.link source target).map Prod.snd
  | unlink source target => (g.unlink source target).map Prod.snd
  | relinkAt source target slots => g.relinkAt source target slots
  | popLink source target => (g.popLink source target).map Prod.snd
  | setStart id => g.setStart id
  | clearStart => .ok g.clearStart
  | setPosition id position => g.setPosition id position
  | setTitle id title => g.setTitle id title

/-- The graph after the call. One that is refused changes nothing. -/
def after (g : Graph) (c : Change) : Graph :=
  match c.perform g with
  | .ok g' => g'
  | .error _ => g

def node? : Change → Option Node
  | addNode n => some n
  | insertNode _ n => some n
  | restoreNode removed => some removed.node
  | _ => none

end Change

/-- The graphs that can be built. -/
inductive Built : Graph → Prop
  | empty : Built {}
  | read {text : String} {g : Graph} (read : Graph.read text = .ok g) : Built g
  | change {g : Graph} (built : Built g) {c : Change} (node : ∀ n ∈ c.node?, n.Built) :
      Built (c.after g)

def stock (g : Graph) : List (NodeId × Table Value) := g.nodes.map Node.stock

variable {g g' : Graph} {id : NodeId} {n : Node}

theorem ids_eq_map_stock (g : Graph) : g.ids = g.stock.map Prod.fst := by
  rw [stock, List.map_map]
  rfl

namespace Change

variable {c : Change}

/-- Only the node that a call puts in is new, and so is its name. -/
theorem stock_of_perform (h : c.perform g = .ok g') :
    g'.stock.Subperm (c.node?.toList.map Node.stock ++ g.stock) ∧ ∀ n ∈ c.node?, n.id ∉ g := by
  have hsame : g'.stock = g.stock → c.node? = none →
      g'.stock.Subperm (c.node?.toList.map Node.stock ++ g.stock) ∧ ∀ n ∈ c.node?, n.id ∉ g := by
    intro hstock hnone
    rw [hstock, hnone]
    exact ⟨List.Subperm.refl _, by simp⟩
  have hnew : ∀ n, c.node? = some n → g'.stock.Perm (n.stock :: g.stock) → n.id ∉ g →
      g'.stock.Subperm (c.node?.toList.map Node.stock ++ g.stock) ∧ ∀ n ∈ c.node?, n.id ∉ g := by
    intro n hn hperm hid
    rw [hn]
    exact ⟨hperm.subperm, by simpa using hid⟩
  cases c with
  | addNode n =>
      exact hnew n rfl ((nodes_perm_of_insertNode h).map Node.stock) (insertNode_eq_ok_iff.1 h).1
  | insertNode place n =>
      exact hnew n rfl ((nodes_perm_of_insertNode h).map Node.stock) (insertNode_eq_ok_iff.1 h).1
  | restoreNode removed =>
      exact hnew removed.node rfl (map_perm_of_restoreNode (fun _ _ => rfl) h)
        (exists_restoreNode_iff.1 ⟨g', h⟩)
  | removeNode id =>
      refine ⟨?_, by simp [node?]⟩
      obtain rfl := Except.ok.inj h
      cases hr : g.removeNode id with
      | none => exact List.Subperm.refl _
      | some r => exact (map_sublist_of_removeNode (fun _ _ => rfl) hr).subperm
  | link source target =>
      obtain ⟨isNew, hlink⟩ := exists_of_map_snd h
      exact hsame (map_of_link (fun _ _ => rfl) hlink) rfl
  | unlink source target =>
      obtain ⟨slots, hunlink⟩ := exists_of_map_snd h
      exact hsame (map_of_unlink (fun _ _ => rfl) hunlink) rfl
  | popLink source target =>
      obtain ⟨held, hpop⟩ := exists_of_map_snd h
      exact hsame (map_of_popLink (fun _ _ => rfl) hpop) rfl
  | relinkAt source target slots => exact hsame (map_of_modify? h fun _ => rfl) rfl
  | setStart id =>
      obtain ⟨-, rfl⟩ := setStart_eq_ok_iff.1 h
      exact hsame rfl rfl
  | clearStart =>
      obtain rfl := Except.ok.inj h
      exact hsame rfl rfl
  | setPosition id position => exact hsame (map_of_modify? h fun _ => rfl) rfl
  | setTitle id title => exact hsame (map_of_modify? h fun _ => rfl) rfl

/-- After a call the graph has the nodes that it had, apart from what is no stock, and the one that
the call puts in if its name is new. -/
theorem stock_after (g : Graph) (c : Change) :
    (c.after g).stock.Subperm g.stock ∨
      ∃ n, c.node? = some n ∧ n.id ∉ g ∧ (c.after g).stock.Subperm (n.stock :: g.stock) := by
  unfold after
  cases h : c.perform g with
  | error e => exact .inl (List.Subperm.refl _)
  | ok g' =>
      obtain ⟨hstock, hid⟩ := stock_of_perform h
      cases hn : c.node? with
      | none =>
          rw [hn] at hstock
          exact .inl hstock
      | some n =>
          rw [hn] at hstock
          exact .inr ⟨n, rfl, hid n hn, hstock⟩

theorem nodup_map_of_subperm {α β : Type _} {l l' : List α} (f : α → β) (h : l.Subperm l')
    (hl : (l'.map f).Nodup) : (l.map f).Nodup := by
  obtain ⟨k, hk, hs⟩ := h
  exact (hk.map f).nodup_iff.1 ((hs.map f).nodup hl)

theorem unique_after (hu : g.Unique) (c : Change) : (c.after g).Unique := by
  rw [Unique, ids_eq_map_stock] at hu ⊢
  rcases stock_after g c with h | ⟨n, -, hid, h⟩
  · exact nodup_map_of_subperm Prod.fst h hu
  · refine nodup_map_of_subperm Prod.fst h (List.nodup_cons.2 ⟨?_, hu⟩)
    rw [← ids_eq_map_stock]
    exact hid

theorem built_after (hg : ∀ n ∈ g.nodes, n.Built) (hc : ∀ n ∈ c.node?, n.Built) :
    ∀ n ∈ (c.after g).nodes, n.Built := by
  have hold : ∀ e ∈ g.stock, ∃ n : Node, n.Built ∧ n.stock = e :=
    List.forall_mem_map.2 fun n hn => ⟨n, hg n hn, rfl⟩
  intro m hm
  have hstock : m.stock ∈ (c.after g).stock := List.mem_map_of_mem hm
  suffices ∃ n : Node, n.Built ∧ n.stock = m.stock by
    obtain ⟨n, hn, heq⟩ := this
    exact hn.of_properties (Prod.mk.inj heq).2.symm
  rcases stock_after g c with h | ⟨n, hn, -, h⟩
  · exact hold _ (h.subset hstock)
  · rcases List.mem_cons.1 (h.subset hstock) with heq | hmem
    · exact ⟨n, hc n hn, heq.symm⟩
    · exact hold _ hmem

end Change

/-! ### What a document expresses -/

namespace Built

theorem unique (hg : g.Built) : g.Unique := by
  induction hg with
  | empty => exact List.nodup_nil
  | read hread => exact (plain_of_read hread).unique
  | change _ _ ih => exact Change.unique_after ih _

theorem nodes (hg : g.Built) : ∀ n ∈ g.nodes, n.Built := by
  induction hg with
  | empty => exact fun n hn => absurd hn List.not_mem_nil
  | read hread =>
      exact fun n hn => Node.built_iff.2 fun m hm =>
        (((plain_of_read hread).nodes n hn).fits m hm).ordered
  | change _ hc ih => exact Change.built_after ih hc

end Built

end Graph

theorem Position.depth_toTree_le (p : Position) (k : Nat) : p.toTree.depth ≤ k + 1 := by
  have hcoordinate : ∀ x, (coordinateTree x).depth ≤ k := by
    intro x
    rw [coordinateTree]
    split_ifs <;> exact Nat.zero_le k
  rw [toTree, Json.Tree.depth_object_le_iff]
  simp only [List.forall_mem_cons, List.not_mem_nil, false_implies, implies_true, and_true]
  exact ⟨hcoordinate p.x, hcoordinate p.y⟩

theorem Node.depth_toTree_le_iff {n : Node} {k : Nat} : n.toTree.depth ≤ k + 2 ↔
    ∀ m ∈ n.properties.toList, m.2.toTree.depth ≤ k + 1 := by
  have houtputs : (Json.Tree.array (n.outputs.map NodeId.slotTree)).depth ≤ k + 1 :=
    Json.Tree.depth_array_le_iff.2 (List.forall_mem_map.2 fun _ _ => Nat.zero_le k)
  rw [toTree, Json.Tree.depth_object_le_iff, List.forall_mem_append, List.forall_mem_map]
  refine and_iff_right ?_
  simp only [List.forall_mem_cons, List.not_mem_nil, false_implies, implies_true, and_true]
  exact ⟨Nat.zero_le _, Nat.zero_le _, Nat.zero_le _, n.position.depth_toTree_le k, houtputs⟩

namespace Graph

variable {g : Graph}

/-- A document is as deep as the values of the properties and the containers around them. -/
theorem depth_toTree_le_iff {k : Nat} : g.toTree.depth ≤ k + 4 ↔
    ∀ n ∈ g.nodes, ∀ m ∈ n.properties.toList, m.2.toTree.depth ≤ k + 1 := by
  rw [toTree, Json.Tree.depth_object_le_iff]
  simp only [List.forall_mem_cons, List.not_mem_nil, false_implies, implies_true, and_true]
  rw [Json.Tree.depth_array_le_iff, List.forall_mem_map]
  simp only [Node.depth_toTree_le_iff]
  exact and_iff_right (Nat.zero_le _)

/-- A graph that was built comes back from its own document exactly if the document can express it:
no slot and no start holds the empty name, all positions are finite, no property is named like a
field of a node, and the document nests no deeper than readers go. It is assumed that its numbers are
read as they were written. -/
theorem Built.reread_iff (hg : g.Built) (hnumbers : g.ReadsBack) :
    Graph.read g.write = .ok g ↔
      g.start ≠ some ⟨""⟩ ∧ (∀ n ∈ g.nodes, some ⟨""⟩ ∉ n.outputs) ∧
        (∀ n ∈ g.nodes, n.position.IsFinite) ∧
        (∀ n ∈ g.nodes, ∀ m ∈ n.properties.toList, m.1 ∉ Node.fieldNames) ∧
        g.toTree.depth ≤ Json.depthLimit := by
  have hdepth : g.toTree.depth ≤ Json.depthLimit ↔ ∀ n ∈ g.nodes, ∀ m ∈ n.properties.toList,
      m.2.Fits (Json.depthLimit - 3) := by
    rw [show Json.depthLimit = 123 + 4 from rfl, depth_toTree_le_iff]
    exact forall₂_congr fun n hn => forall₂_congr fun m hm =>
      (Node.built_iff.1 (hg.nodes n hn) m hm).fits_iff.symm
  rw [hnumbers.read_write_iff, hdepth]
  constructor
  · rintro ⟨hfinite, -, hstart, hplain⟩
    exact ⟨hstart, fun n hn => (hplain n hn).outputs, hfinite, fun n hn => (hplain n hn).names,
      fun n hn => (hplain n hn).fits⟩
  · rintro ⟨hstart, houtputs, hfinite, hnames, hfits⟩
    exact ⟨hfinite, hg.unique, hstart, fun n hn => ⟨houtputs n hn, hnames n hn, hfits n hn⟩⟩

def watch : Value :=
  .object [("from", .array [.number (.whole (-7) (by decide)), .null, .object []]),
    ("to", .number (.real ⟨false, 0x3fb999999999999a, by decide⟩ (by decide)))]

theorem ordered_watch : watch.Ordered := by
  have hnames : ["from", "to"].Pairwise (· < ·) := by decide
  refine .object (List.pairwise_map.1 hnames) ?_
  simp only [List.forall_mem_cons, List.not_mem_nil, false_implies, implies_true, and_true]
  refine ⟨.array ?_, .number _⟩
  simp only [List.forall_mem_cons, List.not_mem_nil, false_implies, implies_true, and_true]
  exact ⟨.number _, .null, .object List.Pairwise.nil fun m hm => absurd hm List.not_mem_nil⟩

theorem readsBack_watch : watch.ReadsBack := by
  have hreal : Json.Number.ReadsBack
      (.real ⟨false, 0x3fb999999999999a, by decide⟩ (by decide)) := by
    rw [Json.Number.ReadsBack]
    decide +kernel
  refine .object ?_
  simp only [List.forall_mem_cons, List.not_mem_nil, false_implies, implies_true, and_true]
  refine ⟨.array ?_, .number hreal⟩
  simp only [List.forall_mem_cons, List.not_mem_nil, false_implies, implies_true, and_true]
  exact ⟨.number (Json.Number.readsBack_whole (by decide)), .null,
    .object fun m hm => absurd hm List.not_mem_nil⟩

def tower : Node :=
  ((((((Node.ofKind "quest" 0).withId ⟨"tower"⟩).withTitle "Gate \"B\"\n").withPosition
    ⟨⟨false, 0x3fc00000, by decide⟩, .zero true⟩).withOutput ⟨"tower"⟩).withEmptyOutput.withOutput
      ⟨"nowhere"⟩).withProperty "watch" watch

theorem built_tower : tower.Built :=
  ((((((Node.Built.ofKind "quest" 0).withId _).withTitle _).withPosition _).withOutput _
    ).withEmptyOutput.withOutput _).withProperty "watch" ordered_watch

def towerGraph : Graph := (Change.setStart ⟨"tower"⟩).after ((Change.addNode tower).after {})

theorem built_towerGraph : towerGraph.Built := by
  have hadd : ((Change.addNode tower).after {}).Built := by
    refine .change .empty fun n hn => ?_
    obtain rfl := Option.some.inj hn
    exact built_tower
  exact .change hadd fun n hn => by cases hn

theorem Built.reread_iff_tower : towerGraph.ReadsBack ∧
    Graph.read towerGraph.write = .ok towerGraph := by
  have hnodes : towerGraph.nodes = [tower] := rfl
  have hnumbers : towerGraph.ReadsBack := by
    rw [ReadsBack, hnodes, List.forall_mem_singleton]
    refine ⟨⟨fun _ => by decide +kernel, fun _ => by decide +kernel⟩, ?_⟩
    exact List.forall_mem_singleton.2 readsBack_watch
  refine ⟨hnumbers, (built_towerGraph.reread_iff hnumbers).2
    ⟨by decide, by decide, ?_, by decide, by decide⟩⟩
  rw [hnodes, List.forall_mem_singleton]
  exact ⟨by decide, by decide⟩

end Graph

end StoryGraph
