import Mathlib
import StoryGraph.Proofs.Graph.Names

/-!
# What changes can make of the names and the start of a graph

The nodes keep different names. A start is a node, or it is the one that the graph had missed before
all changes: setting a start takes a node, and a node that is removed is the start no more.
-/

namespace StoryGraph

variable {asset g g' : Graph} {id : NodeId} {n : Node}

namespace Graph

def names (g : Graph) : Set NodeId := {id | id ∈ g}

theorem names_of_ids_eq (h : g'.ids = g.ids) : g'.names = g.names :=
  Set.ext fun _ => mem_of_ids_eq h

theorem names_of_perm (h : g'.ids.Perm (id :: g.ids)) : g'.names = insert id g.names := by
  ext other
  exact h.mem_iff.trans List.mem_cons

theorem not_mem_of_perm (hu : g'.Unique) (h : g'.ids.Perm (id :: g.ids)) : id ∉ g :=
  (List.nodup_cons.1 (h.nodup_iff.1 hu)).1

def Misses (g : Graph) (id : NodeId) : Prop := g.start = some id ∧ id ∉ g

/-- What an asset can be edited to: the nodes have different names, and the start, if it is set, is
one of them or was missed by the asset already. -/
structure Anchored (asset g : Graph) : Prop where
  unique : g.Unique
  start : ∀ id ∈ g.start, id ∈ g ∨ asset.Misses id

theorem anchored_self (hu : asset.Unique) : asset.Anchored asset := by
  refine ⟨hu, ?_⟩
  intro id hid
  by_cases hmem : id ∈ asset
  · exact .inl hmem
  · exact .inr ⟨hid, hmem⟩

namespace Anchored

theorem of_ids_eq (hg : asset.Anchored g) (hids : g'.ids = g.ids) (hstart : g'.start = g.start) :
    asset.Anchored g' := by
  refine ⟨unique_of_ids_eq hids hg.unique, ?_⟩
  intro id hid
  rw [hstart] at hid
  rcases hg.start id hid with hmem | hmiss
  · exact .inl ((mem_of_ids_eq hids).2 hmem)
  · exact .inr hmiss

/-- A node is put in, and may become the start. -/
theorem of_perm (hg : asset.Anchored g) (hnew : id ∉ g) (hperm : g'.ids.Perm (id :: g.ids))
    (hstart : g'.start = some id ∨ g'.start = g.start) : asset.Anchored g' := by
  refine ⟨hperm.nodup_iff.2 (List.nodup_cons.2 ⟨hnew, hg.unique⟩), ?_⟩
  intro other hother
  rcases hstart with hstart | hstart
  · obtain rfl := Option.some.inj (hstart.symm.trans hother)
    exact .inl (hperm.mem_iff.2 List.mem_cons_self)
  · rw [hstart] at hother
    rcases hg.start other hother with hmem | hmiss
    · exact .inl (hperm.mem_iff.2 (List.mem_cons_of_mem id hmem))
    · exact .inr hmiss

theorem setStart (hg : asset.Anchored g) (h : g.setStart id = .ok g') : asset.Anchored g' := by
  obtain ⟨hmem, rfl⟩ := setStart_eq_ok_iff.1 h
  refine ⟨hg.unique, ?_⟩
  intro other hother
  obtain rfl := Option.some.inj hother
  exact .inl hmem

theorem removeNode (hg : asset.Anchored g) {removed : RemovedNode}
    (h : g.removeNode id = some (removed, g')) : asset.Anchored g' := by
  have hperm := ids_perm_of_removeNode h
  obtain ⟨-, -, -, -, hg'⟩ := exists_of_removeNode h
  refine ⟨(List.nodup_cons.1 (hperm.nodup_iff.1 hg.unique)).2, ?_⟩
  intro other hother
  rw [hg'] at hother
  by_cases hstart : g.start = some id
  · rw [if_pos hstart] at hother
    cases hother
  · rw [if_neg hstart] at hother
    rcases hg.start other hother with hmem | hmiss
    · rcases List.mem_cons.1 (hperm.mem_iff.1 hmem) with rfl | hmem
      · exact absurd hother hstart
      · exact .inl hmem
    · exact .inr hmiss

theorem insertNode (hg : asset.Anchored g) {place : Nat} (h : g.insertNode place n = .ok g') :
    asset.Anchored g' := by
  have hperm := ids_perm_of_insertNode h
  obtain ⟨hnew, rfl⟩ := insertNode_eq_ok_iff.1 h
  exact hg.of_perm hnew hperm (.inr rfl)

theorem restoreNode (hg : asset.Anchored g) {removed : RemovedNode}
    (h : g.restoreNode removed = .ok g') : asset.Anchored g' := by
  have hnew := exists_restoreNode_iff.1 ⟨g', h⟩
  refine hg.of_perm hnew (ids_perm_of_restoreNode h) ?_
  rw [start_of_restoreNode h]
  split_ifs
  · exact .inl rfl
  · exact .inr rfl

theorem modify? (hg : asset.Anchored g) {f : Node → Node} (h : g.modify? id f = .ok g')
    (hf : ∀ n, (f n).id = n.id) : asset.Anchored g' := by
  have hids := ids_of_modify? h hf
  obtain ⟨-, rfl⟩ := modify?_eq_ok_iff.1 h
  exact hg.of_ids_eq hids rfl

theorem clearStart (hg : asset.Anchored g) : asset.Anchored g.clearStart :=
  ⟨hg.unique, fun id hid => by cases hid⟩

end Anchored

end Graph

end StoryGraph
