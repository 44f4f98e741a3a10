import Mathlib
import StoryGraph.Proofs.Graph.Names

/-!
# Where the slots of a graph lead

A slot holds the name of a node or one that is lost: one that no node has. Every change to a graph
leaves the slots within the names that they held, but for the target of a new link and for what a
restored node brings back. A node that is removed is held by no slot from then on.
-/

namespace StoryGraph

variable {g g' : Graph} {id source target : NodeId} {n : Node} {names names' : Set NodeId}

/-! ### What a survey finds -/

namespace Graph

def lost (g : Graph) : Set NodeId := {id | id ∉ g ∧ ∃ n ∈ g.nodes, n.LinksTo id}

theorem mem_danglingOf {issue : Issue} : issue ∈ g.danglingOf n ↔
    ∃ slot target, target ∉ g ∧ n.outputs[slot]? = some (some target) ∧
      issue = .dangling n.id slot target := by
  simp only [danglingOf, List.mem_filterMap, Prod.exists, List.mem_zipIdx_iff_getElem?]
  constructor
  · rintro ⟨held, slot, hslot, hissue⟩
    obtain ⟨target, rfl, hfound⟩ := Option.bind_eq_some_iff.1 hissue
    split_ifs at hfound with hmem
    exact ⟨slot, target, hmem, hslot, (Option.some.inj hfound).symm⟩
  · rintro ⟨slot, target, hmem, hslot, rfl⟩
    refine ⟨some target, slot, hslot, ?_⟩
    rw [Option.bind_some, if_neg hmem]

theorem duplicate_mem_issues_iff : .duplicate id ∈ g.issues ↔ id ∈ repeated [] g.ids := by
  simp [issues, mem_danglingOf]

theorem unknownStart_mem_issues_iff :
    .unknownStart id ∈ g.issues ↔ g.start = some id ∧ id ∉ g := by
  simp [issues, mem_danglingOf]

theorem dangling_mem_issues_iff {slot : Nat} : .dangling source slot target ∈ g.issues ↔
    target ∉ g ∧ ∃ n ∈ g.nodes, n.id = source ∧ n.outputs[slot]? = some (some target) := by
  simp only [issues, List.mem_append, List.mem_map, reduceCtorEq, and_false, exists_false,
    false_or, List.mem_flatMap, mem_danglingOf, Issue.dangling.injEq]
  constructor
  · rintro ⟨n, hn, _, _, hmem, hslot, rfl, rfl, rfl⟩
    exact ⟨hmem, n, hn, rfl, hslot⟩
  · rintro ⟨hmem, n, hn, rfl, hslot⟩
    exact ⟨n, hn, slot, target, hmem, hslot, rfl, rfl, rfl⟩

/-- Names are different exactly if no name is found again. -/
theorem unique_iff_issues : g.Unique ↔ ∀ id, .duplicate id ∉ g.issues := by
  rw [unique_iff, List.eq_nil_iff_forall_not_mem]
  exact forall_congr' fun id => not_congr duplicate_mem_issues_iff.symm

/-- The targets that dangle are the names that are lost. -/
theorem exists_dangling_iff : (∃ source slot, .dangling source slot target ∈ g.issues) ↔
    target ∈ g.lost := by
  simp only [dangling_mem_issues_iff]
  constructor
  · rintro ⟨source, slot, hmem, n, hn, -, hslot⟩
    exact ⟨hmem, n, hn, List.mem_of_getElem? hslot⟩
  · rintro ⟨hmem, n, hn, hlink⟩
    obtain ⟨slot, hslot⟩ := List.mem_iff_getElem?.1 hlink
    exact ⟨n.id, slot, hmem, n, hn, rfl, hslot⟩

theorem issues_eq_nil_iff : g.issues = [] ↔ g.Proper ∧ g.lost = ∅ := by
  constructor
  · intro h
    refine ⟨⟨unique_iff_issues.2 (by simp [h]), ?_⟩, ?_⟩
    · intro id hid
      by_contra hmem
      have hissue := unknownStart_mem_issues_iff.2 ⟨hid, hmem⟩
      rw [h] at hissue
      cases hissue
    · rw [Set.eq_empty_iff_forall_notMem]
      intro target htarget
      obtain ⟨source, slot, hissue⟩ := exists_dangling_iff.2 htarget
      rw [h] at hissue
      cases hissue
  · rintro ⟨⟨hunique, hstart⟩, hlost⟩
    rw [List.eq_nil_iff_forall_not_mem]
    rintro (id | id | ⟨source, slot, target⟩) hissue
    · exact unique_iff_issues.1 hunique id hissue
    · obtain ⟨hid, hmem⟩ := unknownStart_mem_issues_iff.1 hissue
      exact hmem (hstart id hid)
    · have htarget : target ∈ g.lost := exists_dangling_iff.1 ⟨source, slot, hissue⟩
      rw [hlost] at htarget
      exact htarget

end Graph

/-! ### What changes keep -/

theorem mem_insertSlots {outputs : List (Option NodeId)} {slots : List Nat} {slot : Option NodeId}
    (h : slot ∈ insertSlots target outputs slots) : slot = some target ∨ slot ∈ outputs := by
  induction slots generalizing outputs with
  | nil => exact .inr h
  | cons k slots ih =>
      rcases ih h with h | h
      · exact .inl h
      · exact List.mem_cons.1 ((insertAt_perm outputs k (some target)).mem_iff.1 h)

theorem mem_of_mem_modify {α : Type _} {l : List α} {f : α → α} {i : Nat} {a : α}
    (h : a ∈ l.modify i f) : a ∈ l ∨ ∃ b ∈ l, a = f b := by
  obtain ⟨j, hj⟩ := List.mem_iff_getElem?.1 h
  rw [List.getElem?_modify] at hj
  obtain ⟨b, hb, heq⟩ := Option.map_eq_some_iff.1 hj
  split_ifs at heq
  · exact .inr ⟨b, List.mem_of_getElem? hb, heq.symm⟩
  · exact .inl (heq ▸ List.mem_of_getElem? hb)

theorem slotsOf_eq_nil {outputs : List (Option NodeId)} (h : some target ∉ outputs) :
    slotsOf target outputs = [] := by
  rw [slotsOf, List.map_eq_nil_iff, List.filter_eq_nil_iff]
  intro e he heq
  apply h
  rw [← of_decide_eq_true heq]
  exact (List.mem_zipIdx' he).2 ▸ List.getElem_mem _

namespace Node

def Within (n : Node) (names : Set NodeId) : Prop := ∀ id, n.LinksTo id → id ∈ names

theorem within_of_outputs_eq_nil (h : n.outputs = []) (names : Set NodeId) : n.Within names := by
  intro id hid
  rw [LinksTo, h] at hid
  cases hid

theorem Within.unlink (hn : n.Within names) (target : NodeId) :
    (n.unlink target).Within (names \ {target}) := by
  intro id hid
  obtain ⟨hmem, hne⟩ := List.mem_filter.1 hid
  refine ⟨hn id hmem, ?_⟩
  rintro rfl
  simp at hne

theorem Within.relink (hn : n.Within names) {slots : List Nat}
    (htarget : target ∈ names ∨ slots = []) : (n.relink target slots).Within names := by
  rcases htarget with htarget | rfl
  · intro id hid
    rcases mem_insertSlots hid with heq | hmem
    · obtain rfl := Option.some.inj heq
      exact htarget
    · exact hn id hmem
  · exact hn

end Node

namespace Graph

def Within (g : Graph) (names : Set NodeId) : Prop := ∀ n ∈ g.nodes, n.Within names

/-- Every slot holds the name of a node or one that is lost. -/
theorem within_self (g : Graph) : g.Within {id | id ∈ g ∨ id ∈ g.lost} := by
  intro n hn id hid
  by_cases hmem : id ∈ g
  · exact .inl hmem
  · exact .inr ⟨hmem, n, hn, hid⟩

theorem mem_of_mem_lost (hg : g.Within names) (hid : id ∈ g.lost) : id ∈ names := by
  obtain ⟨-, n, hn, hlink⟩ := hid
  exact hg n hn id hlink

namespace Within

theorem mono (hg : g.Within names) (hsub : names ⊆ names') : g.Within names' :=
  fun n hn id hid => hsub (hg n hn id hid)

theorem modify (hg : g.Within names) (id : NodeId) {f : Node → Node}
    (hf : ∀ n, n.Within names → (f n).Within names) : (g.modify id f).Within names := by
  intro n hn
  rcases mem_of_mem_modify hn with hn | ⟨m, hm, rfl⟩
  · exact hg n hn
  · exact hf m (hg m hm)

theorem insertNode (hg : g.Within names) (hn : n.Within names) {place : Nat}
    (h : g.insertNode place n = .ok g') : g'.Within names := by
  obtain ⟨-, rfl⟩ := insertNode_eq_ok_iff.1 h
  intro m hm
  rcases List.mem_cons.1 ((insertAt_perm g.nodes place n).mem_iff.1 hm) with rfl | hm
  · exact hn
  · exact hg m hm

theorem setStart (hg : g.Within names) (h : g.setStart id = .ok g') : g'.Within names := by
  obtain ⟨-, rfl⟩ := setStart_eq_ok_iff.1 h
  exact hg

theorem removeNode (hg : g.Within names) {removed : RemovedNode}
    (h : g.removeNode id = some (removed, g')) :
    g'.Within (names \ {id}) ∧ removed.node.Within names := by
  obtain ⟨hnode, -, -, -, rfl⟩ := exists_of_removeNode h
  refine ⟨List.forall_mem_map.2 ?_, hg _ (List.mem_of_getElem? hnode)⟩
  intro n hn
  exact (hg n (List.mem_of_mem_eraseIdx hn)).unlink id

theorem relinkAll (hg : g.Within names) (htarget : target ∈ names)
    (slots : List (NodeId × Nat)) : (g.relinkAll target slots).Within names := by
  induction slots generalizing g with
  | nil => exact hg
  | cons e slots ih => exact ih (hg.modify e.1 fun n hn => hn.relink (.inl htarget))

theorem restoreNode (hg : g.Within names) {removed : RemovedNode}
    (hn : removed.node.Within names) (hid : removed.node.id ∈ names)
    (h : g.restoreNode removed = .ok g') : g'.Within names := by
  obtain ⟨g₀, hinsert, rfl⟩ := exists_of_restoreNode h
  exact (hg.insertNode hn hinsert).relinkAll hid removed.incoming

theorem link (hg : g.Within names) (htarget : target ∈ names) {isNew : Bool}
    (h : g.link source target = .ok (isNew, g')) : g'.Within names := by
  obtain ⟨-, -, -, ⟨-, -, rfl⟩ | ⟨-, -, rfl⟩⟩ := exists_of_link h
  · exact hg
  · refine hg.modify source fun n hn id hid => ?_
    rcases List.mem_append.1 hid with hid | hid
    · exact hn id hid
    · obtain rfl := Option.some.inj (List.mem_singleton.1 hid)
      exact htarget

theorem unlink (hg : g.Within names) {slots : List Nat}
    (h : g.unlink source target = .ok (slots, g')) :
    g'.Within names ∧ (target ∈ names ∨ slots = []) := by
  obtain ⟨n, hn, rfl, rfl⟩ := exists_of_unlink h
  constructor
  · exact hg.modify source fun n hn id hid => (hn.unlink target id hid).1
  · by_cases hlink : n.LinksTo target
    · exact .inl (hg n (List.mem_of_find?_eq_some hn) target hlink)
    · exact .inr (slotsOf_eq_nil hlink)

theorem popLink (hg : g.Within names) {held : Bool}
    (h : g.popLink source target = .ok (held, g')) : g'.Within names := by
  obtain ⟨-, -, ⟨-, -, rfl⟩ | ⟨-, -, rfl⟩⟩ := exists_of_popLink h
  · exact hg.modify source fun n hn id hid => hn id (List.mem_of_mem_dropLast hid)
  · exact hg

end Within

end Graph

end StoryGraph
