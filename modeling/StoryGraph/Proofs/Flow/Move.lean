import Mathlib
import StoryGraph.Flow.Runner

/-!
# Where a task leads

A task leads to nodes of the graph only, and it halts the flow at a node only.
-/

namespace StoryGraph

def Move.Stays : Move → Prop
  | .stay | .halt => True
  | .rest | .enter _ => False

theorem Graph.node?_id {g : Graph} {id : NodeId} {n : Node} (h : g.node? id = some n) :
    g.node? n.id = some n := by
  have hid : n.id = id := by simpa using List.find?_some h
  rw [hid, h]

theorem Graph.mem_of_node? {g : Graph} {id : NodeId} {n : Node} (h : g.node? id = some n) :
    n ∈ g.nodes :=
  List.mem_of_find?_eq_some h

namespace Runner

variable {κ : Type _} {R : Runner κ} {n : Node}

theorem eq_some_of_elim {o : Option Node} {other : Move} (h : o.elim other .enter = .enter n)
    (hne : other ≠ .enter n) : o = some n := by
  cases o with
  | none => exact absurd h hne
  | some m =>
      rw [Option.elim_some, Move.enter.injEq] at h
      rw [h]

theorem node?_of_onward (h : R.onward = .enter n) : R.graph.node? n.id = some n := by
  unfold onward at h
  split at h
  · cases h
  · obtain ⟨id, _, hid⟩ := Option.bind_eq_some_iff.1 (eq_some_of_elim h (by simp))
    exact Graph.node?_id hid

theorem node?_of_move {task : Task} (h : R.move task = .enter n) :
    R.graph.node? n.id = some n := by
  cases task with
  | request r =>
      cases r with
      | goTo id => exact Graph.node?_id (eq_some_of_elim h (by simp))
      | advance => exact node?_of_onward h
      | jump source slot =>
          obtain ⟨id, _, hid⟩ := Option.bind_eq_some_iff.1 (eq_some_of_elim h (by simp))
          exact Graph.node?_id hid
      | stop => cases h
  | done visit =>
      simp only [move] at h
      split at h
      · exact node?_of_onward h
      · cases h

theorem ne_halt_of_elim {o : Option Node} {other : Move} (hne : other ≠ .halt) :
    o.elim other .enter ≠ .halt := by
  cases o with
  | none => exact hne
  | some m => simp

/-- Without a current node there is nothing to halt at. -/
theorem isSome_of_move {task : Task} (h : R.move task = .halt) : R.current.isSome := by
  have honward : R.onward = .halt → R.current.isSome := by
    intro ho
    cases hc : R.current with
    | none => rw [onward, hc] at ho; cases ho
    | some c => rfl
  cases task with
  | request r =>
      cases r with
      | goTo id => exact absurd h (ne_halt_of_elim (by simp))
      | advance => exact honward h
      | jump source slot => exact absurd h (ne_halt_of_elim (by simp))
      | stop => cases h
  | done visit =>
      simp only [move] at h
      split at h
      · exact honward h
      · cases h

end Runner

end StoryGraph
