import StoryGraph.Proofs.Flow.Move
import StoryGraph.Proofs.Flow.Spare

/-!
# What a runner is at

At any moment a runner rests, works off its queue, is on its way to a node, or one of its nodes is
called (`Activity`). `Activity.frames` is what of it shows on the stack, and `Activity.Suits` what
the runner's record has to say to it.

`Tale` is what may have happened to a runner whose nodes are not called at the moment: a story,
told to the end or up to a visit that has begun.
-/

namespace StoryGraph

variable {σ : Type}

theorem Lifetime.eq_kept {l : Lifetime} (hreleased : l ≠ .released) (hover : l ≠ .over) :
    l = .kept := by
  cases l <;> trivial

theorem Lifetime.release_eq {l : Lifetime} (hover : l ≠ .over) : l.release = .released := by
  cases l <;> trivial

/-- What a runner is at. -/
inductive Activity where
  | resting
  /-- The queue is worked off, and a number of nodes have been entered. -/
  | working (entered : Nat)
  | leaving (target : Option Node) (entered : Nat)
  | entering (visit entered : Nat)
  /-- The node of a visit is called because it is left. What comes after does not change. -/
  | exiting (visit : Nat) (after : Activity)

namespace Activity

def frames (r : Nat) : Activity → List (Frame σ)
  | resting => []
  | working entered => [.dispatch r entered]
  | leaving target entered => [.leaving r target, .dispatch r entered]
  | entering visit entered => [.entering r visit, .dispatch r entered]
  | exiting visit after => .exiting r visit :: after.frames r

def callbacks : Activity → List Callback
  | resting | working _ | leaving _ _ => []
  | entering visit _ => [.enter visit]
  | exiting visit after => .exit visit :: after.callbacks

/-- What goes on is the runner's doing and nobody else's. -/
def Busy : Activity → Prop
  | resting | entering _ _ | exiting _ _ => False
  | working _ | leaving _ _ => True

def Suits (R : Runner Unit) : Activity → Prop
  | resting => R.dispatching = false ∧ R.queue = [] ∧ R.lifetime ≠ .released ∧
      (R.lifetime = .over → R.current = none) ∧
      (R.lifetime = .kept → R.halted = true → R.current.isSome)
  | working entered => R.dispatching = true ∧ R.lifetime ≠ .over ∧
      (R.halted = true → R.current.isSome) ∧ (R.limit.any (· ≤ entered) → R.current.isSome)
  | leaving target entered => R.dispatching = true ∧ R.lifetime ≠ .over ∧ R.current = none ∧
      (∀ n ∈ target, R.graph.node? n.id = some n) ∧
      (target = none → ¬R.limit.any (· ≤ entered))
  | entering _ _ => R.dispatching = true ∧ R.lifetime ≠ .over ∧ R.current.isSome
  | exiting _ after => after.Suits R ∧ after.callbacks = [] ∧ R.current = none ∧
      (R.dispatching = true ∨ R.lifetime = .over)

theorem filterMap_frames (r : Nat) (a : Activity) :
    (a.frames r : List (Frame σ)).filterMap (Frame.callback? r) = a.callbacks := by
  induction a with
  | resting | working | leaving => rfl
  | entering visit entered => simp [frames, callbacks, Frame.callback?]
  | exiting visit after ih => simp [frames, callbacks, Frame.callback?, ih]

theorem Suits.withQueue {R : Runner Unit} {a : Activity} (h : a.Suits R)
    (hd : R.dispatching = true) (queue : List Task) : a.Suits { R with queue } := by
  induction a with
  | resting => exact absurd (h.1.symm.trans hd) (by decide)
  | working | leaving | entering => exact h
  | exiting visit after ih => exact ⟨ih h.1, h.2⟩

theorem Suits.release {R : Runner Unit} {a : Activity} (h : a.Suits R)
    (hd : R.dispatching = true) :
    a.Suits { R with lifetime := .released } := by
  induction a with
  | resting => exact absurd (h.1.symm.trans hd) (by decide)
  | working | leaving | entering => exact ⟨h.1, by simp, h.2.2⟩
  | exiting visit after ih =>
      obtain ⟨ha, hc, hn, -⟩ := h
      exact ⟨ih ha, hc, hn, .inl hd⟩

end Activity

/-- What has happened to a runner whose nodes are not called at the moment. -/
inductive Tale {β κ : Type _} (kinds : Registry β) (R : Runner κ) (past : List Happening) :
    Prop where
  | idle (nodes : List Node) (mem : ∀ n ∈ nodes, n ∈ R.graph.nodes) (current : R.current = none)
    (visits : R.visits = nodes.length) (past_eq : past = story kinds 1 nodes)
  | active (nodes : List Node) (n : Node) (leave : Option κ)
    (mem : ∀ n ∈ nodes, n ∈ R.graph.nodes) (node : R.graph.node? n.id = some n)
    (current : R.current = some ⟨n.id, nodes.length + 1, leave⟩)
    (built : leave.isSome = kinds.builds n) (visits : R.visits = nodes.length + 1)
    (past_eq : past = story kinds 1 nodes ++ opening kinds (nodes.length + 1) n)

section Tale

variable {β κ : Type _} {kinds : Registry β} {R R' : Runner κ} {past : List Happening}

def Runner.farewell (R : Runner κ) : List Happening :=
  match R.current with
  | none => []
  | some c => .ends c.visit ::
      if c.leave.isSome then [.starts (.exit c.visit), .returns (.exit c.visit)] else []

theorem Tale.of_eq (h : Tale kinds R past) (hg : R'.graph = R.graph)
    (hc : R'.current = R.current) (hv : R'.visits = R.visits) : Tale kinds R' past := by
  cases h with
  | idle nodes mem current visits past_eq =>
      exact .idle nodes (hg ▸ mem) (hc.trans current) (hv.trans visits) past_eq
  | active nodes n leave mem node current built visits past_eq =>
      exact .active nodes n leave (hg ▸ mem) (hg ▸ node) (hc.trans current) built
        (hv.trans visits) past_eq

theorem Tale.enter (h : Tale kinds R past) (hnone : R.current = none) {n : Node}
    {leave : Option κ} (hn : R.graph.node? n.id = some n) (hg : R'.graph = R.graph)
    (hc : R'.current = some ⟨n.id, R.visits + 1, leave⟩) (hv : R'.visits = R.visits + 1)
    (hb : leave.isSome = kinds.builds n) :
    Tale kinds R' (past ++ opening kinds (R.visits + 1) n) := by
  cases h with
  | idle nodes mem current visits past_eq =>
      rw [past_eq, visits]
      rw [visits] at hc hv
      exact .active nodes n leave (hg ▸ mem) (hg ▸ hn) hc hb hv rfl
  | active nodes n leave mem node current built visits past_eq =>
      rw [hnone] at current
      cases current

theorem Tale.leave (h : Tale kinds R past) (hg : R'.graph = R.graph) (hc : R'.current = none)
    (hv : R'.visits = R.visits) : Tale kinds R' (past ++ R.farewell) := by
  cases h with
  | idle nodes mem current visits past_eq =>
      rw [Runner.farewell, current, List.append_nil]
      exact .idle nodes (hg ▸ mem) hc (hv.trans visits) past_eq
  | active nodes n leave mem node current built visits past_eq =>
      have hend : R.farewell = closing kinds (nodes.length + 1) n := by
        rw [Runner.farewell, current, closing, ← built]
      refine .idle (nodes ++ [n]) ?_ hc ?_ ?_
      · intro n' hn'
        rw [hg]
        rcases List.mem_append.1 hn' with hn' | hn'
        · exact mem n' hn'
        · rw [List.mem_singleton.1 hn']
          exact Graph.mem_of_node? node
      · rw [hv, visits, List.length_append, List.length_singleton]
      · rw [hend, past_eq, story_append_singleton, Nat.add_comm 1, List.append_assoc]

end Tale

end StoryGraph
