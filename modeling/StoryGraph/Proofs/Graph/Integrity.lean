import Mathlib
import StoryGraph.Flow.Machine
import StoryGraph.Proofs.Graph.Anchored
import StoryGraph.Proofs.Graph.Building
import StoryGraph.Proofs.Graph.References

/-!
# Whatever is done to a graph

A graph starts empty or as a document that was read. Any calls, with any nodes and any records of
removed nodes, keep the names of its nodes different, and a start that is a node stays one. A call
that is refused is refused before anything is done: even in place, where what was done before a
refusal stays done, it leaves the graph as it was.
-/

namespace StoryGraph

/-! ### Changes in place -/

/-- Something that is done to a graph in place. What was done before a refusal stays done. -/
abbrev InPlace := EStateM DataError Graph Unit

namespace InPlace

def node (id : NodeId) (f : Node → Node) : InPlace := do
  unless id ∈ (← get) do throw (.unknownNode id)
  modify fun g => g.modify id f

def insertNode (place : Nat) (n : Node) : InPlace := do
  if n.id ∈ (← get) then throw (.duplicateNode n.id)
  modify fun g => { g with nodes := insertAt g.nodes place n }

def addNode (n : Node) : InPlace := do insertNode (← get).nodes.length n

def removeNode (id : NodeId) : InPlace := do
  match (← get).removeNode id with
  | none => return
  | some (_, g) => set g

def restoreNode (removed : RemovedNode) : InPlace := do
  insertNode removed.index removed.node
  removed.incoming.forM fun e => modify fun g => g.modify e.1 (·.relink removed.node.id [e.2])
  if removed.wasStart then modify fun g => { g with start := some removed.node.id }

def link (source target : NodeId) : InPlace := do
  unless target ∈ (← get) do throw (.unknownNode target)
  match (← get).node? source with
  | none => throw (.unknownNode source)
  | some n =>
    unless n.LinksTo target do
      modify fun g => g.modify source fun n => { n with outputs := n.outputs ++ [some target] }

def popLink (source target : NodeId) : InPlace := do
  match (← get).node? source with
  | none => throw (.unknownNode source)
  | some n =>
    if n.outputs.getLast? = some (some target) then
      modify fun g => g.modify source fun n => { n with outputs := n.outputs.dropLast }

def setStart (id : NodeId) : InPlace := do
  unless id ∈ (← get) do throw (.unknownNode id)
  modify fun g => { g with start := some id }

def clearStart : InPlace := modify fun g => g.clearStart

end InPlace

namespace Graph.Change

def inPlace : Change → InPlace
  | addNode n => .addNode n
  | insertNode place n => .insertNode place n
  | removeNode id => .removeNode id
  | restoreNode removed => .restoreNode removed
  | link source target => .link source target
  | unlink source target => .node source (·.unlink target)
  | relinkAt source target slots => .node source (·.relink target slots)
  | popLink source target => .popLink source target
  | setStart id => .setStart id
  | clearStart => .clearStart
  | setPosition id position => .node id fun n => { n with position }
  | setTitle id title => .node id fun n => { n with title }

end Graph.Change

namespace InPlace

variable {g : Graph}

def outcome (g : Graph) : Except DataError Graph → EStateM.Result DataError Graph Unit
  | .ok g' => .ok () g'
  | .error x => .error x g

theorem run_node (id : NodeId) (f : Node → Node) (g : Graph) :
    (node id f).run g = outcome g (g.modify? id f) := by
  by_cases h : id ∈ g <;> simp [node, Graph.modify?, h, outcome]

theorem run_insertNode (place : Nat) (n : Node) (g : Graph) :
    (insertNode place n).run g = outcome g (g.insertNode place n) := by
  by_cases h : n.id ∈ g <;> simp [insertNode, Graph.insertNode, h, outcome]

theorem run_relinkAll (target : NodeId) (slots : List (NodeId × Nat)) (g : Graph) :
    (slots.forM fun e => modify fun g => g.modify e.1 (·.relink target [e.2]) : InPlace).run g =
      .ok () (g.relinkAll target slots) := by
  induction slots generalizing g with
  | nil => rfl
  | cons e slots ih => exact ih (g.modify e.1 (·.relink target [e.2]))

theorem run_restoreNode (removed : RemovedNode) (g : Graph) :
    (restoreNode removed).run g = outcome g (g.restoreNode removed) := by
  rw [restoreNode, EStateM.run_bind, run_insertNode]
  by_cases h : removed.node.id ∈ g
  · have hinsert : g.insertNode removed.index removed.node = .error _ := if_pos h
    rw [hinsert, Graph.restoreNode, hinsert]
    rfl
  · have hinsert : g.insertNode removed.index removed.node = .ok _ := if_neg h
    rw [Graph.restoreNode_eq hinsert, hinsert, outcome]
    dsimp only
    rw [EStateM.run_bind, run_relinkAll]
    cases hstart : removed.wasStart <;> simp [outcome]

theorem run_link (source target : NodeId) (g : Graph) :
    (link source target).run g = outcome g ((g.link source target).map Prod.snd) := by
  by_cases h : target ∈ g
  · cases hn : g.node? source with
    | none => simp [link, Graph.link, h, hn, outcome, Except.map]
    | some n =>
        by_cases hl : n.LinksTo target <;> simp [link, Graph.link, h, hn, hl, outcome, Except.map]
  · simp [link, Graph.link, h, outcome, Except.map]

theorem run_popLink (source target : NodeId) (g : Graph) :
    (popLink source target).run g = outcome g ((g.popLink source target).map Prod.snd) := by
  cases hn : g.node? source with
  | none => simp [popLink, Graph.popLink, hn, outcome, Except.map]
  | some n =>
      by_cases hl : n.outputs.getLast? = some (some target) <;>
        simp [popLink, Graph.popLink, hn, hl, outcome, Except.map]

theorem run_unlink (source target : NodeId) (g : Graph) :
    (node source (·.unlink target)).run g =
      outcome g ((g.unlink source target).map Prod.snd) := by
  have hmem : source ∈ g ↔ (g.node? source).isSome := Graph.node?_isSome_iff.symm
  cases hn : g.node? source with
  | none => simp [run_node, Graph.modify?, Graph.unlink, hmem, hn, outcome, Except.map]
  | some n => simp [run_node, Graph.modify?, Graph.unlink, hmem, hn, outcome, Except.map]

theorem run_removeNode (id : NodeId) (g : Graph) :
    (removeNode id).run g = .ok () ((g.removeNode id).elim g Prod.snd) := by
  cases hr : g.removeNode id <;> simp [removeNode, hr]

theorem run_setStart (id : NodeId) (g : Graph) :
    (setStart id).run g = outcome g (g.setStart id) := by
  by_cases h : id ∈ g <;> simp [setStart, Graph.setStart, h, outcome]

end InPlace

/-! ### Starting a runner -/

def Machine.Answers {σ : Type} (m : Machine σ) (r : Nat) (answer : Option StoryError) : Prop :=
  ∀ next : Option StoryError → Script σ, ∃ above,
    (m.perform (.start r next)).stack = above ++ .run (next answer) :: m.stack

theorem Machine.exists_stack_submit {σ : Type} (m : Machine σ) (r : Nat) (task : Task) :
    ∃ above, (m.submit r task).stack = above ++ m.stack := by
  unfold submit
  split
  · exact ⟨[], rfl⟩
  · split
    · exact ⟨[], rfl⟩
    · dsimp only
      split
      · exact ⟨[], rfl⟩
      · exact ⟨[.dispatch r 0], rfl⟩

theorem Machine.answers_entry {σ : Type} {m : Machine σ} {r : Nat} {runner : Runner (Script σ)}
    (hr : m.world.runners[r]? = some runner) :
    m.Answers r (match runner.graph.entry with | .error x => some x | .ok _ => none) := by
  intro next
  simp only [perform, hr]
  cases runner.graph.entry with
  | error x => exact ⟨[], rfl⟩
  | ok id => exact exists_stack_submit (m.push (.run (next none))) r _

namespace Graph

variable {asset g g' : Graph} {id : NodeId} {c : Change}

namespace Change

/-- What a call does in place is what it does. -/
theorem run_inPlace (c : Change) (g : Graph) :
    c.inPlace.run g = InPlace.outcome g (c.perform g) := by
  cases c with
  | addNode n => exact InPlace.run_insertNode g.nodes.length n g
  | insertNode place n => exact InPlace.run_insertNode place n g
  | removeNode id => exact InPlace.run_removeNode id g
  | restoreNode removed => exact InPlace.run_restoreNode removed g
  | link source target => exact InPlace.run_link source target g
  | unlink source target => exact InPlace.run_unlink source target g
  | relinkAt source target slots => exact InPlace.run_node source _ g
  | popLink source target => exact InPlace.run_popLink source target g
  | setStart id => exact InPlace.run_setStart id g
  | clearStart => rfl
  | setPosition id position => exact InPlace.run_node id _ g
  | setTitle id title => exact InPlace.run_node id _ g

theorem eq_of_run_eq_error {x : DataError} (h : c.inPlace.run g = .error x g') : g' = g := by
  rw [run_inPlace] at h
  cases hc : c.perform g with
  | ok g' =>
      rw [hc] at h
      cases h
  | error x =>
      rw [hc] at h
      exact (EStateM.Result.error.inj h).2.symm

end Change

/-! ### Names and starts -/

theorem Anchored.perform (hg : asset.Anchored g) (h : c.perform g = .ok g') :
    asset.Anchored g' := by
  cases c with
  | addNode n => exact hg.insertNode h
  | insertNode place n => exact hg.insertNode h
  | removeNode id =>
      obtain rfl := Except.ok.inj h
      cases hr : g.removeNode id with
      | none => exact hg
      | some r => exact hg.removeNode hr
  | restoreNode removed => exact hg.restoreNode h
  | link source target =>
      obtain ⟨isNew, hlink⟩ := exists_of_map_snd h
      exact hg.of_ids_eq (ids_of_link hlink) (start_of_link hlink)
  | unlink source target =>
      obtain ⟨slots, hunlink⟩ := exists_of_map_snd h
      exact hg.of_ids_eq (ids_of_unlink hunlink) (start_of_unlink hunlink)
  | relinkAt source target slots => exact hg.modify? h fun _ => rfl
  | popLink source target =>
      obtain ⟨held, hpop⟩ := exists_of_map_snd h
      exact hg.of_ids_eq (ids_of_popLink hpop) (start_of_popLink hpop)
  | setStart id => exact hg.setStart h
  | clearStart =>
      obtain rfl := Except.ok.inj h
      exact hg.clearStart
  | setPosition id position => exact hg.modify? h fun _ => rfl
  | setTitle id title => exact hg.modify? h fun _ => rfl

theorem Anchored.after (hg : asset.Anchored g) (c : Change) : asset.Anchored (c.after g) := by
  unfold Change.after
  cases h : c.perform g with
  | error x => exact hg
  | ok g' => exact hg.perform h

def changed (g : Graph) (changes : List Change) : Graph :=
  changes.foldl (fun g c => c.after g) g

theorem Anchored.changed (hg : asset.Anchored g) (changes : List Change) :
    asset.Anchored (g.changed changes) := by
  induction changes generalizing g with
  | nil => exact hg
  | cons c changes ih => exact ih (hg.after c)

def Resolves (g : Graph) : Prop := ∀ id ∈ g.start, id ∈ g

theorem Anchored.resolves (hg : asset.Anchored g) (ha : asset.Resolves) : g.Resolves := by
  intro id hid
  rcases hg.start id hid with hmem | ⟨hstart, hmiss⟩
  · exact hmem
  · exact absurd (ha id hstart) hmiss

/-- Nothing leads to a node that was removed. -/
theorem not_linksTo_of_removeNode {removed : RemovedNode}
    (h : g.removeNode id = some (removed, g')) :
    (∀ n ∈ g'.nodes, ¬n.LinksTo id) ∧ g'.start ≠ some id := by
  constructor
  · intro n hn hlink
    have hwithin : g.Within Set.univ := fun _ _ _ _ => trivial
    exact ((hwithin.removeNode h).1 n hn id hlink).2 rfl
  · obtain ⟨-, -, -, -, rfl⟩ := exists_of_removeNode h
    dsimp only
    split_ifs with hstart
    · exact nofun
    · exact hstart

theorem Resolves.entry_ne (hg : g.Resolves) (id : NodeId) :
    g.entry ≠ .error (.unknownStartNode id) := by
  unfold entry
  split_ifs
  · exact nofun
  · cases hstart : g.start with
    | none => exact nofun
    | some start =>
        dsimp only
        rw [if_pos (hg start hstart)]
        exact nofun

theorem Resolves.exists_answers {σ : Type} (hg : g.Resolves) {m : Machine σ} {r : Nat}
    {runner : Runner (Script σ)} (hr : m.world.runners[r]? = some runner)
    (hgraph : runner.graph = g) :
    ∃ answer, m.Answers r answer ∧ ∀ id, answer ≠ some (.unknownStartNode id) := by
  refine ⟨_, Machine.answers_entry hr, ?_⟩
  rw [hgraph]
  intro id
  have hne := hg.entry_ne id
  cases hentry : g.entry with
  | ok start => exact nofun
  | error x =>
      rw [hentry] at hne
      exact fun hx => hne (congrArg Except.error (Option.some.inj hx))

theorem Resolves.start_eq_none (hg : g.Resolves) (hnodes : g.nodes = []) : g.start = none := by
  rw [Option.eq_none_iff_forall_ne_some]
  intro id hid
  obtain ⟨n, hn, -⟩ := mem_iff.1 (hg id hid)
  rw [hnodes] at hn
  cases hn

theorem after_removeNode_of_mem (hid : id ∈ g) :
    let left := (Change.removeNode id).after g
    (∀ n ∈ left.nodes, ¬n.LinksTo id) ∧ left.start ≠ some id := by
  obtain ⟨⟨removed, left⟩, h⟩ := exists_removeNode_iff.2 hid
  have hleft : (Change.removeNode id).after g = left := by
    rw [Change.after, Change.perform, h]
    rfl
  rw [hleft]
  exact not_linksTo_of_removeNode h

theorem after_removeNode_of_not_mem (hid : id ∉ g) : (Change.removeNode id).after g = g := by
  have h : g.removeNode id = none := Option.eq_none_iff_forall_ne_some.2 fun r hr =>
    hid (exists_removeNode_iff.1 ⟨r, hr⟩)
  rw [Change.after, Change.perform, h]
  rfl

/-- A graph before anything is done to it: an empty one, or one that was read. -/
def Begins (g : Graph) : Prop := g = {} ∨ ∃ text, Graph.read text = .ok g

theorem Begins.unique (hg : g.Begins) : g.Unique := by
  rcases hg with rfl | ⟨text, hread⟩
  · exact List.nodup_nil
  · exact (plain_of_read hread).unique

/-- Whatever calls are made on a graph, with any nodes, any places and any records of removed nodes:
the names of its nodes stay different. A start that is unset or a node stays so. If the graph was
empty, then a runner on it is never told that the start is no node, and the graph has no start once
it is empty again. Once a node is removed, no slot and no start holds its name; a name that is no
node's changes nothing. And a call that is refused leaves the graph, which it changes in place, as
it was. -/
theorem changes_keep_integrity {σ : Type} (hg : g.Begins) (changes : List Change) :
    let g' := g.changed changes
    (g'.Unique ∧ ∀ id, .duplicate id ∉ g'.issues) ∧
      (∀ more, g'.Resolves → (g'.changed more).Resolves) ∧
      (g = {} → (g'.nodes = [] → g'.start = none) ∧
        ∀ (m : Machine σ) (r : Nat) (runner : Runner (Script σ)),
          m.world.runners[r]? = some runner → runner.graph = g' →
          ∃ answer, m.Answers r answer ∧ ∀ id, answer ≠ some (.unknownStartNode id)) ∧
      (∀ id, let left := (Change.removeNode id).after g'
        (id ∈ g' → (∀ n ∈ left.nodes, ¬n.LinksTo id) ∧ left.start ≠ some id) ∧
          (id ∉ g' → left = g')) ∧
      ∀ (c : Change) (x : DataError) (left : Graph),
        c.inPlace.run g' = .error x left → left = g' := by
  intro g'
  have hanchored : g.Anchored g' := (anchored_self hg.unique).changed changes
  refine ⟨⟨hanchored.unique, unique_iff_issues.1 hanchored.unique⟩, ?_, ?_, ?_, ?_⟩
  · intro more hresolves
    exact ((anchored_self hanchored.unique).changed more).resolves hresolves
  · rintro rfl
    have hresolves : g'.Resolves := hanchored.resolves fun id hid => by cases hid
    exact ⟨hresolves.start_eq_none, fun m r runner => hresolves.exists_answers⟩
  · intro id
    exact ⟨after_removeNode_of_mem, after_removeNode_of_not_mem⟩
  · intro c x left
    exact Change.eq_of_run_eq_error

def hauntedText : String :=
  "\x7b\"nodes\":[\x7b\"typeTag\":\"note\",\"id\":\"a\",\"outputs\":[\"ghost\"]\x7d]\x7d"

def haunted : Graph :=
  { nodes := [{ kind := "note", id := ⟨"a"⟩, outputs := [some ⟨"ghost"⟩] }] }

theorem read_hauntedText : Graph.read hauntedText = .ok haunted := by cbv

/-- A record from elsewhere is restored twice, the second time in vain. The ghost is a node then, and
the start, until it is removed. -/
theorem changes_keep_integrity_haunted :
    let stale : RemovedNode :=
      { node := { kind := "note", id := ⟨"ghost"⟩ }, index := 7
        incoming := [(⟨"a"⟩, 5), (⟨"b"⟩, 0)], wasStart := true }
    let g' := haunted.changed [.restoreNode stale, .restoreNode stale]
    let left := (Change.removeNode ⟨"ghost"⟩).after g'
    g'.ids = [⟨"a"⟩, ⟨"ghost"⟩] ∧ g'.start = some ⟨"ghost"⟩ ∧ g'.Unique ∧
      (∀ more, (g'.changed more).Resolves) ∧ (∀ n ∈ left.nodes, ¬n.LinksTo ⟨"ghost"⟩) ∧
      left.start ≠ some ⟨"ghost"⟩ := by
  intro stale g' left
  obtain ⟨⟨hunique, -⟩, hresolves, -, hremoved, -⟩ := @changes_keep_integrity haunted Unit
    (.inr ⟨hauntedText, read_hauntedText⟩) [.restoreNode stale, .restoreNode stale]
  have hstart : g'.Resolves := by
    rintro id ⟨⟩
    decide
  obtain ⟨hlinks, hleft⟩ := (hremoved ⟨"ghost"⟩).1 (by decide)
  exact ⟨by decide, rfl, hunique, fun more => hresolves more hstart, hlinks, hleft⟩

/-- To remove a name that is no node's leaves the slots that hold it. -/
theorem removeNode_leaves_ghost : ¬∀ g : Graph, g.Begins → ∀ id : NodeId,
    ∀ n ∈ ((Change.removeNode id).after g).nodes, ¬n.LinksTo id := by
  intro h
  have hnode := h haunted (.inr ⟨hauntedText, read_hauntedText⟩) ⟨"ghost"⟩
  exact absurd hnode (by decide)

end Graph

end StoryGraph
