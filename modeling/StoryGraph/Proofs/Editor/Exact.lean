import StoryGraph.Proofs.Editor.Mirror

/-!
# Edits and forms

Doing an edit and taking it back are functions of the form of a draft. An edit is exact between two
forms if doing it leads from the one to the other and taking it back leads from the other to the
one. Every edit is exact between the forms before and after it was made.
-/

namespace StoryGraph

namespace Command

def redone? (c : Command) (g : Graph) : Option Graph :=
  match c with
  | .addNode node becameStart => Except.toOption do
    let g ← g.addNode node
    if becameStart then g.setStart node.id else return g
  | .deleteNode removed => (g.removeNode removed.node.id).map Prod.snd
  | .connect source target => ((g.link source target).map Prod.snd).toOption
  | .disconnect source target _ => ((g.unlink source target).map Prod.snd).toOption
  | .move id _ after => (g.setPosition id after).toOption
  | .setStart _ after => (g.setStart after).toOption

def undone? (c : Command) (g : Graph) : Option Graph :=
  match c with
  | .addNode node _ => (g.removeNode node.id).map Prod.snd
  | .deleteNode removed => (g.restoreNode removed).toOption
  | .connect source target => ((g.popLink source target).map Prod.snd).toOption
  | .disconnect source target slots => (g.relinkAt source target slots).toOption
  | .move id before _ => (g.setPosition id before).toOption
  | .setStart (some before) _ => (g.setStart before).toOption
  | .setStart none _ => some g.clearStart

end Command

namespace Draft

variable {β : Type} {kinds : Registry β} {d : Draft}

theorem change_toOption (d : Draft) (x : Except DataError Graph) :
    (d.change x).toOption.map form = (x.map (·.overlay d.view)).toOption := by
  cases x <;> rfl

theorem remove_toOption (d : Draft) (id : NodeId) :
    (d.remove id).toOption.map form = (d.form.removeNode id).map Prod.snd := by
  rw [form, ← Graph.overlay_removeNode, remove]
  cases d.graph.removeNode id <;> rfl

theorem place_toOption (hd : d.Mirrors kinds) (id : NodeId) (position : Position) :
    (d.place id position).toOption.map form = (d.form.setPosition id position).toOption := by
  rw [place, Graph.setPosition, Graph.modify?]
  by_cases hmem : id ∈ d.graph
  · rw [if_pos (hd.node?_isSome_iff.2 hmem), if_pos (mem_form.2 hmem)]
    exact congrArg some (form_place hd id position)
  · rw [if_neg (mt hd.node?_isSome_iff.1 hmem), if_neg (mt mem_form.1 hmem)]
    rfl

/-- Doing an edit again is a function of the form. -/
theorem form_apply (hd : d.Mirrors kinds) (c : Command) :
    (d.apply c).toOption.map form = c.redone? d.form := by
  cases c with
  | addNode node becameStart =>
      have hadd : (d.graph.addNode node).map (·.overlay d.view) = d.form.addNode node :=
        Graph.overlay_addNode fun h => hd.node?_eq_none h
      rw [apply, change_toOption, Command.redone?, ← hadd]
      cases d.graph.addNode node with
      | error e => rfl
      | ok g =>
          cases becameStart with
          | false => rfl
          | true => exact congrArg Except.toOption (g.overlay_setStart d.view node.id)
  | deleteNode removed => exact remove_toOption d removed.node.id
  | connect source target =>
      rw [apply, change_toOption, Command.redone?, form, ← Graph.overlay_link]
      cases d.graph.link source target <;> rfl
  | disconnect source target slots =>
      rw [apply, change_toOption, Command.redone?, form, ← Graph.overlay_unlink]
      cases d.graph.unlink source target <;> rfl
  | move id before after => exact place_toOption hd id after
  | setStart before after =>
      rw [apply, change_toOption, Command.redone?, form, ← Graph.overlay_setStart]

/-- Taking an edit back is a function of the form. -/
theorem form_revert (hd : d.Mirrors kinds) (c : Command) :
    (d.revert c).toOption.map form = c.undone? d.form := by
  cases c with
  | addNode node becameStart => exact remove_toOption d node.id
  | deleteNode removed =>
      have hrestore : (d.graph.restoreNode removed).map (·.overlay d.view) =
          d.form.restoreNode removed := Graph.overlay_restoreNode fun h => hd.node?_eq_none h
      rw [revert, change_toOption, Command.undone?, hrestore]
  | connect source target =>
      rw [revert, change_toOption, Command.undone?, form, ← Graph.overlay_popLink]
      cases d.graph.popLink source target <;> rfl
  | disconnect source target slots =>
      rw [revert, change_toOption, Command.undone?, form, ← Graph.overlay_relinkAt]
  | move id before after => exact place_toOption hd id before
  | setStart before after =>
      cases before with
      | none => rfl
      | some before => rw [revert, change_toOption, Command.undone?, form, ← Graph.overlay_setStart]

end Draft

/-- Doing an edit leads from one form to another, and taking it back leads from that to the
first. -/
structure Command.Exact (c : Command) (before after : Graph) : Prop where
  proper_before : before.Proper
  proper_after : after.Proper
  redone_eq : c.redone? before = some after
  undone_eq : c.undone? after = some before

namespace Command

variable {g g' : Graph} {id source target : NodeId} {n : Node}

/-- A node that is added behind the others, to which nothing leads yet. -/
theorem exact_addNode (hg : g.Proper) (hnew : n.id ∉ g)
    (hlinks : ∀ m ∈ g.nodes, ¬m.LinksTo n.id) :
    (addNode n g.start.isNone).Exact g
      { start := if g.start.isNone then some n.id else g.start, nodes := g.nodes ++ [n] } := by
  have hadd : g.addNode n = .ok { g with nodes := g.nodes ++ [n] } :=
    Graph.addNode_eq_ok_iff.2 ⟨hnew, rfl⟩
  have hmem : n.id ∈ { g with nodes := g.nodes ++ [n] } := Graph.mem_iff.2 ⟨n, by simp, rfl⟩
  have hperm := Graph.ids_perm_of_insertNode hadd
  refine ⟨hg, ⟨hperm.nodup_iff.2 (List.nodup_cons.2 ⟨hnew, hg.unique⟩), ?_⟩, ?_, ?_⟩
  · intro s hs
    cases h : g.start with
    | none =>
        rw [h] at hs
        obtain rfl := Option.some.inj hs
        exact hmem
    | some t =>
        rw [h] at hs
        obtain rfl := Option.some.inj hs
        exact hperm.mem_iff.2 (List.mem_cons_of_mem n.id (hg.start_mem t h))
  · rw [redone?, hadd]
    change Except.toOption (if _ then Graph.setStart _ n.id else _) = _
    rw [Graph.setStart, if_pos hmem]
    cases g.start <;> rfl
  · have hback : (if (if g.start.isNone then some n.id else g.start) = some n.id then none
        else if g.start.isNone then some n.id else g.start) = g.start := by
      cases h : g.start with
      | none => simp
      | some s =>
          have hne : s ≠ n.id := fun he => hnew (he ▸ hg.start_mem s h)
          simpa using hne
    obtain ⟨removed, hremoved⟩ := Graph.removeNode_of_append hnew hlinks hback
    rw [undone?, hremoved]
    rfl

theorem exact_connect (hg : g.Proper) (h : g.link source target = .ok (true, g')) :
    (connect source target).Exact g g' := by
  refine ⟨hg, hg.of_ids_eq (Graph.ids_of_link h) (Graph.start_of_link h), ?_, ?_⟩
  · rw [redone?, h]
    rfl
  · rw [undone?, Graph.popLink_of_link hg.unique h]
    rfl

theorem exact_disconnect (hg : g.Proper) {slots : List Nat}
    (h : g.unlink source target = .ok (slots, g')) :
    (disconnect source target slots).Exact g g' := by
  refine ⟨hg, hg.of_ids_eq (Graph.ids_of_unlink h) (Graph.start_of_unlink h), ?_, ?_⟩
  · rw [redone?, h]
    rfl
  · rw [undone?, Graph.relinkAt_of_unlink hg.unique h]
    rfl

theorem exact_deleteNode (hg : g.Proper) {removed : RemovedNode}
    (h : g.removeNode id = some (removed, g')) : (deleteNode removed).Exact g g' := by
  have hperm := Graph.ids_perm_of_removeNode h
  have hrestore := Graph.restoreNode_of_removeNode hg.unique h
  obtain ⟨-, hid, -, -, hg'⟩ := Graph.exists_of_removeNode h
  refine ⟨hg, ⟨(List.nodup_cons.1 (hperm.nodup_iff.1 hg.unique)).2, ?_⟩, ?_, ?_⟩
  · intro s hs
    rw [hg'] at hs
    by_cases hstart : g.start = some id
    · rw [if_pos hstart] at hs
      cases hs
    · rw [if_neg hstart] at hs
      rcases List.mem_cons.1 (hperm.mem_iff.1 (hg.start_mem s hs)) with rfl | hs'
      · exact absurd hs hstart
      · exact hs'
  · rw [redone?, hid, h]
    rfl
  · rw [undone?, hrestore]
    rfl

theorem exact_move (hg : g.Proper) (hn : g.node? id = some n) {position : Position}
    (h : g.setPosition id position = .ok g') : (move id n.position position).Exact g g' := by
  have hids : g'.ids = g.ids := Graph.ids_of_modify? h fun _ => rfl
  have hback := Graph.setPosition_setPosition hg.unique hn h
  have hstart : g'.start = g.start := by
    obtain ⟨-, rfl⟩ := Graph.modify?_eq_ok_iff.1 h
    rfl
  refine ⟨hg, hg.of_ids_eq hids hstart, ?_, ?_⟩
  · rw [redone?, h]
    rfl
  · rw [undone?, hback]
    rfl

theorem exact_setStart (hg : g.Proper) (h : g.setStart id = .ok g') :
    (setStart g.start id).Exact g g' := by
  obtain ⟨hmem, rfl⟩ := Graph.setStart_eq_ok_iff.1 h
  refine ⟨hg, ⟨hg.unique, ?_⟩, ?_, ?_⟩
  · intro s hs
    obtain rfl := Option.some.inj hs
    exact hmem
  · rw [redone?, h]
    rfl
  · cases hs : g.start with
    | none => rw [undone?, Graph.clearStart, ← hs]
    | some s =>
        have hback : ({ g with start := some id } : Graph).setStart s = .ok g :=
          Graph.setStart_eq_ok_iff.2 ⟨hg.start_mem s hs, by rw [← hs]⟩
        rw [undone?, hback]
        rfl

end Command

end StoryGraph
