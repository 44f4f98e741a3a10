import StoryGraph.Kind.Builtin
import StoryGraph.Proofs.Editor.Refusal
import StoryGraph.Proofs.Graph.Asset
import StoryGraph.Proofs.Graph.References

/-!
# Files that are opened again

What an editor saves is opened again as the graph that it holds, as long as its nodes have a place
on the canvas. Edits cannot spoil anything else: where no node has the empty name and the settings
of new nodes are not named like fields, every graph that an editor comes to is plain.
-/

namespace StoryGraph

variable {β : Type} {g g' : Graph} {id source target : NodeId} {n : Node}

/-! ### What edits keep -/

/-- A node with a name that can be referred to, and nothing that a reader would not take. -/
structure Node.Tidy (n : Node) : Prop where
  named : n.id ≠ ⟨""⟩
  plain : n.Plain (Json.depthLimit - 3)

theorem Node.Tidy.of_outputs (hn : n.Tidy) {outputs : List (Option NodeId)}
    (h : some ⟨""⟩ ∉ outputs) : { n with outputs }.Tidy :=
  ⟨hn.named, h, hn.plain.names, hn.plain.fits⟩

theorem Node.Tidy.relink (hn : n.Tidy) {slots : List Nat}
    (htarget : target = ⟨""⟩ → slots = []) : (n.relink target slots).Tidy := by
  apply hn.of_outputs
  intro h
  rcases mem_insertSlots h with heq | hmem
  · rw [htarget (Option.some.inj heq).symm] at h
    exact hn.plain.outputs h
  · exact hn.plain.outputs hmem

theorem Node.Tidy.unlink (hn : n.Tidy) (target : NodeId) : (n.unlink target).Tidy :=
  hn.of_outputs fun h => hn.plain.outputs (List.mem_of_mem_filter h)

namespace Graph

structure Tidy (g : Graph) : Prop where
  start : g.start ≠ some ⟨""⟩
  nodes : ∀ n ∈ g.nodes, n.Tidy

namespace Tidy

theorem plain (hg : g.Tidy) (hu : g.Unique) : g.Plain :=
  ⟨hu, hg.start, fun n hn => (hg.nodes n hn).plain⟩

theorem ne_of_mem (hg : g.Tidy) (hid : id ∈ g) : id ≠ ⟨""⟩ := by
  obtain ⟨n, hn, rfl⟩ := mem_iff.1 hid
  exact (hg.nodes n hn).named

theorem modify (hg : g.Tidy) (id : NodeId) {f : Node → Node} (hf : ∀ n, n.Tidy → (f n).Tidy) :
    (g.modify id f).Tidy := by
  refine ⟨hg.start, fun n hn => ?_⟩
  rcases mem_of_mem_modify hn with hn | ⟨m, hm, rfl⟩
  · exact hg.nodes n hn
  · exact hf m (hg.nodes m hm)

theorem insertNode (hg : g.Tidy) (hn : n.Tidy) {place : Nat} (h : g.insertNode place n = .ok g') :
    g'.Tidy := by
  obtain ⟨-, rfl⟩ := insertNode_eq_ok_iff.1 h
  refine ⟨hg.start, fun m hm => ?_⟩
  rcases List.mem_cons.1 ((insertAt_perm g.nodes place n).mem_iff.1 hm) with rfl | hm
  · exact hn
  · exact hg.nodes m hm

theorem setStart (hg : g.Tidy) (h : g.setStart id = .ok g') : g'.Tidy := by
  obtain ⟨hid, rfl⟩ := setStart_eq_ok_iff.1 h
  exact ⟨fun heq => hg.ne_of_mem hid (Option.some.inj heq), hg.nodes⟩

theorem removeNode (hg : g.Tidy) {removed : RemovedNode}
    (h : g.removeNode id = some (removed, g')) : g'.Tidy ∧ removed.node.Tidy := by
  obtain ⟨hnode, rfl, -, -, rfl⟩ := exists_of_removeNode h
  refine ⟨⟨?_, List.forall_mem_map.2 ?_⟩, hg.nodes _ (List.mem_of_getElem? hnode)⟩
  · dsimp only
    split_ifs
    · simp
    · exact hg.start
  · intro n hn
    exact (hg.nodes n (List.mem_of_mem_eraseIdx hn)).unlink removed.node.id

theorem relinkAll (hg : g.Tidy) (htarget : target ≠ ⟨""⟩) (slots : List (NodeId × Nat)) :
    (g.relinkAll target slots).Tidy := by
  induction slots generalizing g with
  | nil => exact hg
  | cons e slots ih =>
      exact ih (hg.modify e.1 fun n hn => hn.relink fun heq => absurd heq htarget)

theorem restoreNode (hg : g.Tidy) {removed : RemovedNode} (hn : removed.node.Tidy)
    (h : g.restoreNode removed = .ok g') : g'.Tidy := by
  obtain ⟨g₀, hinsert, rfl⟩ := exists_of_restoreNode h
  have hrest := (hg.insertNode hn hinsert).relinkAll hn.named removed.incoming
  refine ⟨?_, hrest.nodes⟩
  dsimp only
  split_ifs
  · exact fun heq => hn.named (Option.some.inj heq)
  · exact hg.start

theorem link (hg : g.Tidy) {isNew : Bool} (h : g.link source target = .ok (isNew, g')) :
    g'.Tidy := by
  obtain ⟨htarget, -, -, ⟨-, -, rfl⟩ | ⟨-, -, rfl⟩⟩ := exists_of_link h
  · exact hg
  · refine hg.modify source fun n hn => hn.of_outputs ?_
    simp only [List.mem_append, List.mem_singleton, Option.some.injEq, not_or]
    exact ⟨hn.plain.outputs, (hg.ne_of_mem htarget).symm⟩

theorem unlink (hg : g.Tidy) {slots : List Nat} (h : g.unlink source target = .ok (slots, g')) :
    g'.Tidy ∧ (target = ⟨""⟩ → slots = []) := by
  obtain ⟨n, hn, rfl, rfl⟩ := exists_of_unlink h
  refine ⟨hg.modify source fun n hn => hn.unlink target, ?_⟩
  rintro rfl
  exact slotsOf_eq_nil (hg.nodes n (List.mem_of_find?_eq_some hn)).plain.outputs

theorem popLink (hg : g.Tidy) {held : Bool} (h : g.popLink source target = .ok (held, g')) :
    g'.Tidy := by
  obtain ⟨-, -, ⟨-, -, rfl⟩ | ⟨-, -, rfl⟩⟩ := exists_of_popLink h
  · exact hg.modify source fun n hn =>
      hn.of_outputs fun hmem => hn.plain.outputs (List.mem_of_mem_dropLast hmem)
  · exact hg

theorem overlay (hg : g.Tidy) (v : View) : (g.overlay v).Tidy := by
  refine ⟨hg.start, List.forall_mem_map.2 fun n hn => ?_⟩
  have h := hg.nodes n hn
  exact ⟨h.named, h.plain.outputs, h.plain.names, h.plain.fits⟩

end Tidy

end Graph

/-- An edit that brings no node back that a reader would not take, and no reference to the empty
name. -/
def Command.Tidy : Command → Prop
  | .addNode node _ => node.Tidy
  | .deleteNode removed => removed.node.Tidy
  | .disconnect _ target slots => target = ⟨""⟩ → slots = []
  | _ => True

namespace Draft

variable {d d' : Draft} {c : Command}

theorem exists_of_change {result : Except DataError Graph} (h : d.change result = .ok d') :
    result = .ok d'.graph := by
  cases result with
  | error x => cases h
  | ok g =>
      obtain rfl := Except.ok.inj h
      rfl

theorem exists_of_map {ι : Type} {result : Except DataError (ι × Graph)}
    (h : d.change (result.map Prod.snd) = .ok d') : ∃ a, result = .ok (a, d'.graph) :=
  Graph.exists_of_map_snd (exists_of_change h)

theorem exists_of_addNode {node : Node} {becameStart : Bool}
    (h : d.apply (.addNode node becameStart) = .ok d') : ∃ g, d.graph.addNode node = .ok g ∧
      (d'.graph = g ∨ g.setStart node.id = .ok d'.graph) := by
  have hchange := exists_of_change h
  cases hadd : d.graph.addNode node with
  | error x =>
      rw [hadd] at hchange
      cases hchange
  | ok g =>
      rw [hadd] at hchange
      cases becameStart with
      | false => exact ⟨g, rfl, .inl (Except.ok.inj hchange).symm⟩
      | true => exact ⟨g, rfl, .inr hchange⟩

theorem exists_of_remove (h : d.remove id = .ok d') :
    ∃ removed, d.graph.removeNode id = some (removed, d'.graph) := by
  rw [remove] at h
  cases hr : d.graph.removeNode id with
  | none =>
      rw [hr] at h
      cases h
  | some r =>
      rw [hr] at h
      obtain rfl := Except.ok.inj h
      exact ⟨r.1, rfl⟩

theorem graph_of_place {position : Position} (h : d.place id position = .ok d') :
    d'.graph = d.graph := by
  rw [place] at h
  split_ifs at h
  obtain rfl := Except.ok.inj h
  rfl

theorem tidy_remove (hg : d.graph.Tidy) (h : d.remove id = .ok d') : d'.graph.Tidy := by
  obtain ⟨removed, hremove⟩ := exists_of_remove h
  exact (hg.removeNode hremove).1

theorem tidy_place (hg : d.graph.Tidy) {position : Position} (h : d.place id position = .ok d') :
    d'.graph.Tidy := by
  rw [graph_of_place h]
  exact hg

theorem tidy_apply (hg : d.graph.Tidy) (hc : c.Tidy) (h : d.apply c = .ok d') : d'.graph.Tidy := by
  cases c with
  | addNode node becameStart =>
      obtain ⟨g, hadd, hsame | hset⟩ := exists_of_addNode h
      · exact hsame ▸ hg.insertNode hc hadd
      · exact (hg.insertNode hc hadd).setStart hset
  | deleteNode removed => exact tidy_remove hg h
  | connect source target =>
      obtain ⟨isNew, hlink⟩ := exists_of_map h
      exact hg.link hlink
  | disconnect source target slots =>
      obtain ⟨slots, hunlink⟩ := exists_of_map h
      exact (hg.unlink hunlink).1
  | move id before after => exact tidy_place hg h
  | setStart before after => exact hg.setStart (exists_of_change h)

theorem tidy_revert (hg : d.graph.Tidy) (hc : c.Tidy) (h : d.revert c = .ok d') :
    d'.graph.Tidy := by
  cases c with
  | addNode node becameStart => exact tidy_remove hg h
  | deleteNode removed => exact hg.restoreNode hc (exists_of_change h)
  | connect source target =>
      obtain ⟨held, hpop⟩ := exists_of_map h
      exact hg.popLink hpop
  | disconnect source target slots =>
      obtain ⟨-, hrelink⟩ := Graph.modify?_eq_ok_iff.1 (exists_of_change h)
      rw [hrelink]
      exact hg.modify source fun n hn => hn.relink hc
  | move id before after => exact tidy_place hg h
  | setStart before after =>
      cases before with
      | none =>
          obtain rfl := Except.ok.inj h
          exact ⟨by simp [Graph.clearStart], hg.nodes⟩
      | some before => exact hg.setStart (exists_of_change h)

end Draft

/-- Kinds whose settings are not named like fields and are values that are read. -/
def Registry.Plain (kinds : Registry β) : Prop :=
  ∀ kind ∈ kinds.kinds, ∀ m ∈ kind.defaults.toList,
    m.1 ∉ Node.fieldNames ∧ m.2.Fits (Json.depthLimit - 3)

theorem Builtin.plain_registry {σ : Type} : (registry (σ := σ)).Plain := by
  have hdefaults : ∀ l : List (String × Json.Value),
      (∀ m ∈ l, m.1 ∉ Node.fieldNames ∧ m.2.Fits (Json.depthLimit - 3)) →
      ∀ m ∈ (Table.ofList l).toList, m.1 ∉ Node.fieldNames ∧ m.2.Fits (Json.depthLimit - 3) := by
    intro l hl m hm
    rw [Table.toList_ofList] at hm
    exact hl m ((mem_foldl_upsert hm).resolve_left List.not_mem_nil)
  simp only [Registry.Plain, registry, kinds, List.forall_mem_cons, List.not_mem_nil,
    false_implies, implies_true, and_true]
  refine ⟨?_, ?_, ?_, ?_, ?_, ?_⟩ <;> apply hdefaults <;>
    simp [Node.fieldNames, Json.Value.Fits.string, Json.Value.Fits.bool]

def Operation.Named : Operation → Prop
  | .addNode id _ _ => id ≠ ⟨""⟩
  | _ => True

namespace Editor

variable {e : Editor β} {op : Operation} {c : Command} {d : Draft} {history : History Command}

/-- An editor that never comes to a graph that a reader would not take, whatever is undone and done
again. -/
structure Tidy (e : Editor β) : Prop where
  kinds : e.kinds.Plain
  graph : e.graph.Tidy
  past : ∀ c ∈ e.history.undo, c.Tidy
  future : ∀ c ∈ e.history.redo, c.Tidy

namespace Tidy

theorem edits (he : e.Tidy) : e.history.All Command.Tidy := ⟨he.past, he.future⟩

theorem update (he : e.Tidy) (hd : d.graph.Tidy) (ha : history.All Command.Tidy) :
    (e.update d history).Tidy :=
  ⟨he.kinds, hd, ha.undo, ha.redo⟩

theorem record (he : e.Tidy) (hd : d.graph.Tidy) (hc : c.Tidy) :
    (e.update d (e.history.record c)).Tidy :=
  he.update hd (he.edits.record hc)

/-- An edit that is made leaves the graph tidy, and so it does when it is taken back. A new node is
looked at on its own. -/
theorem of_makes (he : e.Tidy) (h : e.Makes op c d) (hop : ∀ id tag position,
    op ≠ .addNode id tag position) : (e.update d (e.history.record c)).Tidy := by
  cases h with
  | addNode add => exact absurd rfl (hop _ _ _)
  | connect link => exact he.record (he.graph.link link) trivial
  | disconnect unlink =>
      obtain ⟨hg, hslots⟩ := he.graph.unlink unlink
      exact he.record hg hslots
  | deleteNode remove =>
      obtain ⟨hg, hn⟩ := he.graph.removeNode remove
      exact he.record hg ⟨hn.named, hn.plain.outputs, hn.plain.names, hn.plain.fits⟩
  | moveNode box_eq => exact he.record he.graph trivial
  | setStart set => exact he.record (he.graph.setStart set) trivial

theorem of_saves (he : e.Tidy) {e' : Editor β} (h : e.Saves e') : e'.Tidy := by
  cases h with
  | failed => exact ⟨he.kinds, he.graph.overlay e.view, he.past, he.future⟩
  | written path => exact ⟨he.kinds, he.graph.overlay e.view, he.past, he.future⟩

theorem addNode (he : e.Tidy) (hid : id ≠ ⟨""⟩) (tag : String) (position : Option Position) :
    ((Operation.addNode id tag position).after e).Tidy := by
  rw [Operation.after, Operation.perform, Editor.addNode]
  cases hkind : e.kinds.kind? tag with
  | none => exact he
  | some kind =>
      dsimp only
      generalize hnode : Node.mk kind.tag id kind.label _ [] kind.defaults = node
      have hn : node.Tidy := by
        have hplain := he.kinds kind (List.mem_of_find?_eq_some hkind)
        rw [← hnode]
        exact ⟨hid, List.not_mem_nil, fun m hm => (hplain m hm).1, fun m hm => (hplain m hm).2⟩
      cases hadd : e.graph.addNode node with
      | error x => exact he
      | ok graph =>
          have hg := he.graph.insertNode hn hadd
          refine he.record ⟨?_, ?_⟩ hn
          · dsimp only
            split_ifs
            · simpa using hid
            · exact hg.start
          · dsimp only
            split_ifs
            · exact hg.nodes
            · exact hg.nodes

theorem undo (he : e.Tidy) : e.undo.2.Tidy := by
  cases hpop : e.history.popUndo? with
  | none =>
      rw [undo_of_none hpop]
      exact he
  | some r =>
      obtain ⟨c, history⟩ := r
      obtain ⟨hc, hrest⟩ := he.edits.popUndo hpop
      cases hrevert : e.revert c with
      | error x =>
          rw [undo_of_error hpop hrevert]
          exact ⟨he.kinds, he.graph, hrest.undo, hrest.redo⟩
      | ok d =>
          have hg : d.graph.Tidy := Draft.tidy_revert he.graph hc hrevert
          rw [undo_of_ok hpop hrevert]
          exact he.update hg (hrest.pushRedo hc)

theorem redo (he : e.Tidy) : e.redo.2.Tidy := by
  cases hpop : e.history.popRedo? with
  | none =>
      rw [redo_of_none hpop]
      exact he
  | some r =>
      obtain ⟨c, history⟩ := r
      obtain ⟨hc, hrest⟩ := he.edits.popRedo hpop
      cases happly : e.apply c with
      | error x =>
          rw [redo_of_error hpop happly]
          exact ⟨he.kinds, he.graph, hrest.undo, hrest.redo⟩
      | ok d =>
          have hg : d.graph.Tidy := Draft.tidy_apply he.graph hc happly
          rw [redo_of_ok hpop happly]
          exact he.update hg (hrest.remember hc)

/-- Every operation that adds no node with the empty name keeps an editor tidy. -/
theorem after (he : e.Tidy) (hm : e.Mirrors e.kinds) (hop : op.Named) : (op.after e).Tidy := by
  by_cases hadd : ∃ id tag position, op = .addNode id tag position
  · obtain ⟨id, tag, position, rfl⟩ := hadd
    exact he.addNode hop tag position
  by_cases hundo : op = .undo
  · rw [hundo]
    exact he.undo
  by_cases hredo : op = .redo
  · rw [hredo]
    exact he.redo
  rcases after_cases hm hundo hredo with ⟨-, c, d, hmakes, hafter⟩ | ⟨-, hafter | hsaves⟩
  · rw [hafter]
    exact he.of_makes hmakes fun id tag position heq => hadd ⟨id, tag, position, heq⟩
  · rw [hafter]
    exact he
  · exact he.of_saves hsaves

theorem run {asset : Graph} (he : e.Tidy) (hs : e.Steady asset) {ops : List Operation}
    (hops : ∀ op ∈ ops, op.Named) : (e.run ops).Tidy := by
  induction ops generalizing e with
  | nil => exact he
  | cons op ops ih =>
      obtain ⟨hop, hops⟩ := List.forall_mem_cons.1 hops
      exact ih (he.after hs.mirrors hop) (hs.after op) hops

end Tidy

theorem tidy_load {text : String} (e : Editor β) (hkinds : e.kinds.Plain)
    (hread : Graph.read text = .ok g) (hnamed : ∀ n ∈ g.nodes, n.id ≠ ⟨""⟩) :
    (e.load g).Tidy := by
  have hplain := Graph.plain_of_read hread
  refine ⟨hkinds, ⟨hplain.start, fun n hn => ⟨hnamed n hn, hplain.nodes n hn⟩⟩, ?_, ?_⟩
  · exact fun c hc => absurd hc List.not_mem_nil
  · exact fun c hc => absurd hc List.not_mem_nil

theorem saveAs_eq (hd : e.Mirrors e.kinds) (folder : Folder) {path : String}
    (hpath : Folder.isFileName path = true) : e.saveAs folder path =
      (.ok (), { e with graph := e.form, path := some path, dirty := false },
        ⟨folder.files.insert path e.form.write⟩) := by
  have hwrite : folder.write? path e.form.write = some ⟨folder.files.insert path e.form.write⟩ :=
    if_pos hpath
  rw [saveAs, settled_eq hd]
  simp only [hwrite]

theorem read?_of_saveAs {folder folder' : Folder} {path : String} {e' : Editor β}
    (h : e.saveAs folder path = (.ok (), e', folder')) :
    folder'.read? path = some e'.graph.write := by
  unfold saveAs at h
  split at h
  · cases h
  · split at h
    · cases h
    · rename_i graph _ _ folder'' hwrite
      obtain ⟨-, rfl, rfl⟩ := h
      unfold Folder.write? at hwrite
      split_ifs at hwrite
      obtain rfl := Option.some.inj hwrite
      rw [Folder.read?, Table.get?_insert, if_pos rfl]

end Editor

/-- What becomes of a graph when its document is opened: it is the same graph, unless a coordinate
is infinite or no number; then there is no graph. -/
structure Graph.Reopens (g : Graph) (text : String) : Prop where
  finite : g.IsFinite → Graph.read text = .ok g
  infinite : ¬g.IsFinite → Graph.read text = .error .json

theorem Graph.ReadsBack.reopens (hg : g.ReadsBack) (hplain : g.Plain) : g.Reopens g.write :=
  ⟨fun h => hg.read_write_iff.2 ⟨h, hplain⟩, hg.read_write_of_infinite⟩

namespace Editor

/-- Every asset that is accepted, and every file that is saved in a session on one, is opened again
as it is, as long as all coordinates are finite: numbers are assumed to be read as they were
written. In a session no node has the empty name, and no kind has settings that are named like the
fields of a node. Where anything goes, a file that was saved is opened again as it is exactly if the
graph is finite and plain. -/
theorem saved_reopens :
    (∀ (text : String) (g : Graph), Graph.read text = .ok g → g.ReadsBack → g.Reopens g.write) ∧
      (∀ (text : String) (asset : Graph), Graph.read text = .ok asset →
        (∀ n ∈ asset.nodes, n.id ≠ ⟨""⟩) → ∀ (e : Editor β), e.kinds.Plain →
        ∀ ops : List Operation, (∀ op ∈ ops, op.Named) →
        ∀ (folder folder' : Folder) (path : String) (e' : Editor β),
          ((e.load asset).run ops).saveAs folder path = (.ok (), e', folder') →
          e'.graph.ReadsBack →
            ∃ saved, folder'.read? path = some saved ∧ e'.graph.Reopens saved) ∧
      ∀ (e e' : Editor β) (folder folder' : Folder) (path : String),
        e.saveAs folder path = (.ok (), e', folder') → e'.graph.ReadsBack →
          ∃ saved, folder'.read? path = some saved ∧
            (Graph.read saved = .ok e'.graph ↔ e'.graph.IsFinite ∧ e'.graph.Plain) := by
  refine ⟨?_, ?_, ?_⟩
  · exact fun text g hread hg => hg.reopens (Graph.plain_of_read hread)
  · intro text asset hread hnamed e hkinds ops hops folder folder' path e' hsave hg
    have hsteady := steady_load e (Graph.plain_of_read hread).unique
    have htidy := (tidy_load e hkinds hread hnamed).run hsteady hops
    have hmirrors := (hsteady.run ops).mirrors
    have hsaves := saves_saveAs hmirrors folder path
    rw [hsave] at hsaves
    have hplain := (htidy.of_saves hsaves).graph.plain
      ((hsteady.run ops).of_saves hsaves).anchored.unique
    exact ⟨_, read?_of_saveAs hsave, hg.reopens hplain⟩
  · exact fun e e' folder folder' path hsave hg =>
      ⟨_, read?_of_saveAs hsave, hg.read_write_iff⟩

def hallText : String :=
  "\x7b\"startNodeId\":\"hall\",\"nodes\":[\x7b\"typeTag\":\"raise_event\",\"id\":\"hall\"," ++
    "\"key\":\"bell\"\x7d]\x7d"

def hall (position : Position) : Graph where
  start := some ⟨"hall"⟩
  nodes := [{ kind := "raise_event", id := ⟨"hall"⟩, position
              properties := .ofList [("key", .string "bell")] }]

theorem readsBack_hall {position : Position} (h : position.ReadsBack) :
    (hall position).ReadsBack := by
  refine List.forall_mem_singleton.2 ⟨h, ?_⟩
  exact List.forall_mem_singleton.2 (.string "bell")

/-- The asset is moved to `(1.5, -2)` and saved. -/
theorem saved_reopens_hall :
    let place : Position := ⟨⟨false, 0x3fc00000, by decide⟩, ⟨true, 0x40000000, by decide⟩⟩
    let e : Editor (Behaviour Unit) := Editor.empty Builtin.registry {}
    let saved := (((e.load (hall .origin)).run [.moveNode ⟨"hall"⟩ place]).saveAs {} "hall.json")
    Graph.read hallText = .ok (hall .origin) ∧
      Graph.read (hall .origin).write = .ok (hall .origin) ∧
      saved.2.1.graph = hall place ∧
      ∃ text, saved.2.2.read? "hall.json" = some text ∧ Graph.read text = .ok (hall place) := by
  intro place e saved
  have hread : Graph.read hallText = .ok (hall .origin) := by cbv
  have horigin : (hall .origin).ReadsBack := readsBack_hall
    ⟨fun _ => by decide +kernel, fun _ => by decide +kernel⟩
  have hplace : (hall place).ReadsBack := readsBack_hall
    ⟨fun _ => by decide +kernel, fun _ => by decide +kernel⟩
  have hnamed : ∀ n ∈ (hall .origin).nodes, n.id ≠ ⟨""⟩ := by decide
  have hkinds : e.kinds.Plain := Builtin.plain_registry
  have hmirrors := ((steady_load e (Graph.plain_of_read hread).unique).run
    [.moveNode ⟨"hall"⟩ place]).mirrors
  have hpath : Folder.isFileName "hall.json" = true := by cbv
  have hsaved : saved = _ := saveAs_eq hmirrors {} hpath
  have hsave : saved = (.ok (), saved.2.1, saved.2.2) := by
    rw [hsaved]
  have hgraph : saved.2.1.graph = hall place := by
    rw [hsaved]
    rfl
  obtain ⟨hasset, hsession, -⟩ := saved_reopens (β := Behaviour Unit)
  refine ⟨hread, (hasset _ _ hread horigin).finite ?_, hgraph, ?_⟩
  · exact List.forall_mem_singleton.2 ⟨by decide, by decide⟩
  · obtain ⟨text, htext, hreopens⟩ := hsession _ _ hread hnamed e hkinds
      [.moveNode ⟨"hall"⟩ place] (by simp [Operation.Named]) {} saved.2.2 "hall.json" saved.2.1
      hsave (hgraph ▸ hplace)
    rw [hgraph] at hreopens
    refine ⟨text, htext, hreopens.finite ?_⟩
    exact List.forall_mem_singleton.2 ⟨by decide, by decide⟩

end Editor

end StoryGraph
