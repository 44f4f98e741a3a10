import StoryGraph.Proofs.Editor.Clean
import StoryGraph.Proofs.Editor.Session

/-!
# Where nodes are put

A node has a position in the graph and one in the view, where it is moved. What the graph has of it
is written down beside the editor (`Chart`), from what is done with the editor and from what is
seen, and never from what a command holds.

A save writes down what is seen, also if the file cannot be written. Apart from saves only a node
that comes into the graph gets a position: one that is added, one that is added again, and one whose
deletion is taken back. The last is put where its box was when it was deleted, and not where the
graph had it; so a node that is moved, deleted and brought back is in its new place before anything
is saved (`Editor.positions_charted`).
-/

namespace StoryGraph

variable {β : Type} {g g' : Graph} {id source target : NodeId} {n : Node}

/-! ### Names and positions -/

def Node.spot (n : Node) : NodeId × Position := (n.id, n.position)

def View.spot? (v : View) (id : NodeId) : Option Position := (v.node? id).map ViewNode.position

namespace Graph

def spots (g : Graph) : List (NodeId × Position) := g.nodes.map Node.spot

def spot? (g : Graph) (id : NodeId) : Option Position := (g.node? id).map Node.position

theorem mem_of_mem_spots {p : NodeId × Position} (h : p ∈ g.spots) : p.1 ∈ g := by
  obtain ⟨n, hn, rfl⟩ := List.mem_map.1 h
  exact mem_iff.2 ⟨n, hn, rfl⟩

theorem spot?_eq (hu : g.Unique) {p : NodeId × Position} (h : p ∈ g.spots) :
    g.spot? p.1 = some p.2 := by
  obtain ⟨n, hn, rfl⟩ := List.mem_map.1 h
  rw [Node.spot, spot?, (node?_eq_some_iff hu).2 ⟨hn, rfl⟩]
  rfl

def Stays (g : Graph) (new : Option Node) (g' : Graph) : Prop :=
  ∀ p ∈ g'.spots, p ∈ g.spots ∨ ∃ n ∈ new, n.id ∉ g ∧ p = n.spot

variable {new : Option Node}

theorem stays_of_subset (h : g'.spots ⊆ g.spots) : g.Stays new g' := fun _ hp => .inl (h hp)

theorem stays_of_spots_eq (h : g'.spots = g.spots) : g.Stays new g' :=
  stays_of_subset fun _ hp => h ▸ hp

theorem stays_of_perm (h : g'.spots.Perm (n.spot :: g.spots)) (hid : n.id ∉ g) :
    g.Stays (some n) g' := by
  intro p hp
  rcases List.mem_cons.1 (h.subset hp) with rfl | hp
  · exact .inr ⟨n, rfl, hid, rfl⟩
  · exact .inl hp

end Graph

theorem View.spot?_sync (v : View) (hu : g.Unique) (kinds : Registry β) (hn : n ∈ g.nodes) :
    (v.sync kinds g).spot? n.id = some (v.reposition n).position := by
  rw [spot?, sync_eq_build, node?_build, Graph.node?_overlay,
    (Graph.node?_eq_some_iff hu).2 ⟨hn, rfl⟩]
  rfl

namespace Draft

variable {d d' : Draft} {c : Command} {kinds : Registry β}

theorem stays_remove {new : Option Node} (h : d.remove id = .ok d') :
    d.graph.Stays new d'.graph := by
  obtain ⟨removed, hremove⟩ := exists_of_remove h
  exact Graph.stays_of_subset (Graph.map_sublist_of_removeNode (fun _ _ => rfl) hremove).subset

theorem stays_place {new : Option Node} {position : Position} (h : d.place id position = .ok d') :
    d.graph.Stays new d'.graph :=
  Graph.stays_of_spots_eq (congrArg Graph.spots (graph_of_place h))

theorem stays_setStart {new : Option Node} (h : d.graph.setStart id = .ok g) :
    d.graph.Stays new g := by
  obtain ⟨-, rfl⟩ := Graph.setStart_eq_ok_iff.1 h
  exact Graph.stays_of_spots_eq rfl

end Draft

namespace Command

def added? : Command → Option Node
  | addNode node _ => some node
  | _ => none

def restored? : Command → Option Node
  | deleteNode removed => some removed.node
  | _ => none

end Command

namespace Draft

variable {d d' : Draft} {c : Command} {kinds : Registry β}

theorem stays_apply (h : d.apply c = .ok d') : d.graph.Stays c.added? d'.graph := by
  cases c with
  | addNode node becameStart =>
      obtain ⟨g, hadd, hrest⟩ := exists_of_addNode h
      have hperm := (Graph.nodes_perm_of_insertNode hadd).map Node.spot
      have hid := (Graph.insertNode_eq_ok_iff.1 hadd).1
      rcases hrest with hsame | hset
      · rw [hsame]
        exact Graph.stays_of_perm hperm hid
      · obtain ⟨-, hset⟩ := Graph.setStart_eq_ok_iff.1 hset
        rw [hset]
        exact Graph.stays_of_perm hperm hid
  | deleteNode removed => exact stays_remove h
  | connect source target =>
      obtain ⟨isNew, hlink⟩ := exists_of_map h
      exact Graph.stays_of_spots_eq (Graph.map_of_link (fun _ _ => rfl) hlink)
  | disconnect source target slots =>
      obtain ⟨slots, hunlink⟩ := exists_of_map h
      exact Graph.stays_of_spots_eq (Graph.map_of_unlink (fun _ _ => rfl) hunlink)
  | move id before after => exact stays_place h
  | setStart before after => exact stays_setStart (exists_of_change h)

theorem stays_revert (h : d.revert c = .ok d') : d.graph.Stays c.restored? d'.graph := by
  cases c with
  | addNode node becameStart => exact stays_remove h
  | deleteNode removed =>
      have hrestore := exists_of_change h
      exact Graph.stays_of_perm (Graph.map_perm_of_restoreNode (fun _ _ => rfl) hrestore)
        (Graph.exists_restoreNode_iff.1 ⟨_, hrestore⟩)
  | connect source target =>
      obtain ⟨held, hpop⟩ := exists_of_map h
      exact Graph.stays_of_spots_eq (Graph.map_of_popLink (fun _ _ => rfl) hpop)
  | disconnect source target slots =>
      exact Graph.stays_of_spots_eq (Graph.map_of_modify? (exists_of_change h) fun _ => rfl)
  | move id before after => exact stays_place h
  | setStart before after =>
      cases before with
      | none =>
          obtain rfl := Except.ok.inj h
          exact Graph.stays_of_spots_eq rfl
      | some before => exact stays_setStart (exists_of_change h)

theorem Mirrors.spot?_eq (hd : d.Mirrors kinds) (hn : n ∈ d.form.nodes) :
    d.view.spot? n.id = some n.position := by
  rw [hd.view_eq]
  exact View.spot?_sync {} hd.unique_form kinds hn

end Draft

/-! ### Charts -/

/-- Where nodes have been put in the graph of an editor, and the moments before and after each edit
of its history. -/
structure Chart where
  place : NodeId → Option Position := fun _ => none
  edits : History (Moment × Moment)

namespace Chart

/-- Where a node is put that comes into the graph. One that is added is put where it was asked for
or where there is room. Otherwise it is put where its box was, before the edit that is taken back or
after the edit that is done again. -/
def arrival (c : Chart) (e : Editor β) (op : Operation) (id : NodeId) : Option Position :=
  match op with
  | .addNode _ _ position => some (e.config.snap (position.getD e.freePosition))
  | .undo => c.edits.popUndo?.bind fun r => r.1.1.seen.spot? id
  | .redo => c.edits.popRedo?.bind fun r => r.1.2.seen.spot? id
  | _ => none

/-- Where nodes are put by an operation. A save that gets as far as the file puts them where they
are seen; nothing else moves a node that is there. -/
def placed (c : Chart) (e : Editor β) (op : Operation) (id : NodeId) : Option Position :=
  match op with
  | .save _ => if e.path.isSome then e.view.spot? id else c.place id
  | .saveAs _ _ => e.view.spot? id
  | op => if id ∈ e.graph then c.place id else c.arrival e op id

def after (c : Chart) (e : Editor β) : Use → Chart
  | .operate op => { place := c.placed e op, edits := Session.turn ⟨e, c.edits⟩ op }
  | use => (use.kept? e).elim c fun graph => { place := graph.spot?, edits := c.edits.clear }

end Chart

namespace Editor

def chart (e : Editor β) (c : Chart) : List Use → Chart
  | [] => c
  | use :: uses => (use.perform e).2.chart (c.after e use) uses

structure Records (entry : Command × Moment × Moment) : Prop where
  restored : ∀ n ∈ entry.1.restored?, entry.2.1.seen.spot? n.id = some n.position
  added : ∀ n ∈ entry.1.added?, entry.2.2.seen.spot? n.id = some n.position

structure Charted (c : Chart) (e : Editor β) : Prop where
  place : ∀ p ∈ e.graph.spots, c.place p.1 = some p.2
  edits : ∃ h : History (Command × Moment × Moment), h.map Prod.fst = e.history ∧
    h.map Prod.snd = c.edits ∧ h.All Records

variable {e : Editor β} {c : Chart} {op : Operation} {cmd : Command} {d : Draft} {asset : Graph}
  {history : History Command} {use : Use}

theorem records_of_makes (h : e.Makes op cmd d) (hd : e.Mirrors e.kinds)
    (hd' : (e.update d history).Mirrors e.kinds) :
    Records (cmd, e.moment, (e.update d history).moment) := by
  cases h with
  | @addNode tag position node graph add =>
      refine ⟨fun _ hn => absurd hn (Option.not_mem_none _), ?_⟩
      rintro _ ⟨⟩
      obtain ⟨hnew, rfl⟩ := Graph.addNode_eq_ok_iff.1 add
      have hbox := View.spot?_sync e.view hd'.unique e.kinds (n := node) (by simp [update])
      rw [View.reposition_of_node?_eq_none (hd.node?_eq_none hnew)] at hbox
      exact hbox
  | @deleteNode id removed graph remove =>
      refine ⟨?_, fun _ hn => absurd hn (Option.not_mem_none _)⟩
      rintro _ ⟨⟩
      obtain ⟨hnode, -⟩ := Graph.exists_of_removeNode remove
      have hmem : e.view.reposition removed.node ∈ e.form.nodes :=
        List.mem_map_of_mem (List.mem_of_getElem? hnode)
      exact hd.spot?_eq hmem
  | connect | disconnect | moveNode | setStart =>
      exact ⟨fun _ hn => absurd hn (Option.not_mem_none _),
        fun _ hn => absurd hn (Option.not_mem_none _)⟩

namespace Charted

/-- An operation that is not to write a file leaves a charted editor if the node that comes into the
graph is put where the chart puts it. -/
theorem of_stays {e' : Editor β} (he : Charted c e) (hop : op.saves = false) {new : Option Node}
    (hg : e.graph.Stays new e'.graph) (hnew : ∀ n ∈ new, c.arrival e op n.id = some n.position)
    {h : History (Command × Moment × Moment)} (hhistory : h.map Prod.fst = e'.history)
    (hledger : h.map Prod.snd = Session.turn ⟨e, c.edits⟩ op) (hall : h.All Records) :
    Charted (c.after e (.operate op)) e' := by
  have hplaced : ∀ id, c.placed e op id =
      if id ∈ e.graph then c.place id else c.arrival e op id := by
    cases op <;> first | exact fun _ => rfl | cases hop
  refine ⟨fun p hp => ?_, h, hhistory, hledger, hall⟩
  change c.placed e op p.1 = some p.2
  rw [hplaced]
  rcases hg p hp with hold | ⟨n, hn, hid, rfl⟩
  · rw [if_pos (Graph.mem_of_mem_spots hold)]
    exact he.place p hold
  · rw [Node.spot, if_neg hid]
    exact hnew n hn

theorem of_graph_eq {e' : Editor β} (he : Charted c e) (hop : op.saves = false)
    (hg : e'.graph = e.graph) {h : History (Command × Moment × Moment)}
    (hhistory : h.map Prod.fst = e'.history)
    (hledger : h.map Prod.snd = Session.turn ⟨e, c.edits⟩ op) (hall : h.All Records) :
    Charted (c.after e (.operate op)) e' := by
  have hstays : e.graph.Stays none e'.graph := Graph.stays_of_spots_eq (congrArg Graph.spots hg)
  exact he.of_stays hop hstays (fun _ hn => absurd hn (Option.not_mem_none _)) hhistory hledger hall

theorem of_makes (he : Charted c e) (hs : e.Steady asset) (hop : op.saves = false)
    (hundo : op ≠ .undo) (hredo : op ≠ .redo) (hedits : op.edits e = true)
    (h : e.Makes op cmd d) (hafter : op.after e = e.update d (e.history.record cmd))
    (hnew : ∀ n ∈ cmd.added?, c.arrival e op n.id = some n.position) :
    Charted (c.after e (.operate op)) (op.after e) := by
  obtain ⟨l, hhistory, hledger, hall⟩ := he.edits
  obtain ⟨-, happly⟩ := h.fits hs.mirrors hs.anchored
  have hstays : e.graph.Stays cmd.added? d.graph := Draft.stays_apply happly
  have hstays' : e.graph.Stays cmd.added? (op.after e).graph := hafter ▸ hstays
  have hrecords := records_of_makes h hs.mirrors (hs.of_makes h).mirrors
  rw [← hafter] at hrecords
  refine he.of_stays hop hstays' hnew (h := l.record (cmd, e.moment, (op.after e).moment)) ?_ ?_
    (hall.record hrecords)
  · rw [History.map_record, hhistory, hafter]
    rfl
  · rw [History.map_record, hledger, Session.turn_eq _ hundo hredo, if_pos hedits]

theorem undo (he : Charted c e) : Charted (c.after e (.operate .undo)) e.undo.2 := by
  obtain ⟨h, hhistory, hledger, hall⟩ := he.edits
  have hpop₁ := History.popUndo?_map Prod.fst h
  have hpop₂ := History.popUndo?_map Prod.snd h
  rw [hhistory] at hpop₁
  rw [hledger] at hpop₂
  cases hpop : h.popUndo? with
  | none =>
      rw [hpop] at hpop₁
      have hundo := undo_of_none hpop₁
      rw [hundo]
      refine he.of_graph_eq rfl rfl hhistory ?_ hall
      rw [hledger, Session.turn, hundo]
  | some r =>
      obtain ⟨⟨cmd, before, after⟩, h'⟩ := r
      rw [hpop] at hpop₁ hpop₂
      obtain ⟨hrecords, hrest⟩ := hall.popUndo hpop
      cases hr : e.revert cmd with
      | error x =>
          have hundo := undo_of_error hpop₁ hr
          rw [hundo]
          refine he.of_graph_eq rfl rfl rfl ?_ hrest
          rw [Session.turn, hundo, hpop₂]
          rfl
      | ok d =>
          have hundo := undo_of_ok hpop₁ hr
          have hstays : e.graph.Stays cmd.restored? d.graph := Draft.stays_revert hr
          rw [hundo]
          refine he.of_stays rfl hstays ?_ (h := h'.pushRedo (cmd, before, after)) rfl ?_
            (hrest.pushRedo hrecords)
          · intro n hn
            rw [Chart.arrival, hpop₂]
            exact hrecords.restored n hn
          · rw [Session.turn, hundo, hpop₂]
            rfl

theorem redo (he : Charted c e) : Charted (c.after e (.operate .redo)) e.redo.2 := by
  obtain ⟨h, hhistory, hledger, hall⟩ := he.edits
  have hpop₁ := History.popRedo?_map Prod.fst h
  have hpop₂ := History.popRedo?_map Prod.snd h
  rw [hhistory] at hpop₁
  rw [hledger] at hpop₂
  cases hpop : h.popRedo? with
  | none =>
      rw [hpop] at hpop₁
      have hredo := redo_of_none hpop₁
      rw [hredo]
      refine he.of_graph_eq rfl rfl hhistory ?_ hall
      rw [hledger, Session.turn, hredo]
  | some r =>
      obtain ⟨⟨cmd, before, after⟩, h'⟩ := r
      rw [hpop] at hpop₁ hpop₂
      obtain ⟨hrecords, hrest⟩ := hall.popRedo hpop
      cases hr : e.apply cmd with
      | error x =>
          have hredo := redo_of_error hpop₁ hr
          rw [hredo]
          refine he.of_graph_eq rfl rfl rfl ?_ hrest
          rw [Session.turn, hredo, hpop₂]
          rfl
      | ok d =>
          have hredo := redo_of_ok hpop₁ hr
          have hstays : e.graph.Stays cmd.added? d.graph := Draft.stays_apply hr
          rw [hredo]
          refine he.of_stays rfl hstays ?_ (h := h'.remember (cmd, before, after))
            (History.map_remember ..) ?_ (hrest.remember hrecords)
          · intro n hn
            rw [Chart.arrival, hpop₂]
            exact hrecords.added n hn
          · rw [Session.turn, hredo, hpop₂, History.map_remember]
            rfl

theorem of_saves {e' : Editor β} (he : Charted c e) (hd : e.Mirrors e.kinds) (h : e.Saves e')
    (hplaced : ∀ id, c.placed e op id = e.view.spot? id)
    (hturn : Session.turn ⟨e, c.edits⟩ op = c.edits) : Charted (c.after e (.operate op)) e' := by
  have hplace : ∀ p ∈ e.form.spots, (c.after e (.operate op)).place p.1 = some p.2 :=
    List.forall_mem_map.2 fun n hn => (hplaced n.id).trans (hd.spot?_eq hn)
  obtain ⟨l, hhistory, hledger, hall⟩ := he.edits
  cases h with
  | failed => exact ⟨hplace, l, hhistory, hledger.trans hturn.symm, hall⟩
  | written path => exact ⟨hplace, l, hhistory, hledger.trans hturn.symm, hall⟩

theorem save (he : Charted c e) (hd : e.Mirrors e.kinds) (hop : op.saves = true) :
    Charted (c.after e (.operate op)) (op.after e) := by
  cases op with
  | saveAs folder path => exact he.of_saves hd (saves_saveAs hd folder path) (fun _ => rfl) rfl
  | save folder =>
      cases hpath : e.path with
      | none =>
          have hafter : (Operation.save folder).after e = e := by
            rw [Operation.after, Operation.perform, Editor.save, hpath]
            rfl
          have hplaced : ∀ id, c.placed e (.save folder) id = c.place id := by
            simp [Chart.placed, hpath]
          rw [hafter]
          exact ⟨fun p hp => (hplaced p.1).trans (he.place p hp), he.edits⟩
      | some path =>
          have hafter : (Operation.save folder).after e = (e.saveAs folder path).2.1 := by
            rw [Operation.after, Operation.perform, Editor.save, hpath]
            rfl
          have hplaced : ∀ id, c.placed e (.save folder) id = e.view.spot? id := by
            simp [Chart.placed, hpath]
          rw [hafter]
          exact he.of_saves hd (saves_saveAs hd folder path) hplaced rfl
  | _ => cases hop

theorem of_idle (he : Charted c e) (hop : op.saves = false) (hundo : op ≠ .undo)
    (hredo : op ≠ .redo) (hedits : op.edits e = false) : Charted (c.after e (.operate op)) e := by
  obtain ⟨l, hhistory, hledger, hall⟩ := he.edits
  refine he.of_graph_eq hop rfl hhistory ?_ hall
  rw [hledger, Session.turn_eq _ hundo hredo, hedits]
  rfl

theorem addNode (he : Charted c e) (hs : e.Steady asset) (new : NodeId) (tag : String)
    (position : Option Position) : Charted (c.after e (.operate (.addNode new tag position)))
      ((Operation.addNode new tag position).after e) := by
  rcases e.perform_addNode_cases new tag position with
    ⟨x, h⟩ | ⟨node, cmd, d, hmakes, rfl, -, hplace, h⟩
  · rw [after_eq h]
    exact he.of_idle rfl nofun nofun (edits_eq h)
  · refine he.of_makes hs rfl nofun nofun (edits_eq h) hmakes (after_eq h) ?_
    rintro _ ⟨⟩
    exact congrArg some hplace.symm

/-- Every operation leads from a charted editor to one that is charted after it. -/
theorem operate (he : Charted c e) (hs : e.Steady asset) (op : Operation) :
    Charted (c.after e (.operate op)) (op.after e) := by
  by_cases hundo : op = .undo
  · rw [hundo]
    exact he.undo
  by_cases hredo : op = .redo
  · rw [hredo]
    exact he.redo
  cases hop : op.saves with
  | true => exact he.save hs.mirrors hop
  | false =>
      rcases edit_cases hs.mirrors hop hundo hredo with
        ⟨hedits, cmd, d, hmakes, hafter⟩ | ⟨hedits, hafter⟩
      · by_cases hadd : ∃ new tag position, op = .addNode new tag position
        · obtain ⟨new, tag, position, rfl⟩ := hadd
          exact he.addNode hs new tag position
        · refine he.of_makes hs hop hundo hredo hedits hmakes hafter ?_
          cases hmakes with
          | addNode => exact absurd ⟨_, _, _, rfl⟩ hadd
          | _ => exact fun _ hn => absurd hn (Option.not_mem_none _)
      · rw [hafter]
        exact he.of_idle hop hundo hredo hedits

theorem load (he : Charted c e) (hu : g.Unique) (path : Option String) :
    Charted { place := g.spot?, edits := c.edits.clear } { e.load g with path } := by
  obtain ⟨l, hhistory, hledger, -⟩ := he.edits
  exact ⟨fun p hp => Graph.spot?_eq hu hp, l.clear, congrArg History.clear hhistory,
    congrArg History.clear hledger, .clear Records l⟩

theorem perform (he : Charted c e) (hs : e.Steady asset)
    (hload : ∀ graph, use = .load graph → graph.Unique) :
    Charted (c.after e use) (use.perform e).2 := by
  cases use with
  | load graph => exact he.load (hload graph rfl) none
  | new => exact he.load Graph.unique_empty none
  | operate op => exact he.operate hs op
  | openFile folder path =>
      change Charted ((Use.kept? (.openFile folder path) e).elim c _) (e.openFile folder path).2
      rw [Use.kept?, openFile]
      cases folder.read? path with
      | none => exact he
      | some text =>
          dsimp only [Option.bind_some]
          cases hread : Graph.read text with
          | error x => exact he
          | ok graph => exact he.load (unique_of_read hread) (some path)

theorem used (he : Charted c e) (hs : e.Steady asset) {uses : List Use}
    (hloads : ∀ graph, .load graph ∈ uses → graph.Unique) :
    Charted (e.chart c uses) (e.used uses) := by
  induction uses generalizing e c asset with
  | nil => exact he
  | cons use uses ih =>
      have hload : ∀ graph, use = .load graph → graph.Unique := fun graph huse =>
        hloads graph (huse ▸ List.mem_cons_self)
      obtain ⟨_, hperform⟩ := hs.perform hload
      exact ih (he.perform hs hload) hperform fun graph hmem =>
        hloads graph (List.mem_cons_of_mem use hmem)

end Charted

end Editor

/-! ### Deletions that are taken back -/

namespace Graph

theorem setPosition_eq_self_iff (hu : g.Unique) (hn : g.node? id = some n) {position : Position} :
    g.setPosition id position = .ok g ↔ n.position = position := by
  have hmem : id ∈ g := node?_isSome_iff.1 (hn ▸ rfl)
  rw [setPosition, modify?_eq_ok_iff, and_iff_right hmem]
  constructor
  · intro h
    have hnode := node?_modify (f := fun n => { n with position }) hu id fun _ => rfl
    rw [← h, hn, Option.map_some] at hnode
    exact congrArg Node.position (Option.some.inj hnode)
  · rintro rfl
    refine (modify_eq_self hu fun m hm => ?_).symm
    obtain rfl := Option.some.inj (hn.symm.trans hm)
    rfl

/-- A node that is put elsewhere after it was removed comes back there, and nothing else of the
graph changes. -/
theorem exists_restoreNode_moved (hu : g.Unique) {removed : RemovedNode}
    (h : g.removeNode id = some (removed, g')) {box : ViewNode} (hbox : box.id = id) :
    ∃ moved, g.setPosition id box.position = .ok moved ∧
      g'.restoreNode { removed with node := { removed.node with position := box.position } } =
        .ok moved := by
  obtain ⟨-, hid, -⟩ := exists_of_removeNode h
  let v : View := { nodes := [box] }
  have hset : g.setPosition box.id box.position = .ok (g.overlay v) := by
    have hmem : ∀ b ∈ [box], b.id ∈ g :=
      List.forall_mem_singleton.2 (hbox ▸ exists_removeNode_iff.1 ⟨_, h⟩)
    have hnodup : ([box].map ViewNode.id).Nodup := List.nodup_singleton box.id
    have hfold := foldlM_setPosition hu hnodup hmem
    simpa using hfold
  have hnode : v.reposition removed.node = { removed.node with position := box.position } := by
    simp [View.reposition, View.node?, v, hid, hbox]
  -- The view has no box for what is left.
  have hgone : id ∉ g' := not_mem_of_perm hu (ids_perm_of_removeNode h)
  have hrest : g'.overlay v = g' := by
    have hnodes : ∀ m ∈ g'.nodes, v.reposition m = m := by
      intro m hm
      have hne : box.id ≠ m.id := fun heq => hgone (mem_iff.2 ⟨m, hm, heq.symm.trans hbox⟩)
      exact View.reposition_of_node?_eq_none (by simp [View.node?, v, hne])
    rw [overlay, List.map_congr_left hnodes, List.map_id']
  have hremove := overlay_removeNode g v id
  rw [h, Option.map_some, hnode, hrest] at hremove
  exact ⟨g.overlay v, hbox ▸ hset, restoreNode_of_removeNode (unique_overlay hu v) hremove.symm⟩

end Graph

namespace Editor

variable {e : Editor β} {box : ViewNode}

theorem deleteNode_eq {removed : RemovedNode} (h : e.graph.removeNode id = some (removed, g))
    (hbox : e.view.node? id = some box) : (e.deleteNode id).2 = e.commit g
      (.deleteNode { removed with node := { removed.node with position := box.position } }) := by
  rw [deleteNode, h, hbox]
  rfl

/-- A deletion that is taken back moves the node to where it was seen. A history that keeps nothing
cannot take it back. -/
theorem undo_deleteNode (hd : e.Mirrors e.kinds) (hn : e.graph.node? id = some n)
    (hbox : e.view.node? id = some box) :
    (e.history.limit = 0 → (e.deleteNode id).2.undo.1 = .ok false) ∧
      (e.history.limit ≠ 0 → (e.deleteNode id).2.undo.1 = .ok true ∧
        e.graph.setPosition id box.position = .ok (e.deleteNode id).2.undo.2.graph ∧
        ((e.deleteNode id).2.undo.2.graph = e.graph ↔ n.position = box.position)) := by
  obtain ⟨⟨removed, g⟩, hremove⟩ :=
    Graph.exists_removeNode_iff.2 (Graph.node?_isSome_iff.1 (hn ▸ rfl : (e.graph.node? id).isSome))
  rw [deleteNode_eq hremove hbox]
  constructor
  · intro hlimit
    rw [undo_of_none]
    simp [commit, update, History.record, History.remember, History.popUndo?, hlimit]
  · intro hlimit
    obtain ⟨moved, hset, hrestore⟩ :=
      Graph.exists_restoreNode_moved hd.unique hremove (by simpa using List.find?_some hbox)
    let c : Command :=
      .deleteNode { removed with node := { removed.node with position := box.position } }
    obtain ⟨history, hpop⟩ : ∃ history, (e.commit g c).history.popUndo? = some (c, history) := by
      obtain ⟨limit, hsucc⟩ := Nat.exists_eq_succ_of_ne_zero hlimit
      simp [commit, update, History.record, History.remember, History.popUndo?, hsucc]
    have hrevert : (e.commit g c).revert c = .ok { (e.commit g c).toDraft with graph := moved } :=
      congrArg (Draft.change (e.commit g c).toDraft) hrestore
    rw [undo_of_ok hpop hrevert]
    refine ⟨rfl, hset, ?_⟩
    rw [← Graph.setPosition_eq_self_iff hd.unique hn, hset]
    exact ⟨fun heq => congrArg Except.ok heq, fun heq => Except.ok.inj heq⟩

/-- However an editor was used, every node of its graph is where the chart has it. What the chart
writes down is where a node was when it was loaded, where it was put when it was added, where it was
seen at a save, and where it was seen when it was deleted, if that is taken back. So a node that is
deleted and brought back at once is where it was only if it had not been moved since. -/
theorem positions_charted (kinds : Registry β) (config : EditorConfig) {uses : List Use}
    (hloads : ∀ graph, .load graph ∈ uses → graph.Unique) :
    let e := (Editor.empty kinds config).used uses
    let c := (Editor.empty kinds config).chart { edits := { limit := config.historyLimit } } uses
    ∀ n ∈ e.graph.nodes, c.place n.id = some n.position ∧
      ∃ box, e.view.node? n.id = some box ∧
        (e.history.limit = 0 → (e.deleteNode n.id).2.undo.1 = .ok false) ∧
        (e.history.limit ≠ 0 → (e.deleteNode n.id).2.undo.1 = .ok true ∧
          e.graph.setPosition n.id box.position = .ok (e.deleteNode n.id).2.undo.2.graph ∧
          ((e.deleteNode n.id).2.undo.2.graph = e.graph ↔ n.position = box.position)) := by
  intro e c n hn
  have hsteady : (Editor.empty kinds config).Steady {} :=
    steady_load (Editor.empty kinds config) Graph.unique_empty
  have hempty : Charted { edits := { limit := config.historyLimit } } (Editor.empty kinds config) :=
    ⟨fun p hp => absurd hp List.not_mem_nil, { limit := config.historyLimit }, rfl, rfl,
      .clear Records { limit := config.historyLimit }⟩
  have hcharted : Charted c e := hempty.used hsteady hloads
  obtain ⟨_, he⟩ := hsteady.used hloads
  obtain ⟨box, hbox⟩ := Option.isSome_iff_exists.1
    (he.mirrors.node?_isSome_iff.2 (Graph.mem_iff.2 ⟨n, hn, rfl⟩))
  exact ⟨hcharted.place n.spot (List.mem_map_of_mem hn), box, hbox,
    undo_deleteNode he.mirrors ((Graph.node?_eq_some_iff he.mirrors.unique).2 ⟨hn, rfl⟩) hbox⟩

/-- A node is moved, deleted and brought back, and nothing is saved. Then the graph has it in its
new place, as the chart says. -/
theorem positions_charted_moved :
    let e := Editor.empty (β := Unit) {} {}
    let note : Graph := { nodes := [{ kind := "note", id := ⟨"a"⟩ }] }
    let place : Position := ⟨.ofInt .single 5, .zero false⟩
    let moved : List Use := [.load note, .operate (.moveNode ⟨"a"⟩ place)]
    let back := moved ++ [.operate (.deleteNode ⟨"a"⟩), .operate .undo]
    (e.used moved).graph.spot? ⟨"a"⟩ = some .origin ∧
      (e.used moved).view.spot? ⟨"a"⟩ = some place ∧
      (e.used back).graph.spot? ⟨"a"⟩ = some place ∧
      ∃ n ∈ (e.used back).graph.nodes, n.position = place ∧
        (e.chart { edits := { limit := 100 } } back).place n.id = some n.position := by
  intro e note place moved back
  have hloads : ∀ graph, .load graph ∈ back → graph.Unique := by
    intro graph hmem
    have hgraph : graph = note := by simpa [back, moved] using hmem
    rw [hgraph]
    decide
  obtain ⟨n, hn, hplace⟩ : ∃ n ∈ (e.used back).graph.nodes, n.position = place :=
    ⟨_, List.mem_singleton_self _, rfl⟩
  exact ⟨rfl, rfl, rfl, n, hn, hplace, (positions_charted {} {} hloads n hn).1⟩

end Editor

end StoryGraph
