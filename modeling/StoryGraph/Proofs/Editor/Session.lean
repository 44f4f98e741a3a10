import StoryGraph.Proofs.Editor.Exact
import StoryGraph.Proofs.Editor.Operation
import StoryGraph.Proofs.Editor.Trail

/-!
# Undo and redo are exact

A session keeps a ledger beside the history of its editor. For each edit it holds the moments just
before and just after the edit was made, and it is turned over as the history is. Undoing brings
back the moment before the edit, redoing the one after it.
-/

namespace StoryGraph

variable {β : Type}

theorem eq_ok_of_toOption {ε α : Type} {x : Except ε α} {a : α} (h : x.toOption = some a) :
    x = .ok a := by
  cases x with
  | error e => cases h
  | ok b => rw [Option.some.inj h]

structure Moment where
  saved : Graph
  seen : View

def Moment.of (kinds : Registry β) (g : Graph) : Moment := ⟨g, .build kinds g⟩

def Editor.moment (e : Editor β) : Moment := ⟨e.form, e.view⟩

/-- An editor, and the moments before and after each edit of its history. -/
structure Session (β : Type) where
  editor : Editor β
  ledger : History (Moment × Moment)

namespace Session

def begin (e : Editor β) (g : Graph) : Session β :=
  { editor := e.load g, ledger := { limit := e.history.limit } }

/-- The ledger after an operation. The moments of an edit go where the edit goes; those of one that
could not be taken back or done again are lost with it. -/
def turn (s : Session β) (op : Operation) : History (Moment × Moment) :=
  match op with
  | .undo =>
    match s.editor.undo.1, s.ledger.popUndo? with
    | .ok true, some (entry, ledger) => ledger.pushRedo entry
    | .error _, some (_, ledger) => ledger
    | _, _ => s.ledger
  | .redo =>
    match s.editor.redo.1, s.ledger.popRedo? with
    | .ok true, some (entry, ledger) => ledger.remember entry
    | .error _, some (_, ledger) => ledger
    | _, _ => s.ledger
  | op =>
    if op.edits s.editor then s.ledger.record (s.editor.moment, (op.after s.editor).moment)
    else s.ledger

def perform (s : Session β) (op : Operation) : Session β :=
  { editor := op.after s.editor, ledger := s.turn op }

def run (s : Session β) (ops : List Operation) : Session β := ops.foldl perform s

def Fresh (s : Session β) : List Operation → Prop
  | [] => True
  | op :: ops =>
    (∀ new tag position, op = .addNode new tag position →
      ∀ n ∈ s.editor.graph.nodes, ¬n.LinksTo new) ∧ (s.perform op).Fresh ops

def Leads (kinds : Registry β) (entry : Command × Moment × Moment) (before after : Graph) : Prop :=
  entry.1.Exact before after ∧ entry.2 = (.of kinds before, .of kinds after)

/-- The view mirrors the graph, and the history and the ledger are one trail through the form. -/
structure Kept (s : Session β) : Prop where
  mirrors : s.editor.Mirrors s.editor.kinds
  proper : s.editor.form.Proper
  trail : ∃ h : History (Command × Moment × Moment), h.map Prod.fst = s.editor.history ∧
    h.map Prod.snd = s.ledger ∧ h.Trail (Leads s.editor.kinds) s.editor.form

end Session

open Session

/-- An edit that is made is exact between the form before it and the form of the draft. -/
theorem Editor.Makes.exact {e : Editor β} {op : Operation} {c : Command} {d : Draft}
    (h : e.Makes op c d) (hd : e.Mirrors e.kinds) (hg : e.form.Proper)
    (hfresh : ∀ new tag position, op = .addNode new tag position →
      ∀ n ∈ e.graph.nodes, ¬n.LinksTo new) : c.Exact e.form d.form := by
  cases h with
  | @addNode tag position node graph add =>
      obtain ⟨hnew, rfl⟩ := Graph.addNode_eq_ok_iff.1 add
      have hlinks : ∀ m ∈ e.form.nodes, ¬m.LinksTo node.id := by
        intro m hm
        obtain ⟨n, hn, rfl⟩ := List.mem_map.1 hm
        exact hfresh _ _ _ rfl n hn
      have hexact := Command.exact_addNode hg (mt Draft.mem_form.1 hnew) hlinks
      have hself := View.reposition_of_node?_eq_none (hd.node?_eq_none hnew)
      have hnodes : (e.graph.nodes ++ [node]).map e.view.reposition = e.form.nodes ++ [node] := by
        rw [List.map_append, List.map_singleton, hself]
        rfl
      rw [← hnodes] at hexact
      exact hexact
  | @connect source target graph link =>
      have hform : e.form.link source target = .ok (true, graph.overlay e.view) := by
        rw [Draft.form, ← Graph.overlay_link, link]
        rfl
      exact Command.exact_connect hg hform
  | @disconnect source target slots graph unlink =>
      have hform : e.form.unlink source target = .ok (slots, graph.overlay e.view) := by
        rw [Draft.form, ← Graph.overlay_unlink, unlink]
        rfl
      exact Command.exact_disconnect hg hform
  | @deleteNode id removed graph remove =>
      have hform : e.form.removeNode id = some
          ({ removed with node := e.view.reposition removed.node }, graph.overlay e.view) := by
        rw [Draft.form, ← Graph.overlay_removeNode, remove]
        rfl
      exact Command.exact_deleteNode hg hform
  | @moveNode id position box box_eq =>
      obtain ⟨n, hn, rfl⟩ : ∃ n, e.form.node? id = some n ∧ ViewNode.ofNode e.kinds n = box := by
        rw [hd.view_eq, View.node?_build] at box_eq
        exact Option.map_eq_some_iff.1 box_eq
      have hmem : id ∈ e.form := Graph.node?_isSome_iff.1 (hn ▸ rfl)
      have hform := Graph.modify?_eq_ok_iff.2
        ⟨hmem, Draft.form_place hd id (e.config.snap position)⟩
      exact Command.exact_move hg hn hform
  | @setStart id graph set =>
      have hform : e.form.setStart id = .ok (graph.overlay e.view) := by
        rw [Draft.form, ← Graph.overlay_setStart, set]
        rfl
      exact Command.exact_setStart hg hform

namespace Session

variable {s : Session β} {op : Operation} {g : Graph}

theorem Kept.moment_eq (hs : s.Kept) : s.editor.moment = .of s.editor.kinds s.editor.form := by
  rw [Editor.moment, Moment.of, ← hs.mirrors.view_eq]

theorem kept_begin (e : Editor β) (hg : g.Proper) : (begin e g).Kept := by
  have hform : (begin e g).editor.form = g := Draft.form_build hg.unique e.kinds
  refine ⟨Draft.mirrors_build hg.unique e.kinds, ?_, ?_⟩
  · rw [hform]
    exact hg
  · exact ⟨{ limit := e.history.limit }, rfl, rfl, History.trail_empty _ _ _⟩

theorem mirrors_update (e : Editor β) {d : Draft} (hd : d.form.Proper) (history : History Command) :
    (e.update d history).Mirrors e.kinds ∧ (e.update d history).form = d.form := by
  have hu := Draft.unique_form_iff.1 hd.unique
  exact ⟨Draft.mirrors_synced hu e.kinds, Draft.form_synced hu e.kinds⟩

theorem moment_update (e : Editor β) {d : Draft} (hd : d.form.Proper) (history : History Command) :
    (e.update d history).moment = .of e.kinds d.form := by
  obtain ⟨hmirrors, hform⟩ := mirrors_update e hd history
  rw [Editor.moment, Moment.of, hmirrors.view_eq, hform]

theorem kept_update (e : Editor β) {d : Draft} (hd : d.form.Proper)
    {h : History (Command × Moment × Moment)} (ht : h.Trail (Leads e.kinds) d.form) :
    ({ editor := e.update d (h.map Prod.fst), ledger := h.map Prod.snd } : Session β).Kept := by
  obtain ⟨hmirrors, hform⟩ := mirrors_update e hd (h.map Prod.fst)
  refine ⟨hmirrors, ?_, h, rfl, rfl, ?_⟩
  · rw [hform]
    exact hd
  · rw [hform]
    exact ht

/-- What can be taken back is taken back, which brings back the moment before it. -/
theorem Kept.undo (hs : s.Kept) : s.editor.history.popUndo? = none ∨
    ∃ before after ledger, s.ledger.popUndo? = some ((before, after), ledger) ∧
      s.editor.undo.2.moment = before ∧ (s.perform .undo).Kept := by
  obtain ⟨h, hhistory, hledger, htrail⟩ := hs.trail
  rw [← hhistory, ← hledger, History.popUndo?_map, History.popUndo?_map]
  cases hpop : h.popUndo? with
  | none => exact .inl rfl
  | some r =>
      obtain ⟨⟨c, entry⟩, h'⟩ := r
      have hedit : s.editor.history.popUndo? = some (c, h'.map Prod.fst) := by
        rw [← hhistory, History.popUndo?_map, hpop]
        rfl
      obtain ⟨form, ⟨hexact, hentry⟩, htrail'⟩ := htrail.undo hpop
      have hform := hexact.undone_eq
      rw [← Draft.form_revert hs.mirrors] at hform
      obtain ⟨d, hd, rfl⟩ := Option.map_eq_some_iff.1 hform
      have hundo := Editor.undo_of_ok hedit (eq_ok_of_toOption hd)
      refine .inr ⟨_, _, _, congrArg (fun m => some (m, _)) hentry, ?_, ?_⟩
      · rw [hundo]
        exact moment_update s.editor hexact.proper_before _
      · have hkept := kept_update s.editor hexact.proper_before htrail'
        have hperform : s.perform .undo = { editor := s.editor.undo.2, ledger := s.turn .undo } :=
          rfl
        rw [History.map_pushRedo, History.map_pushRedo] at hkept
        rw [hperform, turn, hundo, ← hledger, History.popUndo?_map, hpop]
        exact hkept

/-- What can be done again is done again, which brings back the moment after it. -/
theorem Kept.redo (hs : s.Kept) : s.editor.history.popRedo? = none ∨
    ∃ before after ledger, s.ledger.popRedo? = some ((before, after), ledger) ∧
      s.editor.redo.2.moment = after ∧ (s.perform .redo).Kept := by
  obtain ⟨h, hhistory, hledger, htrail⟩ := hs.trail
  rw [← hhistory, ← hledger, History.popRedo?_map, History.popRedo?_map]
  cases hpop : h.popRedo? with
  | none => exact .inl rfl
  | some r =>
      obtain ⟨⟨c, entry⟩, h'⟩ := r
      have hedit : s.editor.history.popRedo? = some (c, h'.map Prod.fst) := by
        rw [← hhistory, History.popRedo?_map, hpop]
        rfl
      obtain ⟨form, ⟨hexact, hentry⟩, htrail'⟩ := htrail.redo hpop
      have hform := hexact.redone_eq
      rw [← Draft.form_apply hs.mirrors] at hform
      obtain ⟨d, hd, rfl⟩ := Option.map_eq_some_iff.1 hform
      have hredo := Editor.redo_of_ok hedit (eq_ok_of_toOption hd)
      refine .inr ⟨_, _, _, congrArg (fun m => some (m, _)) hentry, ?_, ?_⟩
      · rw [hredo]
        exact moment_update s.editor hexact.proper_after _
      · have hkept := kept_update s.editor hexact.proper_after htrail'
        have hperform : s.perform .redo = { editor := s.editor.redo.2, ledger := s.turn .redo } :=
          rfl
        rw [History.map_remember, History.map_remember] at hkept
        rw [hperform, turn, hredo, ← hledger, History.popRedo?_map, hpop]
        exact hkept

theorem turn_eq (s : Session β) (hundo : op ≠ .undo) (hredo : op ≠ .redo) :
    s.turn op = if op.edits s.editor then
      s.ledger.record (s.editor.moment, (op.after s.editor).moment) else s.ledger := by
  cases op <;> first | rfl | contradiction

theorem perform_undo_of_none (h : s.editor.history.popUndo? = none) : s.perform .undo = s := by
  have hperform : s.perform .undo = { editor := s.editor.undo.2, ledger := s.turn .undo } := rfl
  rw [hperform, turn, Editor.undo_of_none h]

theorem perform_redo_of_none (h : s.editor.history.popRedo? = none) : s.perform .redo = s := by
  have hperform : s.perform .redo = { editor := s.editor.redo.2, ledger := s.turn .redo } := rfl
  rw [hperform, turn, Editor.redo_of_none h]

theorem Kept.of_saves (hs : s.Kept) {e : Editor β} (he : s.editor.Saves e) :
    ({ editor := e, ledger := s.ledger } : Session β).Kept := by
  have hform := s.editor.form_settle
  have hmirrors := Draft.mirrors_settle hs.mirrors
  have hkept : ∀ e : Editor β, e.toDraft = { s.editor.toDraft with graph := s.editor.form } →
      e.kinds = s.editor.kinds → e.history = s.editor.history →
      ({ editor := e, ledger := s.ledger } : Session β).Kept := by
    rintro ⟨d, kinds, config, history, path, dirty⟩ rfl rfl rfl
    refine ⟨hmirrors, ?_, ?_⟩
    · rw [hform]
      exact hs.proper
    · rw [hform]
      exact hs.trail
  cases he with
  | failed => exact hkept _ rfl rfl rfl
  | written path => exact hkept _ rfl rfl rfl

theorem Kept.of_makes (hs : s.Kept) {c : Command} {d : Draft} (hc : c.Exact s.editor.form d.form) :
    let e := s.editor.update d (s.editor.history.record c)
    ({ editor := e, ledger := s.ledger.record (s.editor.moment, e.moment) } : Session β).Kept := by
  obtain ⟨h, hhistory, hledger, htrail⟩ := hs.trail
  have hlead : Leads s.editor.kinds (c, .of s.editor.kinds s.editor.form, .of s.editor.kinds d.form)
      s.editor.form d.form := ⟨hc, rfl⟩
  have hkept := kept_update s.editor hc.proper_after (htrail.record hlead)
  rw [History.map_record, History.map_record, hhistory, hledger] at hkept
  intro e
  have hmoment : e.moment = .of s.editor.kinds d.form :=
    moment_update s.editor hc.proper_after _
  rw [hs.moment_eq, hmoment]
  exact hkept

theorem Kept.perform (hs : s.Kept) (hfresh : ∀ new tag position, op = .addNode new tag position →
    ∀ n ∈ s.editor.graph.nodes, ¬n.LinksTo new) : (s.perform op).Kept := by
  by_cases hundo : op = .undo
  · rw [hundo]
    rcases hs.undo with hnone | ⟨_, _, _, -, -, hkept⟩
    · rw [perform_undo_of_none hnone]
      exact hs
    · exact hkept
  by_cases hredo : op = .redo
  · rw [hredo]
    rcases hs.redo with hnone | ⟨_, _, _, -, -, hkept⟩
    · rw [perform_redo_of_none hnone]
      exact hs
    · exact hkept
  rw [Session.perform, turn_eq s hundo hredo]
  rcases Editor.after_cases hs.mirrors hundo hredo with
    ⟨hedits, c, d, hmakes, hafter⟩ | ⟨hedits, hafter | hsaves⟩
  · rw [if_pos hedits, hafter]
    exact hs.of_makes (hmakes.exact hs.mirrors hs.proper hfresh)
  · rw [hedits, hafter]
    exact hs
  · rw [hedits]
    exact hs.of_saves hsaves

theorem Kept.run (hs : s.Kept) {ops : List Operation} (hfresh : s.Fresh ops) :
    (s.run ops).Kept := by
  induction ops generalizing s with
  | nil => exact hs
  | cons op ops ih =>
      obtain ⟨hop, hops⟩ := hfresh
      exact ih (hs.perform hop) hops

/-- In a session every undo that is done brings back what was there just before the edit that it
takes back was made, and every redo what was there just after it. -/
theorem undo_redo_exact (e : Editor β) (hg : g.Proper) {ops : List Operation}
    (hfresh : (begin e g).Fresh ops) :
    let s := (begin e g).run ops
    (s.editor.undo.1 = .ok true → ∃ before after ledger,
      s.ledger.popUndo? = some ((before, after), ledger) ∧ s.editor.undo.2.moment = before) ∧
    (s.editor.redo.1 = .ok true → ∃ before after ledger,
      s.ledger.popRedo? = some ((before, after), ledger) ∧ s.editor.redo.2.moment = after) := by
  intro s
  have hs : s.Kept := (kept_begin e hg).run hfresh
  constructor
  · intro hundo
    rcases hs.undo with hnone | ⟨before, after, ledger, hpop, hmoment, -⟩
    · rw [Editor.undo_of_none hnone] at hundo
      cases hundo
    · exact ⟨before, after, ledger, hpop, hmoment⟩
  · intro hredo
    rcases hs.redo with hnone | ⟨before, after, ledger, hpop, hmoment, -⟩
    · rw [Editor.redo_of_none hnone] at hredo
      cases hredo
    · exact ⟨before, after, ledger, hpop, hmoment⟩

def couple : Graph where
  start := some ⟨"a"⟩
  nodes := [{ kind := "note", id := ⟨"a"⟩, outputs := [some ⟨"b"⟩, none, some ⟨"a"⟩] },
    { kind := "note", id := ⟨"b"⟩, outputs := [some ⟨"a"⟩, some ⟨"a"⟩] }]

def partings : List Operation :=
  [.moveNode ⟨"a"⟩ ⟨.ofInt .single 7, .zero true⟩, .deleteNode ⟨"a"⟩, .deleteNode ⟨"b"⟩, .undo]

theorem exact_partings :
    let s := (begin (Editor.empty (β := Unit) {} {}) couple).run partings
    s.editor.undo.1 = .ok true ∧ s.editor.redo.1 = .ok true ∧
      (∃ before after ledger,
        s.ledger.popUndo? = some ((before, after), ledger) ∧ s.editor.undo.2.moment = before) ∧
      ∃ before after ledger,
        s.ledger.popRedo? = some ((before, after), ledger) ∧ s.editor.redo.2.moment = after := by
  intro s
  have hundo : s.editor.undo.1 = .ok true := rfl
  have hredo : s.editor.redo.1 = .ok true := rfl
  have hproper : couple.Proper := ⟨by decide, by decide⟩
  have hfresh : (begin (Editor.empty (β := Unit) {} {}) couple).Fresh partings :=
    ⟨by simp, by simp, by simp, by simp, trivial⟩
  obtain ⟨h, h'⟩ := undo_redo_exact _ hproper hfresh
  exact ⟨hundo, hredo, h hundo, h' hredo⟩

end Session

end StoryGraph
