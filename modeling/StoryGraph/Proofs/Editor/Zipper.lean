import StoryGraph.Proofs.Editor.Operation
import StoryGraph.Proofs.Editor.Trail

/-!
# What a history remembers

A history is a zipper that is open at one end: edits go from one of its lists to the other and back
as they are undone and redone, and the oldest ones fall out. The two lists share one bound. Only one
of them is ever cut, but an edit that is redone has been undone before and so finds its place free.

The `Log` of a history forgets nothing. It holds the edits that were recorded, but for those that
were undone when another one was recorded in their place. A history always holds the last edits of
its log (`History.bounded_zipper`).
-/

namespace StoryGraph

namespace History

variable {α : Type}

def undoNext (h : History α) : History α := h.popUndo?.elim h fun r => r.2.pushRedo r.1

def redoNext (h : History α) : History α := h.popRedo?.elim h fun r => r.2.remember r.1

inductive Step (α : Type) where
  | record (edit : α)
  | undo
  | redo
  | clear

def Step.on (h : History α) : Step α → History α
  | record edit => h.record edit
  | undo => h.undoNext
  | redo => h.redoNext
  | clear => h.clear

def run (h : History α) (steps : List (Step α)) : History α := steps.foldl Step.on h

/-! ### The log of a history -/

/-- The edits that were recorded, the oldest first, and how many of the last of them are undone. -/
structure Log (α : Type) where
  edits : List α := []
  undone : Nat := 0

namespace Log

def struck (l : Log α) : List α := l.edits.take (l.edits.length - l.undone)

/-- The log after a step of the history. A step that finds no edit changes nothing. -/
def write (l : Log α) (h : History α) : Step α → Log α
  | .record edit => { edits := l.struck ++ [edit] }
  | .undo => if h.popUndo?.isSome then { l with undone := l.undone + 1 } else l
  | .redo => if h.popRedo?.isSome then { l with undone := l.undone - 1 } else l
  | .clear => {}

def after (l : Log α) (h : History α) : List (Step α) → Log α
  | [] => l
  | step :: steps => (l.write h step).after (step.on h) steps

end Log

/-- A history holds no more than its limit allows, and what it holds are the last edits of a log. -/
structure Zips (l : Log α) (h : History α) : Prop where
  bounded : h.undo.length + h.redo.length ≤ h.limit
  undone : l.undone = h.redo.length
  held : ∃ forgotten, l.edits = forgotten ++ h.undo.reverse ++ h.redo

variable {h h' : History α} {l : Log α} {edit : α}

theorem undoNext_of_popUndo? (hpop : h.popUndo? = some (edit, h')) :
    h.undoNext = h'.pushRedo edit := by
  rw [undoNext, hpop]
  rfl

theorem redoNext_of_popRedo? (hpop : h.popRedo? = some (edit, h')) :
    h.redoNext = h'.remember edit := by
  rw [redoNext, hpop]
  rfl

@[simp] theorem limit_remember (h : History α) (edit : α) : (h.remember edit).limit = h.limit := rfl

theorem bounded_undoNext (hb : h.undo.length + h.redo.length ≤ h.limit) :
    h.undoNext.undo.length + h.undoNext.redo.length ≤ h.undoNext.limit := by
  cases hpop : h.popUndo? with
  | none =>
      rw [undoNext, hpop]
      exact hb
  | some r =>
      obtain ⟨edit, h'⟩ := r
      obtain ⟨hundo, hredo, hlimit⟩ := popUndo?_eq_some_iff.1 hpop
      rw [hundo, List.length_cons] at hb
      rw [undoNext_of_popUndo? hpop]
      simp only [pushRedo, List.length_cons, hredo, hlimit]
      omega

/-- Whatever is redone, no edit that can be undone is forgotten for it. -/
theorem undo_redoNext (hb : h.undo.length + h.redo.length ≤ h.limit)
    (hpop : h.popRedo? = some (edit, h')) : h.redoNext.undo = edit :: h.undo := by
  obtain ⟨hredo, hundo, hlimit⟩ := popRedo?_eq_some_iff.1 hpop
  rw [hredo, List.length_cons] at hb
  rw [redoNext_of_popRedo? hpop, remember, hundo, hlimit]
  exact List.take_of_length_le (by rw [List.length_cons]; omega)

theorem redoNext_undoNext (hb : h.undo.length + h.redo.length ≤ h.limit)
    (hfound : h.popUndo? ≠ none) : h.undoNext.redoNext = h := by
  obtain ⟨⟨edit, h'⟩, hpop⟩ := Option.ne_none_iff_exists'.1 hfound
  obtain ⟨hundo, -, hlimit⟩ := popUndo?_eq_some_iff.1 hpop
  have hback : (h'.pushRedo edit).popRedo? = some (edit, h') := rfl
  have hlength : h.undo.length ≤ h.limit := by omega
  rw [undoNext_of_popUndo? hpop, redoNext_of_popRedo? hback, remember, ← hundo, hlimit,
    List.take_of_length_le hlength, eq_of_popUndo? hpop]

namespace Zips

theorem empty (limit : Nat) : Zips {} ({ limit } : History α) where
  bounded := Nat.zero_le limit
  undone := rfl
  held := ⟨[], rfl⟩

/-- What can be redone is struck out, and what falls out of the history stays in the log. -/
theorem record (hz : Zips l h) (edit : α) :
    Zips (l.write h (.record edit)) (h.record edit) := by
  obtain ⟨forgotten, hheld⟩ := hz.held
  have hstruck : l.struck = forgotten ++ h.undo.reverse := by
    rw [Log.struck, hz.undone, hheld, List.length_append, Nat.add_sub_cancel, List.take_left]
  have hcut : (edit :: h.undo).reverse = ((edit :: h.undo).drop h.limit).reverse ++
      ((edit :: h.undo).take h.limit).reverse := by
    rw [← List.reverse_append, List.take_append_drop]
  refine ⟨?_, rfl, forgotten ++ ((edit :: h.undo).drop h.limit).reverse, ?_⟩
  · exact List.length_take_le _ _
  · have hedits : l.struck ++ [edit] = forgotten ++ (edit :: h.undo).reverse := by
      rw [hstruck, List.append_assoc, List.reverse_cons]
    change l.struck ++ [edit] = _ ++ ((edit :: h.undo).take h.limit).reverse ++ []
    rw [hedits, hcut, List.append_nil, List.append_assoc]

theorem undo (hz : Zips l h) : Zips (l.write h .undo) h.undoNext := by
  cases hpop : h.popUndo? with
  | none =>
      rw [Log.write, undoNext, hpop]
      exact hz
  | some r =>
      obtain ⟨edit, h'⟩ := r
      obtain ⟨hundo, hredo, -⟩ := popUndo?_eq_some_iff.1 hpop
      obtain ⟨forgotten, hheld⟩ := hz.held
      have hwrite : l.write h .undo = { l with undone := l.undone + 1 } := by
        rw [Log.write, hpop, if_pos Option.isSome_some]
      rw [hwrite]
      refine ⟨bounded_undoNext hz.bounded, ?_, forgotten, ?_⟩
      · rw [undoNext_of_popUndo? hpop, hz.undone, ← hredo]
        rfl
      · rw [undoNext_of_popUndo? hpop]
        simp [hheld, hundo, pushRedo, hredo]

theorem redo (hz : Zips l h) : Zips (l.write h .redo) h.redoNext := by
  cases hpop : h.popRedo? with
  | none =>
      rw [Log.write, redoNext, hpop]
      exact hz
  | some r =>
      obtain ⟨edit, h'⟩ := r
      obtain ⟨hredo, hundo, hlimit⟩ := popRedo?_eq_some_iff.1 hpop
      obtain ⟨forgotten, hheld⟩ := hz.held
      have hkeeps := undo_redoNext hz.bounded hpop
      have hrest : h.redoNext.redo = h'.redo := by rw [redoNext_of_popRedo? hpop, remember]
      have hbounded := hz.bounded
      rw [hredo, List.length_cons] at hbounded
      have hwrite : l.write h .redo = { l with undone := l.undone - 1 } := by
        rw [Log.write, hpop, if_pos Option.isSome_some]
      rw [hwrite]
      refine ⟨?_, ?_, forgotten, ?_⟩
      · rw [hkeeps, hrest, redoNext_of_popRedo? hpop, limit_remember, hlimit, List.length_cons]
        omega
      · rw [hrest, hz.undone, hredo, List.length_cons, Nat.add_sub_cancel]
      · rw [hkeeps, hrest]
        simp [hheld, hredo]

theorem step (hz : Zips l h) (step : Step α) : Zips (l.write h step) (step.on h) := by
  cases step with
  | record edit => exact hz.record edit
  | undo => exact hz.undo
  | redo => exact hz.redo
  | clear => exact ⟨Nat.zero_le _, rfl, [], rfl⟩

theorem run (hz : Zips l h) (steps : List (Step α)) : Zips (l.after h steps) (h.run steps) := by
  induction steps generalizing h l with
  | nil => exact hz
  | cons step steps ih => exact ih (hz.step step)

end Zips

theorem limit_on (h : History α) (step : Step α) : (step.on h).limit = h.limit := by
  cases step with
  | record edit => rfl
  | undo =>
      change h.undoNext.limit = h.limit
      cases hpop : h.popUndo? with
      | none => rw [undoNext, hpop, Option.elim_none]
      | some r =>
          rw [undoNext_of_popUndo? hpop, pushRedo]
          exact (popUndo?_eq_some_iff.1 hpop).2.2
  | redo =>
      change h.redoNext.limit = h.limit
      cases hpop : h.popRedo? with
      | none => rw [redoNext, hpop, Option.elim_none]
      | some r =>
          rw [redoNext_of_popRedo? hpop, limit_remember]
          exact (popRedo?_eq_some_iff.1 hpop).2.2
  | clear => rfl

theorem limit_run (h : History α) (steps : List (Step α)) : (h.run steps).limit = h.limit := by
  induction steps generalizing h with
  | nil => rfl
  | cons step steps ih => exact (ih (step.on h)).trans (limit_on h step)

theorem run_append (h : History α) (steps steps' : List (Step α)) :
    h.run (steps ++ steps') = (h.run steps).run steps' :=
  List.foldl_append

/-- As many edits as were undone can be redone, which leaves the history as it was. -/
theorem run_undo_redo (hb : h.undo.length + h.redo.length ≤ h.limit) {j : Nat}
    (hfound : ∀ i < j, (h.run (.replicate i .undo)).popUndo? ≠ none) :
    h.run (.replicate j .undo ++ .replicate j .redo) = h := by
  induction j generalizing h with
  | zero => rfl
  | succ j ih =>
      have hrest : ∀ i < j, (h.undoNext.run (.replicate i .undo)).popUndo? ≠ none := fun i hi =>
        hfound (i + 1) (Nat.succ_lt_succ hi)
      have hlast : (List.replicate (j + 1) (Step.redo : Step α)) =
          .replicate j .redo ++ [.redo] := List.replicate_succ'
      rw [hlast, ← List.append_assoc, run_append]
      change (h.undoNext.run (.replicate j .undo ++ .replicate j .redo)).redoNext = h
      rw [ih (bounded_undoNext hb) hrest]
      exact redoNext_undoNext hb (hfound 0 (Nat.succ_pos j))

/-- Whatever was done with a history that was empty in the beginning, no more edits can be undone
and redone together than the limit allows, so no edit is forgotten for one that is redone. They are
the last edits of the log, and those of them that are undone can be redone. As many edits as can be
undone can then be redone, which leaves the history as it was. -/
theorem bounded_zipper (limit : Nat) (steps : List (Step α)) :
    let h := ({ limit } : History α).run steps
    let l := ({} : Log α).after { limit } steps
    h.undo.length + h.redo.length ≤ limit ∧
      (∀ edit rest, h.popRedo? = some (edit, rest) → h.redoNext.undo = edit :: h.undo) ∧
      (h.undo.reverse ++ h.redo <:+ l.edits ∧ l.undone = h.redo.length) ∧
      ∀ j, (∀ i < j, (h.run (.replicate i .undo)).popUndo? ≠ none) →
        h.run (.replicate j .undo ++ .replicate j .redo) = h := by
  intro h l
  have hz : Zips l h := (Zips.empty limit).run steps
  obtain ⟨forgotten, hheld⟩ := hz.held
  have hlimit : h.limit = limit := limit_run { limit } steps
  refine ⟨hlimit ▸ hz.bounded, fun edit rest hpop => undo_redoNext hz.bounded hpop,
    ⟨⟨forgotten, ?_⟩, hz.undone⟩, fun j hfound => run_undo_redo hz.bounded hfound⟩
  rw [hheld, List.append_assoc]

/-- Of three edits the first had been forgotten, and the others were undone, when two more were
recorded. -/
example :
    let steps : List (Step Nat) :=
      [.record 1, .record 2, .record 3, .undo, .undo, .record 4, .record 5, .undo]
    let h := ({ limit := 2 } : History Nat).run steps
    h.undo = [4] ∧ h.redo = [5] ∧ (({} : Log Nat).after { limit := 2 } steps).edits = [1, 4, 5] := by
  decide

end History

/-! ### The history of an editor -/

namespace Editor

variable {β : Type} {e : Editor β}

/-- An operation takes one step with the history or none. But an edit that cannot be taken back, or
done again, is taken out. -/
theorem history_after (hd : e.Mirrors e.kinds) (op : Operation) :
    (op.after e).history = e.history ∨
      (∃ step : History.Step Command, (op.after e).history = step.on e.history) ∨
      (∃ c, e.history.popUndo? = some (c, (op.after e).history)) ∨
      ∃ c, e.history.popRedo? = some (c, (op.after e).history) := by
  by_cases hundo : op = .undo
  · subst hundo
    change e.undo.2.history = _ ∨ (∃ step : History.Step Command, e.undo.2.history = _) ∨
      (∃ c, _ = some (c, e.undo.2.history)) ∨ ∃ c, _ = some (c, e.undo.2.history)
    cases hpop : e.history.popUndo? with
    | none => exact .inl (by rw [undo_of_none hpop])
    | some r =>
        cases hd : e.revert r.1 with
        | error x =>
            rw [undo_of_error hpop hd]
            exact .inr (.inr (.inl ⟨r.1, rfl⟩))
        | ok d =>
            rw [undo_of_ok hpop hd]
            exact .inr (.inl ⟨.undo, (History.undoNext_of_popUndo? hpop).symm⟩)
  by_cases hredo : op = .redo
  · subst hredo
    change e.redo.2.history = _ ∨ (∃ step : History.Step Command, e.redo.2.history = _) ∨
      (∃ c, _ = some (c, e.redo.2.history)) ∨ ∃ c, _ = some (c, e.redo.2.history)
    cases hpop : e.history.popRedo? with
    | none => exact .inl (by rw [redo_of_none hpop])
    | some r =>
        cases hd : e.apply r.1 with
        | error x =>
            rw [redo_of_error hpop hd]
            exact .inr (.inr (.inr ⟨r.1, rfl⟩))
        | ok d =>
            rw [redo_of_ok hpop hd]
            exact .inr (.inl ⟨.redo, (History.redoNext_of_popRedo? hpop).symm⟩)
  rcases after_cases hd hundo hredo with ⟨-, c, d, -, hafter⟩ | ⟨-, hafter | hsaves⟩
  · exact .inr (.inl ⟨.record c, by rw [hafter]; rfl⟩)
  · exact .inl (by rw [hafter])
  · generalize op.after e = e' at hsaves ⊢
    cases hsaves <;> exact .inl rfl

end Editor

end StoryGraph
