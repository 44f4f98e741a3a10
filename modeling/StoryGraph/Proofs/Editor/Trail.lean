import Mathlib
import StoryGraph.Editor.History

/-!
# Histories as trails

A history is a trail through the states of what is edited: the edits that can be undone led to the
state in which it is, and those that can be redone lead on from it. Whatever is done with a history
keeps it a trail, as long as every edit is recorded where it was made.
-/

namespace StoryGraph

namespace History

variable {α γ σ : Type}

/-! ### Histories of what edits stand for -/

def map (f : α → γ) (h : History α) : History γ where
  limit := h.limit
  undo := h.undo.map f
  redo := h.redo.map f

theorem map_remember (f : α → γ) (h : History α) (edit : α) :
    (h.remember edit).map f = (h.map f).remember (f edit) := by
  rw [map, map, remember, remember, List.map_take, List.map_cons]

theorem map_record (f : α → γ) (h : History α) (edit : α) :
    (h.record edit).map f = (h.map f).record (f edit) := by
  rw [record, record, map_remember]
  rfl

theorem map_pushRedo (f : α → γ) (h : History α) (edit : α) :
    (h.pushRedo edit).map f = (h.map f).pushRedo (f edit) := rfl

theorem popUndo?_map (f : α → γ) (h : History α) :
    (h.map f).popUndo? = h.popUndo?.map fun r => (f r.1, r.2.map f) := by
  obtain ⟨limit, undo, redo⟩ := h
  cases undo <;> rfl

theorem popRedo?_map (f : α → γ) (h : History α) :
    (h.map f).popRedo? = h.popRedo?.map fun r => (f r.1, r.2.map f) := by
  obtain ⟨limit, undo, redo⟩ := h
  cases redo <;> rfl

theorem popUndo?_eq_some_iff {h h' : History α} {edit : α} :
    h.popUndo? = some (edit, h') ↔ h.undo = edit :: h'.undo ∧ h'.redo = h.redo ∧
      h'.limit = h.limit := by
  obtain ⟨limit, undo, redo⟩ := h
  obtain ⟨limit', undo', redo'⟩ := h'
  cases undo with
  | nil => simp [popUndo?]
  | cons a undo =>
      simp only [popUndo?, Option.some.injEq, Prod.mk.injEq, mk.injEq, List.cons.injEq]
      grind

theorem popRedo?_eq_some_iff {h h' : History α} {edit : α} :
    h.popRedo? = some (edit, h') ↔ h.redo = edit :: h'.redo ∧ h'.undo = h.undo ∧
      h'.limit = h.limit := by
  obtain ⟨limit, undo, redo⟩ := h
  obtain ⟨limit', undo', redo'⟩ := h'
  cases redo with
  | nil => simp [popRedo?]
  | cons a redo =>
      simp only [popRedo?, Option.some.injEq, Prod.mk.injEq, mk.injEq, List.cons.injEq]
      grind

theorem isEmpty_undo (h : History α) : h.undo.isEmpty = h.popUndo?.isNone := by
  obtain ⟨limit, undo, redo⟩ := h
  cases undo <;> rfl

theorem isEmpty_redo (h : History α) : h.redo.isEmpty = h.popRedo?.isNone := by
  obtain ⟨limit, undo, redo⟩ := h
  cases redo <;> rfl

theorem eq_of_popUndo? {h h' : History α} {edit : α} (hpop : h.popUndo? = some (edit, h')) :
    h' = { h with undo := h.undo.tail } := by
  obtain ⟨limit, undo, redo⟩ := h
  cases undo with
  | nil => cases hpop
  | cons a undo =>
      obtain ⟨rfl, rfl⟩ := Prod.mk.inj (Option.some.inj hpop)
      rfl

theorem eq_of_popRedo? {h h' : History α} {edit : α} (hpop : h.popRedo? = some (edit, h')) :
    h' = { h with redo := h.redo.tail } := by
  obtain ⟨limit, undo, redo⟩ := h
  cases redo with
  | nil => cases hpop
  | cons a redo =>
      obtain ⟨rfl, rfl⟩ := Prod.mk.inj (Option.some.inj hpop)
      rfl

/-! ### What is known of all edits -/

structure All (p : α → Prop) (h : History α) : Prop where
  undo : ∀ edit ∈ h.undo, p edit
  redo : ∀ edit ∈ h.redo, p edit

namespace All

variable {p : α → Prop} {h h' : History α} {edit : α}

theorem clear (p : α → Prop) (h : History α) : h.clear.All p :=
  ⟨fun _ hmem => absurd hmem List.not_mem_nil, fun _ hmem => absurd hmem List.not_mem_nil⟩

theorem remember (ha : h.All p) (hedit : p edit) : (h.remember edit).All p :=
  ⟨fun other hmem => List.forall_mem_cons.2 ⟨hedit, ha.undo⟩ other (List.mem_of_mem_take hmem),
    ha.redo⟩

theorem record (ha : h.All p) (hedit : p edit) : (h.record edit).All p :=
  have hdone : ({ h with redo := [] } : History α).All p :=
    ⟨ha.undo, fun _ hmem => absurd hmem List.not_mem_nil⟩
  hdone.remember hedit

theorem pushRedo (ha : h.All p) (hedit : p edit) : (h.pushRedo edit).All p :=
  ⟨ha.undo, List.forall_mem_cons.2 ⟨hedit, ha.redo⟩⟩

theorem popUndo (ha : h.All p) (hpop : h.popUndo? = some (edit, h')) : p edit ∧ h'.All p := by
  obtain ⟨hundo, hredo, -⟩ := popUndo?_eq_some_iff.1 hpop
  obtain ⟨hedit, hrest⟩ := List.forall_mem_cons.1 (hundo ▸ ha.undo)
  exact ⟨hedit, hrest, hredo ▸ ha.redo⟩

theorem popRedo (ha : h.All p) (hpop : h.popRedo? = some (edit, h')) : p edit ∧ h'.All p := by
  obtain ⟨hredo, hundo, -⟩ := popRedo?_eq_some_iff.1 hpop
  obtain ⟨hedit, hrest⟩ := List.forall_mem_cons.1 (hredo ▸ ha.redo)
  exact ⟨hedit, hundo ▸ ha.undo, hrest⟩

end All

/-! ### Trails -/

def Past (leads : α → σ → σ → Prop) : List α → σ → Prop
  | [], _ => True
  | edit :: edits, s => ∃ before, leads edit before s ∧ Past leads edits before

def Future (leads : α → σ → σ → Prop) : List α → σ → Prop
  | [], _ => True
  | edit :: edits, s => ∃ after, leads edit s after ∧ Future leads edits after

structure Trail (leads : α → σ → σ → Prop) (h : History α) (s : σ) : Prop where
  past : Past leads h.undo s
  future : Future leads h.redo s

variable {leads : α → σ → σ → Prop} {h h' : History α} {s s' : σ} {edit : α}

theorem Past.take {edits : List α} (hp : Past leads edits s) (n : Nat) :
    Past leads (edits.take n) s := by
  induction n generalizing edits s with
  | zero => exact trivial
  | succ n ih =>
      cases edits with
      | nil => exact trivial
      | cons edit edits =>
          obtain ⟨before, hlead, hp⟩ := hp
          exact ⟨before, hlead, ih hp⟩

theorem trail_empty (leads : α → σ → σ → Prop) (limit : Nat) (s : σ) :
    ({ limit } : History α).Trail leads s :=
  ⟨trivial, trivial⟩

theorem Trail.record (ht : h.Trail leads s) (hlead : leads edit s s') :
    (h.record edit).Trail leads s' := by
  have hp : Past leads (edit :: h.undo) s' := ⟨s, hlead, ht.past⟩
  exact ⟨hp.take h.limit, trivial⟩

theorem Trail.undo (ht : h.Trail leads s) (hpop : h.popUndo? = some (edit, h')) :
    ∃ before, leads edit before s ∧ (h'.pushRedo edit).Trail leads before := by
  obtain ⟨hundo, hredo, -⟩ := popUndo?_eq_some_iff.1 hpop
  obtain ⟨hp, hf⟩ := ht
  rw [hundo] at hp
  obtain ⟨before, hlead, hp⟩ := hp
  refine ⟨before, hlead, hp, s, hlead, ?_⟩
  rw [hredo]
  exact hf

theorem Trail.drop (ht : h.Trail leads s) (hpop : h.popUndo? = some (edit, h'))
    (hstay : ∀ before, leads edit before s → before = s) : h'.Trail leads s := by
  obtain ⟨hundo, hredo, -⟩ := popUndo?_eq_some_iff.1 hpop
  obtain ⟨hp, hf⟩ := ht
  rw [hundo] at hp
  obtain ⟨before, hlead, hp⟩ := hp
  obtain rfl := hstay before hlead
  refine ⟨hp, ?_⟩
  rw [hredo]
  exact hf

theorem Trail.redo (ht : h.Trail leads s) (hpop : h.popRedo? = some (edit, h')) :
    ∃ after, leads edit s after ∧ (h'.remember edit).Trail leads after := by
  obtain ⟨hredo, hundo, -⟩ := popRedo?_eq_some_iff.1 hpop
  obtain ⟨hp, hf⟩ := ht
  rw [hredo] at hf
  obtain ⟨after, hlead, hf⟩ := hf
  rw [← hundo] at hp
  have hp' : Past leads (edit :: h'.undo) after := ⟨s, hlead, hp⟩
  exact ⟨after, hlead, hp'.take h'.limit, hf⟩

end History

end StoryGraph
