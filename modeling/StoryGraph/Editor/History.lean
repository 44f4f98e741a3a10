/-!
# Histories

A history holds what can be undone and what can be redone, the next one first in either list. It
keeps no more than a number of edits to undo; of more the oldest are forgotten. What was undone can
be redone until something else is done.
-/

namespace StoryGraph

structure History (α : Type _) where
  limit : Nat
  undo : List α := []
  redo : List α := []

namespace History

variable {α : Type _}

def remember (h : History α) (edit : α) : History α :=
  { h with undo := (edit :: h.undo).take h.limit }

/-- Remembers a new edit, after which nothing can be redone. -/
def record (h : History α) (edit : α) : History α := { h with redo := [] }.remember edit

/-- The edit that is undone next, and the history without it. -/
def popUndo? (h : History α) : Option (α × History α) :=
  match h.undo with
  | [] => none
  | edit :: undo => some (edit, { h with undo })

def popRedo? (h : History α) : Option (α × History α) :=
  match h.redo with
  | [] => none
  | edit :: redo => some (edit, { h with redo })

def pushRedo (h : History α) (edit : α) : History α := { h with redo := edit :: h.redo }

def clear (h : History α) : History α := { h with undo := [], redo := [] }

end History

end StoryGraph
