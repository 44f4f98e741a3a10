import StoryGraph.Error
import StoryGraph.Graph.Node
import StoryGraph.Toml.Document

/-!
# Editor settings

How many edits can be undone, where a new node is put, and whether nodes are put on a grid.

Settings are read from a TOML document, in which each may be left out. A size may be written as a
whole number, but a limit not as one with a point. What is no setting is passed over.
-/

namespace StoryGraph

structure EditorConfig where
  historyLimit : Nat := 100
  /-- How far to the right of the last node a new one is put. -/
  defaultSpacing : Single := .ofInt .single 240
  snapToGrid : Bool := false
  gridSize : Single := .ofInt .single 20

namespace EditorConfig

instance : Inhabited EditorConfig := ⟨{}⟩

/-- Equality of settings, with sizes compared as numbers. -/
def same (c d : EditorConfig) : Bool :=
  c.historyLimit == d.historyLimit && c.defaultSpacing.same d.defaultSpacing &&
    c.snapToGrid == d.snapToGrid && c.gridSize.same d.gridSize

/-- The nearest line of the grid, of two equally near ones the one farther from the origin. -/
def snapCoordinate (cell x : Single) : Single := (x / cell).round * cell

/-- The position on the grid, unless there is none. A grid needs cells of a size above zero; one
that is no number counts as such. -/
def snap (c : EditorConfig) (p : Position) : Position :=
  if !c.snapToGrid || c.gridSize.lessOrSame (.zero false) then p
  else ⟨snapCoordinate c.gridSize p.x, snapCoordinate c.gridSize p.y⟩

/-! ### Settings as documents -/

/-- A limit: a whole number that is not negative. -/
def limit? : Toml.Value → Option Nat
  | .integer n _ => if 0 ≤ n then some n.toNat else none
  | _ => none

def size? : Toml.Value → Option Single
  | .integer n _ => some (.ofInt .single n)
  | .float x => some (x.convert .single)
  | _ => none

def flag? : Toml.Value → Option Bool
  | .bool b => some b
  | _ => none

def setting? {α : Type} (ms : Toml.Members) (name : String) (read? : Toml.Value → Option α)
    (usual : α) : Option α :=
  match ms.get? name with
  | none => some usual
  | some v => read? v

def ofMembers? (ms : Toml.Members) : Option EditorConfig := do
  let usual : EditorConfig := {}
  return {
    historyLimit := ← setting? ms "history_limit" limit? usual.historyLimit
    defaultSpacing := ← setting? ms "default_spacing" size? usual.defaultSpacing
    snapToGrid := ← setting? ms "snap_to_grid" flag? usual.snapToGrid
    gridSize := ← setting? ms "grid_size" size? usual.gridSize }

def read (text : String) : Except StoryError EditorConfig :=
  match Toml.read? text >>= ofMembers? with
  | some c => .ok c
  | none => .error .config

end EditorConfig

end StoryGraph
