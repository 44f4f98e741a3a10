import StoryGraph.Proofs.Json.Value

/-!
# How deeply a document nests

What a reader can answer with (`Value.Fits`) is two things at once. That members ascend by name is
so in every value that a program holds, since objects are tables. That arrays and objects nest only
so many times is a condition on the document, and here it is counted on the document.
-/

namespace StoryGraph.Json

namespace Tree

mutual

def depth : Tree → Nat
  | .null => 0
  | .bool _ => 0
  | .number _ => 0
  | .string _ => 0
  | .array items => itemsDepth items + 1
  | .object members => membersDepth members + 1

def itemsDepth : List Tree → Nat
  | [] => 0
  | t :: rest => max t.depth (itemsDepth rest)

def membersDepth : List (Option String × Tree) → Nat
  | [] => 0
  | (_, t) :: rest => max t.depth (membersDepth rest)

end

variable {items : List Tree} {members : List (Option String × Tree)} {n : Nat}

theorem itemsDepth_le_iff : itemsDepth items ≤ n ↔ ∀ t ∈ items, t.depth ≤ n := by
  induction items with
  | nil => simp [itemsDepth]
  | cons t items ih => rw [itemsDepth, Nat.max_le, ih, List.forall_mem_cons]

theorem membersDepth_le_iff : membersDepth members ≤ n ↔ ∀ m ∈ members, m.2.depth ≤ n := by
  induction members with
  | nil => simp [membersDepth]
  | cons m members ih => rw [membersDepth, Nat.max_le, ih, List.forall_mem_cons]

theorem depth_array_le_iff : (array items).depth ≤ n + 1 ↔ ∀ t ∈ items, t.depth ≤ n := by
  rw [depth, Nat.add_le_add_iff_right, itemsDepth_le_iff]

theorem depth_object_le_iff : (object members).depth ≤ n + 1 ↔ ∀ m ∈ members, m.2.depth ≤ n := by
  rw [depth, Nat.add_le_add_iff_right, membersDepth_le_iff]

end Tree

namespace Value

/-- The values that a program holds: the members of each object ascend by name. -/
inductive Ordered : Value → Prop
  | null : Ordered .null
  | bool (b : Bool) : Ordered (.bool b)
  | number (n : Number) : Ordered (.number n)
  | string (s : String) : Ordered (.string s)
  | array {items : List Value} (ordered : ∀ v ∈ items, v.Ordered) : Ordered (.array items)
  | object {members : List (String × Value)} (ascending : Ascending members)
      (ordered : ∀ m ∈ members, m.2.Ordered) : Ordered (.object members)

variable {v : Value} {depth : Nat}

theorem Fits.ordered (h : v.Fits depth) : v.Ordered := by
  induction h with
  | null => exact .null
  | bool b => exact .bool b
  | number n => exact .number n
  | string s => exact .string s
  | array _ ih => exact .array ih
  | object hasc _ ih => exact .object hasc ih

/-- A value that a program holds can be read exactly if it nests no deeper than the reader goes. -/
theorem Ordered.fits_iff (hv : v.Ordered) : v.Fits depth ↔ v.toTree.depth ≤ depth := by
  induction hv generalizing depth with
  | null => exact iff_of_true .null (Nat.zero_le depth)
  | bool b => exact iff_of_true (.bool b) (Nat.zero_le depth)
  | number n => exact iff_of_true (.number n) (Nat.zero_le depth)
  | string s => exact iff_of_true (.string s) (Nat.zero_le depth)
  | @array items _ ih =>
      rw [toTree, itemTrees_eq]
      cases depth with
      | zero => exact iff_of_false (fun h => by cases h) (by simp [Tree.depth])
      | succ depth =>
          rw [Tree.depth_array_le_iff, List.forall_mem_map]
          constructor
          · rintro (_ | _ | _ | _ | hfits)
            exact fun v hv => (ih v hv).1 (hfits v hv)
          · exact fun h => .array fun v hv => (ih v hv).2 (h v hv)
  | @object members hasc _ ih =>
      rw [toTree, memberTrees_eq]
      cases depth with
      | zero => exact iff_of_false (fun h => by cases h) (by simp [Tree.depth])
      | succ depth =>
          rw [Tree.depth_object_le_iff, List.forall_mem_map]
          constructor
          · rintro (_ | _ | _ | _ | _ | ⟨-, hfits⟩)
            exact fun m hm => (ih m hm).1 (hfits m hm)
          · exact fun h => .object hasc fun m hm => (ih m hm).2 (h m hm)

end Value

end StoryGraph.Json
