import Mathlib
import StoryGraph.Graph.Edit

/-!
# Slots that are cut and put back

The slots that held a name, put back in ascending order, are where they were. A list of nodes with
different names is changed at one of them by a map.
-/

namespace StoryGraph

def slotsFrom (target : NodeId) (first : Nat) (outputs : List (Option NodeId)) : List Nat :=
  ((outputs.zipIdx first).filter fun e => e.1 = some target).map Prod.snd

theorem slotsFrom_cons_self (target : NodeId) (first : Nat) (outputs : List (Option NodeId)) :
    slotsFrom target first (some target :: outputs) =
      first :: slotsFrom target (first + 1) outputs := by
  simp [slotsFrom]

theorem slotsFrom_cons_of_ne {target : NodeId} {slot : Option NodeId} (h : slot ≠ some target)
    (first : Nat) (outputs : List (Option NodeId)) :
    slotsFrom target first (slot :: outputs) = slotsFrom target (first + 1) outputs := by
  simp [slotsFrom, h]

theorem insertAt_append (l l' : List (Option NodeId)) (a : Option NodeId) :
    insertAt (l ++ l') l.length a = l ++ a :: l' := by
  have hmin : min l.length (l ++ l').length = l.length := by
    rw [List.length_append]
    omega
  rw [insertAt, hmin]
  induction l with
  | nil => rfl
  | cons b l ih =>
      have hmin' : min l.length (l ++ l').length = l.length := by
        rw [List.length_append]
        omega
      exact congrArg (b :: ·) (ih hmin')

/-- What is in front of the slots stays, and every slot that was cut is put back behind it. -/
theorem insertSlots_append (target : NodeId) (front outputs : List (Option NodeId)) :
    insertSlots target (front ++ dropSlots target outputs) (slotsFrom target front.length outputs) =
      front ++ outputs := by
  induction outputs generalizing front with
  | nil => rfl
  | cons slot outputs ih =>
      have hlength : (front ++ [slot]).length = front.length + 1 := List.length_append
      by_cases h : slot = some target
      · have hdrop : dropSlots target (slot :: outputs) = dropSlots target outputs := by
          simp [dropSlots, h]
        rw [hdrop, h, slotsFrom_cons_self, insertSlots, List.foldl_cons, insertAt_append]
        have := ih (front ++ [slot])
        rw [hlength, List.append_assoc, List.append_assoc, h] at this
        exact this
      · have hdrop : dropSlots target (slot :: outputs) = slot :: dropSlots target outputs := by
          simp [dropSlots, h]
        rw [hdrop, slotsFrom_cons_of_ne h]
        have := ih (front ++ [slot])
        rw [hlength, List.append_assoc, List.append_assoc] at this
        exact this

/-- Slots that were cut are put back where they were. -/
theorem insertSlots_dropSlots (target : NodeId) (outputs : List (Option NodeId)) :
    insertSlots target (dropSlots target outputs) (slotsOf target outputs) = outputs :=
  insertSlots_append target [] outputs

theorem mem_slotsOf {target : NodeId} {outputs : List (Option NodeId)} {slot : Nat} :
    slot ∈ slotsOf target outputs ↔ outputs[slot]? = some (some target) := by
  simp [slotsOf, List.mk_mem_zipIdx_iff_getElem?]

theorem pairwise_zipIdx {α : Type _} (l : List α) : l.zipIdx.Pairwise fun a b => a.2 < b.2 := by
  rw [← List.pairwise_map (f := Prod.snd) (R := (· < ·)), List.zipIdx_map_snd]
  exact List.pairwise_lt_range'

theorem pairwise_slotsOf (target : NodeId) (outputs : List (Option NodeId)) :
    (slotsOf target outputs).Pairwise (· < ·) :=
  List.pairwise_map.2 ((pairwise_zipIdx outputs).sublist List.filter_sublist)

theorem dropSlots_of_not_mem {target : NodeId} {outputs : List (Option NodeId)}
    (h : some target ∉ outputs) : dropSlots target outputs = outputs := by
  apply List.filter_eq_self.2
  intro slot hslot
  simpa using fun he : slot = some target => h (he ▸ hslot)

namespace Node

theorem unlink_of_not_linksTo {n : Node} {target : NodeId} (h : ¬n.LinksTo target) :
    n.unlink target = n := by
  rw [unlink, dropSlots_of_not_mem h]

def relink (n : Node) (target : NodeId) (slots : List Nat) : Node :=
  { n with outputs := insertSlots target n.outputs slots }

theorem relink_unlink (n : Node) (target : NodeId) :
    (n.unlink target).relink target (slotsOf target n.outputs) = n := by
  rw [relink, unlink, insertSlots_dropSlots]

end Node

/-! ### Lists whose elements have different names -/

section

variable {α : Type _} {key : α → NodeId} {l : List α}

theorem map_ite_of_not_mem {id : NodeId} (h : id ∉ l.map key) (f : α → α) :
    (l.map fun a => if key a = id then f a else a) = l := by
  have hid : (l.map fun a => if key a = id then f a else a) = l.map fun a => a := by
    apply List.map_congr_left
    intro a ha
    have hne : key a ≠ id := fun he => h (he ▸ List.mem_map_of_mem ha)
    rw [if_neg hne]
  rw [hid, List.map_id']

theorem modify_eq_map (h : (l.map key).Nodup) (id : NodeId) (f : α → α) :
    l.modify (l.findIdx fun a => key a = id) f = l.map fun a => if key a = id then f a else a := by
  induction l with
  | nil => rfl
  | cons a l ih =>
      obtain ⟨ha, hl⟩ := List.nodup_cons.1 h
      rw [List.findIdx_cons, List.map_cons]
      by_cases hid : key a = id
      · have hrest := map_ite_of_not_mem (hid ▸ ha) f
        rw [if_pos hid, hrest]
        simp [hid]
      · rw [if_neg hid, ← ih hl]
        simp [hid]

theorem modify_map {α' : Type _} {f : α → α} {f' : α' → α'} {k : α → α'}
    (hk : ∀ a, k (f a) = f' (k a)) (l : List α) (i : Nat) :
    (l.map k).modify i f' = (l.modify i f).map k := by
  induction l generalizing i with
  | nil => simp
  | cons a l ih =>
      cases i with
      | zero => simp [hk]
      | succ i => simp [ih]

theorem map_modify_eq_map {α α' : Type _} {f : α → α} {k : α → α'} (hk : ∀ a, k (f a) = k a)
    (l : List α) (i : Nat) : (l.modify i f).map k = l.map k := by
  have hmap : (l.map k).modify i id = (l.modify i f).map k := modify_map hk l i
  rw [← hmap, List.modify_id]

theorem find?_eq_some_iff_mem (h : (l.map key).Nodup) {id : NodeId} {a : α} :
    l.find? (fun a => key a = id) = some a ↔ a ∈ l ∧ key a = id := by
  induction l with
  | nil => simp
  | cons b l ih =>
      obtain ⟨hb, hl⟩ := List.nodup_cons.1 h
      rw [List.find?_cons, List.mem_cons]
      by_cases hid : key b = id
      · have hnot : ∀ c ∈ l, key c ≠ id := by
          intro c hc he
          exact hb (hid.trans he.symm ▸ List.mem_map_of_mem hc)
        constructor
        · intro he
          have he' : some b = some a := by simpa [hid] using he
          obtain rfl := Option.some.inj he'
          exact ⟨.inl rfl, hid⟩
        · rintro ⟨rfl | ha, he⟩
          · simp [hid]
          · exact absurd he (hnot a ha)
      · constructor
        · intro he
          have he' : l.find? (fun a => key a = id) = some a := by simpa [hid] using he
          obtain ⟨ha, hid'⟩ := (ih hl).1 he'
          exact ⟨.inr ha, hid'⟩
        · rintro ⟨rfl | ha, he⟩
          · exact absurd he hid
          · simpa [hid] using (ih hl).2 ⟨ha, he⟩

end

end StoryGraph
