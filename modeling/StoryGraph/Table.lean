/-!
# Tables

A table holds at most one value under each name and lists its entries by name. The order is part
of the type, so two tables with the same values are the same table, however they were filled
(`Table.ext_get?`), and a listing never depends on history.

Names order by code points, which is also the order of their UTF-8 bytes.
-/

namespace StoryGraph

/-- Whether each entry stands before those with greater names. -/
def Ascending {α : Type _} (l : List (String × α)) : Prop := l.Pairwise fun a b => a.1 < b.1

/-- Puts a value under a name into a list that ascends by name, replacing the value there. -/
def upsert {α : Type _} (name : String) (value : α) : List (String × α) → List (String × α)
  | [] => [(name, value)]
  | e :: rest =>
    if name < e.1 then (name, value) :: e :: rest
    else if name = e.1 then (name, value) :: rest
    else e :: upsert name value rest

theorem mem_upsert {α : Type _} {name : String} {value : α} {l : List (String × α)}
    {e : String × α} (h : e ∈ upsert name value l) : e = (name, value) ∨ e ∈ l := by
  induction l with
  | nil => simpa [upsert] using h
  | cons f rest ih =>
    unfold upsert at h
    split at h
    · simpa using h
    · split at h
      · rcases List.mem_cons.1 h with h | h
        · exact .inl h
        · exact .inr (List.mem_cons_of_mem _ h)
      · rcases List.mem_cons.1 h with h | h
        · exact .inr (h ▸ List.mem_cons_self)
        · exact (ih h).imp id (List.mem_cons_of_mem _)

theorem Ascending.upsert {α : Type _} {name : String} {value : α} {l : List (String × α)}
    (h : Ascending l) : Ascending (upsert name value l) := by
  induction l with
  | nil => simp [Ascending, StoryGraph.upsert]
  | cons e rest ih =>
    obtain ⟨he, hr⟩ := List.pairwise_cons.1 h
    unfold StoryGraph.upsert
    split
    · rename_i hlt
      refine List.pairwise_cons.2 ⟨fun f hf => ?_, h⟩
      rcases List.mem_cons.1 hf with rfl | hf
      · exact hlt
      · exact String.lt_trans hlt (he f hf)
    · split
      · rename_i heq
        exact List.pairwise_cons.2 ⟨fun f hf => by simpa [heq] using he f hf, hr⟩
      · rename_i hlt hne
        refine List.pairwise_cons.2 ⟨fun f hf => ?_, ih hr⟩
        rcases mem_upsert hf with rfl | hf
        · exact String.not_le.1 fun hle =>
            hne (String.le_antisymm hle (String.not_lt.1 hlt))
        · exact he f hf

structure Table (α : Type _) where
  toList : List (String × α)
  ascending : Ascending toList

namespace Table

variable {α : Type _}

def empty : Table α := ⟨[], List.Pairwise.nil⟩

instance : EmptyCollection (Table α) := ⟨empty⟩
instance : Inhabited (Table α) := ⟨∅⟩

instance [DecidableEq α] : DecidableEq (Table α) := fun s t =>
  decidable_of_iff (s.toList = t.toList) (by cases s; cases t; simp)

def get? (t : Table α) (name : String) : Option α :=
  (t.toList.find? fun e => e.1 = name).map Prod.snd

def contains (t : Table α) (name : String) : Bool := (t.get? name).isSome

def insert (t : Table α) (name : String) (value : α) : Table α :=
  ⟨upsert name value t.toList, t.ascending.upsert⟩

def erase (t : Table α) (name : String) : Table α :=
  ⟨t.toList.filter fun e => e.1 ≠ name, t.ascending.filter _⟩

def size (t : Table α) : Nat := t.toList.length

def isEmpty (t : Table α) : Bool := t.toList.isEmpty

/-- The table that results from putting in the entries of a list one after the other, so that the
last one under a name stays. -/
def ofList (l : List (String × α)) : Table α :=
  l.foldl (fun t e => t.insert e.1 e.2) ∅

/-- Puts a value under a name, or drops the one there. -/
def set (t : Table α) (name : String) : Option α → Table α
  | some value => t.insert name value
  | none => t.erase name

theorem ext_toList {s t : Table α} (h : s.toList = t.toList) : s = t := by
  cases s; cases t; simp_all

@[simp] theorem get?_empty (name : String) : (∅ : Table α).get? name = none := rfl

theorem get?_eq_some_iff {t : Table α} {name : String} {value : α} :
    t.get? name = some value ↔ (name, value) ∈ t.toList := by
  obtain ⟨l, h⟩ := t
  simp only [get?]
  induction l with
  | nil => simp
  | cons e rest ih =>
    obtain ⟨he, hr⟩ := List.pairwise_cons.1 h
    by_cases hn : e.1 = name
    · have hm : (name, value) ∉ rest := fun hm => String.lt_irrefl _ (hn ▸ he _ hm)
      obtain ⟨n, v⟩ := e
      simp only at hn
      subst hn
      simp [hm, eq_comm]
    · have : (name, value) ≠ e := fun h => hn (h ▸ rfl)
      simpa [hn, this] using ih hr

/-- A table is determined by the values under its names. -/
theorem ext_get? {s t : Table α} (h : ∀ name, s.get? name = t.get? name) : s = t := by
  have hmem : ∀ e, e ∈ s.toList ↔ e ∈ t.toList := by
    rintro ⟨name, value⟩
    rw [← get?_eq_some_iff, h, get?_eq_some_iff]
  apply ext_toList
  have nodup : ∀ {l : List (String × α)}, Ascending l → l.Nodup := by
    intro l hl
    refine List.nodup_iff_pairwise_ne.2 (hl.imp ?_)
    rintro a b hlt rfl
    exact String.lt_irrefl _ hlt
  have hperm : s.toList.Perm t.toList :=
    (List.perm_ext_iff_of_nodup (nodup s.ascending) (nodup t.ascending)).2 hmem
  exact hperm.eq_of_pairwise
    (fun _ _ _ _ hlt hgt => absurd (String.lt_trans hlt hgt) (String.lt_irrefl _))
    s.ascending t.ascending

theorem get?_insert (t : Table α) (name other : String) (value : α) :
    (t.insert name value).get? other = if other = name then some value else t.get? other := by
  obtain ⟨l, h⟩ := t
  simp only [get?, insert]
  induction l with
  | nil => by_cases hn : other = name <;> simp [upsert, hn, eq_comm]
  | cons e rest ih =>
    obtain ⟨he, hr⟩ := List.pairwise_cons.1 h
    unfold upsert
    split
    · by_cases hn : other = name <;> simp [hn, eq_comm]
    · split
      · rename_i heq
        by_cases hn : other = name
        · simp [hn]
        · have : e.1 ≠ other := fun h => hn (heq.trans h).symm
          have hne : ¬name = other := fun h => hn h.symm
          simp [hn, this, hne]
      · rename_i _ hne
        by_cases hn : e.1 = other
        · have : ¬other = name := fun h => hne (h.symm.trans hn.symm)
          simp [hn, this]
        · simpa [hn] using ih hr

theorem get?_erase (t : Table α) (name other : String) :
    (t.erase name).get? other = if other = name then none else t.get? other := by
  apply Option.ext
  intro value
  rw [get?_eq_some_iff]
  by_cases hn : other = name
  · simp [erase, hn]
  · simp [erase, hn, get?_eq_some_iff]

end Table

end StoryGraph
