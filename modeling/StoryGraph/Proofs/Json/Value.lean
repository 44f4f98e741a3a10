import StoryGraph.Json.Value
import StoryGraph.Proofs.Json.Document

/-!
# Values that are written

A value whose numbers are read as they were written is read as it was written exactly if it could
have been read in the first place: its members ascend by name, and it nests no deeper than the
reader allows.
-/

namespace StoryGraph

theorem mapM_eq_some_iff {α β : Type _} {f : α → Option β} {l : List α} {l' : List β} :
    l.mapM f = some l' ↔ List.Forall₂ (fun a b => f a = some b) l l' := by
  induction l generalizing l' with
  | nil => simp [eq_comm]
  | cons a l ih =>
      rw [List.mapM_cons, List.forall₂_cons_left_iff]
      simp only [Option.bind_eq_bind, Option.pure_def, Option.bind_eq_some_iff, Option.some.injEq,
        ih]
      constructor
      · rintro ⟨b, hb, l'', hl'', rfl⟩
        exact ⟨b, l'', hb, hl'', rfl⟩
      · rintro ⟨b, l'', hb, hl'', rfl⟩
        exact ⟨b, hb, l'', hl'', rfl⟩

theorem exists_of_forall₂ {α β : Type _} {r : α → β → Prop} {l : List α} {l' : List β}
    (h : List.Forall₂ r l l') {a : α} (ha : a ∈ l) : ∃ b ∈ l', r a b := by
  induction h with
  | nil => cases ha
  | @cons c b l l' hcb _ ih =>
      rcases List.mem_cons.1 ha with rfl | ha
      · exact ⟨b, List.mem_cons_self, hcb⟩
      · obtain ⟨d, hd, had⟩ := ih ha
        exact ⟨d, List.mem_cons_of_mem b hd, had⟩

theorem exists_of_mapM {α β : Type _} {f : α → Option β} {l : List α} {l' : List β}
    (h : l.mapM f = some l') {b : β} (hb : b ∈ l') : ∃ a ∈ l, f a = some b :=
  exists_of_forall₂ (mapM_eq_some_iff.1 h).flip hb

theorem mapM_map_eq_some_iff {α β : Type _} {write : β → α} {read : α → Option β} {l : List β} :
    (l.map write).mapM read = some l ↔ ∀ b ∈ l, read (write b) = some b := by
  rw [mapM_eq_some_iff, List.forall₂_map_left_iff, List.forall₂_same]

/-! ### Tables -/

section

variable {α : Type _} {l acc : List (String × α)}

theorem upsert_eq_append {name : String} {value : α} (h : ∀ e ∈ l, e.1 < name) :
    upsert name value l = l ++ [(name, value)] := by
  induction l with
  | nil => rfl
  | cons e l ih =>
      have he := h e List.mem_cons_self
      rw [upsert, if_neg (String.lt_asymm he), if_neg (String.ne_of_lt he).symm,
        ih fun f hf => h f (List.mem_cons_of_mem e hf), List.cons_append]

/-- Entries that ascend stay as they are when they are put in one after the other. -/
theorem foldl_upsert_eq {a : List (String × α)} (h : Ascending (a ++ l)) :
    l.foldl (fun l m => upsert m.1 m.2 l) a = a ++ l := by
  induction l generalizing a with
  | nil => simp
  | cons e l ih =>
      have hlt : ∀ f ∈ a, f.1 < e.1 := fun f hf =>
        (List.pairwise_append.1 h).2.2 f hf e List.mem_cons_self
      rw [List.foldl_cons, upsert_eq_append hlt, ih, List.append_assoc, List.singleton_append]
      rw [List.append_assoc, List.singleton_append]
      exact h

theorem ascending_foldl_upsert (h : Ascending acc) :
    Ascending (l.foldl (fun l m => upsert m.1 m.2 l) acc) := by
  induction l generalizing acc with
  | nil => exact h
  | cons e l ih => exact ih h.upsert

theorem mem_foldl_upsert {e : String × α} (h : e ∈ l.foldl (fun l m => upsert m.1 m.2 l) acc) :
    e ∈ acc ∨ e ∈ l := by
  induction l generalizing acc with
  | nil => exact .inl h
  | cons f l ih =>
      rcases ih h with h | h
      · rcases mem_upsert h with rfl | h
        · exact .inr List.mem_cons_self
        · exact .inl h
      · exact .inr (List.mem_cons_of_mem f h)

/-- Whether entries ascend depends on their names alone. -/
theorem ascending_of_names {β : Type _} {l' : List (String × β)}
    (h : l'.map Prod.fst = l.map Prod.fst) (hl : Ascending l) : Ascending l' := by
  have hnames : (l'.map Prod.fst).Pairwise (· < ·) := by
    rw [h]
    exact List.pairwise_map.2 hl
  exact List.pairwise_map.1 hnames

theorem Table.toList_ofList (l : List (String × α)) :
    (Table.ofList l).toList = l.foldl (fun l m => upsert m.1 m.2 l) [] := by
  suffices h : ∀ t : Table α, (l.foldl (fun t e => t.insert e.1 e.2) t).toList =
      l.foldl (fun l m => upsert m.1 m.2 l) t.toList from h ∅
  induction l with
  | nil => exact fun t => rfl
  | cons e l ih => exact fun t => ih (t.insert e.1 e.2)

theorem Table.ofList_toList (t : Table α) : Table.ofList t.toList = t := by
  apply Table.ext_toList
  rw [Table.toList_ofList]
  exact foldl_upsert_eq (a := []) t.ascending

end

namespace Json.Value

inductive ReadsBack : Value → Prop
  | null : ReadsBack .null
  | bool (b : Bool) : ReadsBack (.bool b)
  | number {n : Number} (readsBack : n.ReadsBack) : ReadsBack (.number n)
  | string (s : String) : ReadsBack (.string s)
  | array {items : List Value} (readsBack : ∀ v ∈ items, v.ReadsBack) : ReadsBack (.array items)
  | object {members : List (String × Value)} (readsBack : ∀ m ∈ members, m.2.ReadsBack) :
      ReadsBack (.object members)

/-- The values that a reader can answer with: members ascend by name, and arrays and objects nest
at most so many times. -/
inductive Fits : Nat → Value → Prop
  | null {depth : Nat} : Fits depth .null
  | bool {depth : Nat} (b : Bool) : Fits depth (.bool b)
  | number {depth : Nat} (n : Number) : Fits depth (.number n)
  | string {depth : Nat} (s : String) : Fits depth (.string s)
  | array {depth : Nat} {items : List Value} (fits : ∀ v ∈ items, v.Fits depth) :
      Fits (depth + 1) (.array items)
  | object {depth : Nat} {members : List (String × Value)} (ascending : Ascending members)
      (fits : ∀ m ∈ members, m.2.Fits depth) : Fits (depth + 1) (.object members)

variable {v : Value} {depth : Nat}

theorem itemTrees_eq (items : List Value) : itemTrees items = items.map toTree := by
  induction items with
  | nil => rfl
  | cons v items ih => rw [itemTrees, ih, List.map_cons]

theorem memberTrees_eq (members : List (String × Value)) :
    memberTrees members = members.map fun m => (some m.1, m.2.toTree) := by
  induction members with
  | nil => rfl
  | cons m members ih => rw [memberTrees, ih, List.map_cons]

theorem ReadsBack.wellFormed_toTree (hv : v.ReadsBack) : v.toTree.WellFormed := by
  induction hv with
  | null => exact .null
  | bool b => exact .bool b
  | @number n _ => exact .number n.wellFormed_numeral
  | string s => exact .text s
  | @array items _ ih =>
      rw [toTree, itemTrees_eq]
      exact .array (List.forall_mem_map.2 ih)
  | @object members _ ih =>
      rw [toTree, memberTrees_eq]
      exact .object (List.forall_mem_map.2 fun _ _ => rfl) (List.forall_mem_map.2 ih)

/-- The members that are read are those that were written if they ascend. -/
theorem ofMembers_eq_iff {members read : List (String × Value)}
    (hnames : read.map Prod.fst = members.map Prod.fst) :
    ofMembers read = members ↔ Ascending members ∧ read = members := by
  constructor
  · intro h
    have hasc : Ascending members := h ▸ ascending_foldl_upsert List.Pairwise.nil
    have hread : ofMembers read = read := foldl_upsert_eq (ascending_of_names hnames hasc)
    exact ⟨hasc, hread.symm.trans h⟩
  · rintro ⟨hasc, rfl⟩
    exact foldl_upsert_eq hasc

def members? (depth : Nat) (members : List (Option String × Tree)) :
    Option (List (String × Value)) :=
  members.mapM fun m => m.1.bind fun name => (ofTree? depth m.2).map (name, ·)

theorem ofTree?_object (depth : Nat) (members : List (Option String × Tree)) :
    ofTree? (depth + 1) (.object members) =
      (members? depth members).map fun members => .object (ofMembers members) := by
  rw [ofTree?, members?]
  have hread : (fun m : Option String × Tree =>
      m.1.bind fun name => (ofTree? depth m.2).map (name, ·)) =
        fun m => do
          let name ← m.1
          let value ← ofTree? depth m.2
          return (name, value) := by
    funext ⟨name, t⟩
    cases name with
    | none => rfl
    | some name =>
        dsimp only
        cases ofTree? depth t <;> rfl
  rw [hread, Option.map_eq_bind]
  rfl

theorem members?_memberTrees {members read : List (String × Value)} :
    members? depth (memberTrees members) = some read ↔
      List.Forall₂ (fun m r => ofTree? depth m.2.toTree = some r.2 ∧ r.1 = m.1) members read := by
  rw [members?, memberTrees_eq, mapM_eq_some_iff, List.forall₂_map_left_iff]
  have hmember : ∀ m r : String × Value,
      ((some m.1).bind fun name => (ofTree? depth m.2.toTree).map (name, ·)) = some r ↔
        ofTree? depth m.2.toTree = some r.2 ∧ r.1 = m.1 := by
    rintro ⟨name, v⟩ ⟨name', v'⟩
    simp only [Option.bind_some, Option.map_eq_some_iff, Prod.mk.injEq]
    constructor
    · rintro ⟨_, h, rfl, rfl⟩
      exact ⟨h, rfl⟩
    · rintro ⟨h, rfl⟩
      exact ⟨_, h, rfl, rfl⟩
  simp only [hmember]

/-- A value is read as it was written exactly if a reader could answer with it. -/
theorem ReadsBack.ofTree?_toTree_iff (hv : v.ReadsBack) :
    ofTree? depth v.toTree = some v ↔ v.Fits depth := by
  induction hv generalizing depth with
  | null => simp [toTree, ofTree?, Fits.null]
  | bool b => simp [toTree, ofTree?, Fits.bool]
  | @number n hn =>
      rw [toTree, ofTree?, hn]
      exact iff_of_true rfl (.number n)
  | string s => simp [toTree, Tree.text, ofTree?, Fits.string]
  | @array items _ ih =>
      rw [toTree, itemTrees_eq]
      cases depth with
      | zero => exact iff_of_false nofun nofun
      | succ depth =>
          rw [ofTree?, Option.map_eq_some_iff]
          constructor
          · rintro ⟨items', h, heq⟩
            obtain rfl := Value.array.inj heq
            exact .array fun v hv => (ih v hv).1 (mapM_map_eq_some_iff.1 h v hv)
          · rintro (_ | _ | _ | _ | hfits)
            exact ⟨items, mapM_map_eq_some_iff.2 fun v hv => (ih v hv).2 (hfits v hv), rfl⟩
  | @object members _ ih =>
      rw [toTree]
      cases depth with
      | zero => exact iff_of_false nofun nofun
      | succ depth =>
          rw [ofTree?_object, Option.map_eq_some_iff]
          constructor
          · rintro ⟨read, h, heq⟩
            rw [members?_memberTrees] at h
            have hnames : read.map Prod.fst = members.map Prod.fst := by
              rw [← List.forall₂_eq_eq_eq, List.forall₂_map_left_iff, List.forall₂_map_right_iff]
              exact (h.imp fun m r hr => hr.2).flip
            obtain ⟨hasc, rfl⟩ := (ofMembers_eq_iff hnames).1 (Value.object.inj heq)
            rw [List.forall₂_same] at h
            exact .object hasc fun m hm => (ih m hm).1 (h m hm).1
          · rintro (_ | _ | _ | _ | _ | ⟨hasc, hfits⟩)
            refine ⟨members, members?_memberTrees.2 (List.forall₂_same.2 ?_), ?_⟩
            · exact fun m hm => ⟨(ih m hm).2 (hfits m hm), rfl⟩
            · rw [(ofMembers_eq_iff rfl).2 ⟨hasc, rfl⟩]

/-- What is read could be read. -/
theorem fits_of_ofTree? {t : Tree} (h : ofTree? depth t = some v) : v.Fits depth := by
  induction depth using Nat.strongRecOn generalizing t v with
  | ind depth ih =>
      cases t with
      | null =>
          rw [ofTree?] at h
          exact Option.some.inj h ▸ .null
      | bool b =>
          rw [ofTree?] at h
          exact Option.some.inj h ▸ .bool b
      | number n =>
          rw [ofTree?] at h
          obtain ⟨n, -, rfl⟩ := Option.map_eq_some_iff.1 h
          exact .number n
      | string s =>
          rw [ofTree?] at h
          obtain ⟨s, -, rfl⟩ := Option.map_eq_some_iff.1 h
          exact .string s
      | array items =>
          cases depth with
          | zero => cases h
          | succ depth =>
              obtain ⟨items, hitems, rfl⟩ := Option.map_eq_some_iff.1 h
              refine .array fun v hv => ?_
              obtain ⟨t, -, ht⟩ := exists_of_mapM hitems hv
              exact ih depth (Nat.lt_succ_self depth) ht
      | object members =>
          cases depth with
          | zero => cases h
          | succ depth =>
              rw [ofTree?_object] at h
              obtain ⟨read, hread, rfl⟩ := Option.map_eq_some_iff.1 h
              refine .object (ascending_foldl_upsert List.Pairwise.nil) fun m hm => ?_
              have hmem := (mem_foldl_upsert hm).resolve_left List.not_mem_nil
              obtain ⟨m', -, hm'⟩ := exists_of_mapM hread hmem
              obtain ⟨name, -, hname⟩ := Option.bind_eq_some_iff.1 hm'
              obtain ⟨v, hv, rfl⟩ := Option.map_eq_some_iff.1 hname
              exact ih depth (Nat.lt_succ_self depth) hv

end Json.Value

end StoryGraph
