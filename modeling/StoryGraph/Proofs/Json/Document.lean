import StoryGraph.Proofs.Json.Scan

/-!
# Documents that are written

A tree that is written with one item on each line, or without blanks, is read as the same tree. The
reader is followed over the tokens of one tree at a time: whatever containers are open, it takes the
tokens of a value and stands behind that value.
-/

namespace StoryGraph.Json.Tree

/-- A tree that a text can hold: its numerals are those of documents, and its strings are texts. -/
inductive WellFormed : Tree → Prop
  | null : WellFormed .null
  | bool (b : Bool) : WellFormed (.bool b)
  | number {n : Numeral} (wellFormed : n.WellFormed) : WellFormed (.number n)
  | text (s : String) : WellFormed (.text s)
  | array {items : List Tree} (wellFormed : ∀ t ∈ items, t.WellFormed) : WellFormed (.array items)
  | object {members : List (Option String × Tree)} (named : ∀ m ∈ members, m.1.isSome)
      (wellFormed : ∀ m ∈ members, m.2.WellFormed) : WellFormed (.object members)

variable {t : Tree} {items : List Tree} {members : List (Option String × Tree)}
  {stack : List Frame} {rest : List Token}

/-! ### The tokens -/

/-- The tokens of a tree stay legible in front of others that start with no number. -/
def Extends (t : Tree) : Prop :=
  ∀ rest : List Token, (∀ u ∈ rest.head?, ¬u.IsNumber) → Legible rest → Legible (t.tokens ++ rest)

/-- A token that is no number stands in front of anything. -/
theorem legible_cons {u : Token} (hu : u.WellFormed) (hnumber : ¬u.IsNumber)
    (hrest : Legible rest) : Legible (u :: rest) :=
  legible_cons_iff.2 ⟨hu, fun h => absurd h hnumber, hrest⟩

theorem not_isNumber_head {u : Token} (hu : ¬u.IsNumber) :
    ∀ v ∈ (u :: rest).head?, ¬v.IsNumber := by
  intro v hv
  obtain rfl := Option.some.inj hv
  exact hu

theorem legible_itemTokens (hitems : ∀ t ∈ items, t.Extends) (hrest : Legible rest) :
    Legible (itemTokens items ++ .closeArray :: rest) := by
  induction items with
  | nil => exact legible_cons trivial id hrest
  | cons t items ih =>
      have ht := hitems t List.mem_cons_self
      have hitems := ih fun u hu => hitems u (List.mem_cons_of_mem t hu)
      cases items with
      | nil => exact ht _ (not_isNumber_head id) (legible_cons trivial id hrest)
      | cons u items =>
          rw [itemTokens, List.append_assoc, List.cons_append]
          · exact ht _ (not_isNumber_head id) (legible_cons trivial id hitems)
          · exact List.cons_ne_nil u items

theorem legible_memberTokens (hnamed : ∀ m ∈ members, m.1.isSome)
    (hmembers : ∀ m ∈ members, m.2.Extends) (hrest : Legible rest) :
    Legible (memberTokens members ++ .closeObject :: rest) := by
  induction members with
  | nil => exact legible_cons trivial id hrest
  | cons m members ih =>
      obtain ⟨name, t⟩ := m
      have hname : (Token.string name).WellFormed := hnamed (name, t) List.mem_cons_self
      have ht := hmembers (name, t) List.mem_cons_self
      have hmembers := ih (fun m hm => hnamed m (List.mem_cons_of_mem _ hm))
        fun m hm => hmembers m (List.mem_cons_of_mem _ hm)
      cases members with
      | nil =>
          exact legible_cons hname id (legible_cons trivial id
            (ht _ (not_isNumber_head id) (legible_cons trivial id hrest)))
      | cons m members =>
          rw [memberTokens, List.cons_append, List.cons_append, List.append_assoc, List.cons_append]
          · exact legible_cons hname id (legible_cons trivial id
              (ht _ (not_isNumber_head id) (legible_cons trivial id hmembers)))
          · exact List.cons_ne_nil m members

theorem WellFormed.extends (ht : t.WellFormed) : t.Extends := by
  induction ht with
  | null => exact fun rest _ hrest => legible_cons trivial id hrest
  | bool b => exact fun rest _ hrest => legible_cons trivial id hrest
  | number hn => exact fun rest hhead hrest => legible_cons_iff.2 ⟨hn, fun _ => hhead, hrest⟩
  | text s => exact fun rest _ hrest => legible_cons rfl id hrest
  | @array items _ ih =>
      intro rest _ hrest
      rw [tokens, List.cons_append, List.append_assoc]
      exact legible_cons trivial id (legible_itemTokens ih hrest)
  | @object members hnamed _ ih =>
      intro rest _ hrest
      rw [tokens, List.cons_append, List.append_assoc]
      exact legible_cons trivial id (legible_memberTokens hnamed ih hrest)

theorem WellFormed.legible (ht : t.WellFormed) : Legible t.tokens := by
  rw [← List.append_nil t.tokens]
  exact ht.extends [] (by simp) legible_nil

/-! ### Reading the tokens -/

/-- The reader takes the tokens of a tree and stands behind it. -/
def Parses (t : Tree) : Prop := ∀ stack rest,
  readTokens? .value stack (t.tokens ++ rest) = readTokens? (.done t) stack rest

theorem readTokens?_cons {spot spot' : Spot} {stack' : List Frame} {u : Token}
    (h : readToken spot stack u = some (spot', stack')) :
    readTokens? spot stack (u :: rest) = readTokens? spot' stack' rest := by
  rw [readTokens?, h]

theorem exists_tokens_eq (t : Tree) : ∃ u us, t.tokens = u :: us ∧ u ≠ .closeArray := by
  cases t <;> exact ⟨_, _, rfl, by simp⟩

theorem exists_itemTokens_eq (t : Tree) (items : List Tree) :
    ∃ us, itemTokens (t :: items) = t.tokens ++ us := by
  cases items with
  | nil => exact ⟨[], (List.append_nil _).symm⟩
  | cons u items => exact ⟨.comma :: itemTokens (u :: items), by simp [itemTokens]⟩

theorem exists_memberTokens_eq (m : Option String × Tree) (members : List (Option String × Tree)) :
    ∃ us, memberTokens (m :: members) = .string m.1 :: us := by
  cases members with
  | nil => exact ⟨_, rfl⟩
  | cons n members => exact ⟨.colon :: (m.2.tokens ++ .comma :: memberTokens (n :: members)), by
      simp [memberTokens]⟩

/-- In front of the first item the reader waits for a value, unless the container is empty. -/
theorem readTokens?_first (t : Tree) (rest : List Token) :
    readTokens? .itemOrClose (.array [] :: stack) (t.tokens ++ rest) =
      readTokens? .value (.array [] :: stack) (t.tokens ++ rest) := by
  obtain ⟨u, us, ht, hu⟩ := t.exists_tokens_eq
  have htoken : readToken .itemOrClose (.array [] :: stack) u =
      readToken .value (.array [] :: stack) u := by
    cases u <;> first | rfl | contradiction
  rw [ht, List.cons_append, readTokens?, readTokens?, htoken]

theorem readTokens?_itemTokens (hitems : ∀ t ∈ items, t.Parses) (hne : items ≠ [])
    (acc : List Tree) :
    readTokens? .value (.array acc :: stack) (itemTokens items ++ .closeArray :: rest) =
      readTokens? (.done (.array (acc.reverse ++ items))) stack rest := by
  induction items generalizing acc with
  | nil => exact absurd rfl hne
  | cons t items ih =>
      have ht := hitems t List.mem_cons_self
      cases items with
      | nil =>
          rw [itemTokens, ht, readTokens?_cons rfl, List.reverse_cons]
      | cons u items =>
          have hrest := ih (fun u hu => hitems u (List.mem_cons_of_mem t hu))
            (List.cons_ne_nil u items) (t :: acc)
          rw [itemTokens, List.append_assoc, List.cons_append, ht, readTokens?_cons rfl, hrest,
            List.reverse_cons, List.append_assoc, List.singleton_append]
          exact List.cons_ne_nil u items

theorem readTokens?_memberTokens (hmembers : ∀ m ∈ members, m.2.Parses) (hne : members ≠ [])
    (acc : List (Option String × Tree)) :
    readTokens? .name (.object acc :: stack) (memberTokens members ++ .closeObject :: rest) =
      readTokens? (.done (.object (acc.reverse ++ members))) stack rest := by
  induction members generalizing acc with
  | nil => exact absurd rfl hne
  | cons m members ih =>
      obtain ⟨name, t⟩ := m
      have ht := hmembers (name, t) List.mem_cons_self
      cases members with
      | nil =>
          rw [memberTokens, List.cons_append, List.cons_append, readTokens?_cons rfl,
            readTokens?_cons rfl, ht, readTokens?_cons rfl, List.reverse_cons]
      | cons m members =>
          have hrest := ih (fun m hm => hmembers m (List.mem_cons_of_mem _ hm))
            (List.cons_ne_nil m members) ((name, t) :: acc)
          rw [memberTokens, List.cons_append, List.cons_append, List.append_assoc, List.cons_append,
            readTokens?_cons rfl, readTokens?_cons rfl, ht, readTokens?_cons rfl, hrest,
            List.reverse_cons, List.append_assoc, List.singleton_append]
          exact List.cons_ne_nil m members

theorem WellFormed.parses (ht : t.WellFormed) : t.Parses := by
  induction ht with
  | null => exact fun stack rest => readTokens?_cons rfl
  | bool b => exact fun stack rest => readTokens?_cons rfl
  | number hn => exact fun stack rest => readTokens?_cons rfl
  | text s => exact fun stack rest => readTokens?_cons rfl
  | @array items _ ih =>
      intro stack rest
      rw [tokens, List.cons_append, List.append_assoc, readTokens?_cons rfl]
      cases items with
      | nil => exact readTokens?_cons rfl
      | cons t items =>
          have hitems : readTokens? .value (.array [] :: stack)
              (itemTokens (t :: items) ++ .closeArray :: rest) =
                readTokens? (.done (.array (t :: items))) stack rest :=
            readTokens?_itemTokens ih (List.cons_ne_nil t items) []
          obtain ⟨us, hus⟩ := exists_itemTokens_eq t items
          rw [hus, List.append_assoc] at hitems ⊢
          exact (readTokens?_first t _).trans hitems
  | @object members _ _ ih =>
      intro stack rest
      rw [tokens, List.cons_append, List.append_assoc, readTokens?_cons rfl]
      cases members with
      | nil => exact readTokens?_cons rfl
      | cons m members =>
          have hmembers : readTokens? .name (.object [] :: stack)
              (memberTokens (m :: members) ++ .closeObject :: rest) =
                readTokens? (.done (.object (m :: members))) stack rest :=
            readTokens?_memberTokens ih (List.cons_ne_nil m members) []
          obtain ⟨us, hus⟩ := exists_memberTokens_eq m members
          rw [hus, List.cons_append, readTokens?_cons rfl] at hmembers ⊢
          exact hmembers

/-- Whatever text the tokens of a tree are found in, it is read as the tree. -/
theorem WellFormed.read?_of_scan (ht : t.WellFormed) {s : String}
    (hscan : scan s.toList = some t.tokens) : read? s = some t := by
  have hparse := ht.parses [] []
  rw [List.append_nil] at hparse
  rw [read?, hscan]
  exact hparse

/-- A tree is read as it was written, with one item on each line. -/
theorem WellFormed.read?_pretty (ht : t.WellFormed) : read? t.pretty = some t := by
  refine ht.read?_of_scan ?_
  rw [pretty, String.toList_ofList]
  exact scan_spread 0 ht.legible

/-- A tree is read as it was written, without blanks. -/
theorem WellFormed.read?_compact (ht : t.WellFormed) : read? t.compact = some t := by
  refine ht.read?_of_scan ?_
  rw [compact, String.toList_ofList]
  exact scan_flatMap_chars ht.legible

end StoryGraph.Json.Tree
