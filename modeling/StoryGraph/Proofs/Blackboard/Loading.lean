import StoryGraph.Proofs.Blackboard.Entry

/-!
# Boards that take in a list

An entry is good if its text is a value of its type. A board that takes in a list holds the value of
the last good entry under each key (`Blackboard.LastGood`), and nothing else: not what it held before,
and nothing of an entry that is not good, wherever that stands. A document is taken in as the list of
those of its elements that are entries, well written (`Entry.Written`); only a text that is no list
is refused, and then nothing has been done to the board.
-/

namespace StoryGraph

theorem Table.nodup_keys {α : Type _} (t : Table α) : (t.toList.map Prod.fst).Nodup := by
  refine List.pairwise_map.2 (List.Pairwise.imp ?_ t.ascending)
  intro a b hlt heq
  exact String.lt_irrefl b.1 (heq ▸ hlt)

theorem Table.mem_keys_iff {α : Type _} {t : Table α} {name : String} :
    name ∈ t.toList.map Prod.fst ↔ ∃ value, t.get? name = some value := by
  simp only [Table.get?_eq_some_iff, List.mem_map, Prod.exists, exists_and_right, exists_eq_right]

namespace Blackboard

variable {b : Blackboard} {key : String} {v : Value} {entries : List Entry} {e : Entry}

/-! ### Taking in a document -/

theorem read_of_array {s : String} {items : List Json.Value}
    (h : Json.Value.read? s = some (.array items)) (b : Blackboard) :
    b.read s = .ok (b.load (items.filterMap Entry.ofJson?)) := by
  rw [read, h]

theorem read_of_ne_array {s : String} (h : ∀ items, Json.Value.read? s ≠ some (.array items))
    (b : Blackboard) : b.read s = .error .json := by
  unfold read
  split
  · rename_i items hitems
    exact absurd hitems (h items)
  · rfl

/-- Something that is done to a board in place. What was done before a refusal stays done. -/
abbrev InPlace := EStateM DataError Blackboard

namespace InPlace

def load (entries : List Entry) : InPlace Nat := do
  modify clear
  entries.forM fun e => modify (·.take e)
  return (← get).size

def read (s : String) : InPlace Nat := do
  match Json.Value.read? s with
  | some (.array items) => load (items.filterMap Entry.ofJson?)
  | _ => throw .json

theorem run_forM_take (entries : List Entry) (b : Blackboard) :
    (entries.forM fun e => modify (·.take e) : InPlace Unit).run b =
      .ok () (entries.foldl take b) := by
  induction entries generalizing b with
  | nil => rfl
  | cons e entries ih => exact ih (b.take e)

theorem run_load (entries : List Entry) (b : Blackboard) :
    (load entries).run b = .ok (b.load entries).1 (b.load entries).2 := by
  rw [load, EStateM.run_bind]
  change ((entries.forM fun e => modify (·.take e) : InPlace Unit) >>= fun _ => _).run b.clear = _
  rw [EStateM.run_bind, run_forM_take]
  rfl

theorem run_read_of_array {s : String} {items : List Json.Value}
    (h : Json.Value.read? s = some (.array items)) (b : Blackboard) :
    (read s).run b =
      .ok (b.load (items.filterMap Entry.ofJson?)).1 (b.load (items.filterMap Entry.ofJson?)).2 := by
  rw [read, h]
  exact run_load _ b

/-- A document that is refused leaves the board as it was. -/
theorem run_read_of_ne_array {s : String} (h : ∀ items, Json.Value.read? s ≠ some (.array items))
    (b : Blackboard) : (read s).run b = .error .json b := by
  unfold read
  split
  · rename_i items hitems
    exact absurd hitems (h items)
  · rfl

end InPlace

/-! ### Elements that are entries -/

theorem ValueType.ofName?_eq_some_iff {name : String} {type : ValueType} :
    ValueType.ofName? name = some type ↔ name = type.name := by
  constructor
  · intro h
    unfold ValueType.ofName? at h
    split at h <;> cases h <;> rfl
  · rintro rfl
    cases type <;> rfl

/-- The two ways in which the type of an entry is written: its name, or an object with a member of
that name that holds nothing. -/
inductive ValueType.Written (type : ValueType) : Json.Value → Prop
  | name : type.Written (.string type.name)
  | member : type.Written (.object [(type.name, .null)])

namespace Entry

theorem type?_eq_some_iff {j : Json.Value} {type : ValueType} :
    type? j = some type ↔ type.Written j := by
  constructor
  · intro h
    unfold type? at h
    split at h
    · rw [ValueType.ofName?_eq_some_iff.1 h]
      exact .name
    · rw [ValueType.ofName?_eq_some_iff.1 h]
      exact .member
    · cases h
  · rintro (_ | _)
    · exact ValueType.ofName?_eq_some_iff.2 rfl
    · exact ValueType.ofName?_eq_some_iff.2 rfl

inductive Written (e : Entry) : Json.Value → Prop
  | list {type : Json.Value} (htype : e.type.Written type) :
      e.Written (.array [.string e.key, type, .string e.text])
  | object {members : List (String × Json.Value)} {type : Json.Value}
      (hkey : (Json.Value.object members).member? "key" = some (.string e.key))
      (hmember : (Json.Value.object members).member? "type" = some type)
      (htype : e.type.Written type)
      (htext : (Json.Value.object members).member? "value" = some (.string e.text)) :
      e.Written (.object members)

theorem string?_eq_some_iff {j : Json.Value} {s : String} : j.string? = some s ↔ j = .string s := by
  cases j <;> simp [Json.Value.string?]

/-- What is read as an entry is an entry, well written. -/
theorem ofJson?_eq_some_iff {j : Json.Value} : ofJson? j = some e ↔ e.Written j := by
  constructor
  · intro h
    unfold ofJson? at h
    split at h
    · obtain ⟨type, htype, h⟩ := Option.bind_eq_some_iff.1 h
      obtain rfl := Option.some.inj h
      exact .list (type?_eq_some_iff.1 htype)
    · simp only [Option.bind_eq_bind, Option.bind_eq_some_iff, string?_eq_some_iff,
        Option.pure_def, Option.some.injEq] at h
      obtain ⟨_, hkey, key, rfl, _, hmember, type, htype, _, htext, text, rfl, rfl⟩ := h
      exact .object hkey hmember (type?_eq_some_iff.1 htype) htext
    · cases h
  · rintro (htype | ⟨hkey, hmember, htype, htext⟩)
    · simp only [ofJson?, type?_eq_some_iff.2 htype]
      rfl
    · simp only [ofJson?, hkey, hmember, htext, Option.bind_eq_bind, Option.bind_some,
        type?_eq_some_iff.2 htype]
      rfl

/-! ### Entries that count -/

def Good (e : Entry) : Prop := ∃ v, e.decode = .ok v

instance (e : Entry) : Decidable e.Good :=
  decidable_of_iff (e.decode.isOk = true) (by
    rw [Good]
    cases e.decode <;> simp [Except.isOk, Except.toBool])

end Entry

theorem take_of_not_good (h : ¬e.Good) (b : Blackboard) : b.take e = b := by
  rw [take]
  cases hdecode : e.decode with
  | ok v => exact absurd ⟨v, hdecode⟩ h
  | error x => rfl

/-- Of the entries under a key, the last good one stands for a value. -/
def LastGood (entries : List Entry) (key : String) (v : Value) : Prop :=
  ∃ front e back, entries = front ++ e :: back ∧ e.key = key ∧ e.decode = .ok v ∧
    ∀ e' ∈ back, e'.key = key → ¬e'.Good

theorem lastGood_append_singleton_iff : LastGood (entries ++ [e]) key v ↔
    e.key = key ∧ e.decode = .ok v ∨ (e.key = key → ¬e.Good) ∧ LastGood entries key v := by
  constructor
  · rintro ⟨front, d, back, hsplit, hkey, hdecode, hback⟩
    rcases back.eq_nil_or_concat with rfl | ⟨back, e', rfl⟩
    · obtain rfl := (List.append_singleton_inj.1 hsplit).2
      exact .inl ⟨hkey, hdecode⟩
    · rw [List.concat_eq_append, ← List.cons_append, ← List.append_assoc,
        List.append_singleton_inj] at hsplit
      obtain ⟨rfl, rfl⟩ := hsplit
      rw [List.concat_eq_append, List.forall_mem_append, List.forall_mem_singleton] at hback
      exact .inr ⟨hback.2, front, d, back, rfl, hkey, hdecode, hback.1⟩
  · rintro (⟨hkey, hdecode⟩ | ⟨hlast, front, d, back, rfl, hkey, hdecode, hback⟩)
    · exact ⟨entries, e, [], rfl, hkey, hdecode, nofun⟩
    · refine ⟨front, d, back ++ [e], by simp, hkey, hdecode, ?_⟩
      rw [List.forall_mem_append, List.forall_mem_singleton]
      exact ⟨hback, hlast⟩

/-- If any good entry is under a key then one of them is the last. -/
theorem exists_lastGood_iff :
    (∃ v, LastGood entries key v) ↔ ∃ e ∈ entries, e.key = key ∧ e.Good := by
  induction entries using List.reverseRecOn with
  | nil => simp [LastGood]
  | append_singleton entries e ih =>
      simp only [lastGood_append_singleton_iff, exists_or, exists_and_left, ih, List.mem_append,
        List.mem_singleton, or_and_right, exists_eq_left]
      change e.key = key ∧ e.Good ∨ (e.key = key → ¬e.Good) ∧ _ ↔ _
      rw [← not_and]
      by_cases hcounts : e.key = key ∧ e.Good
      · exact iff_of_true (.inl hcounts) (.inr hcounts)
      · rw [or_iff_right hcounts, and_iff_right hcounts, or_iff_left hcounts]

theorem get?_set (b : Blackboard) (key other : String) (v : Value) :
    (b.set key v).get? other = if other = key then some v else b.get? other :=
  Table.get?_insert ..

/-- What is taken in by an empty board is what counts. -/
theorem get?_foldl_take : (entries.foldl take ∅).get? key = some v ↔ LastGood entries key v := by
  induction entries using List.reverseRecOn with
  | nil =>
      constructor
      · nofun
      · rintro ⟨front, e, back, hsplit, -⟩
        simp at hsplit
  | append_singleton entries e ih =>
      rw [List.foldl_append, List.foldl_cons, List.foldl_nil, lastGood_append_singleton_iff]
      by_cases hgood : e.Good
      · obtain ⟨w, hw⟩ := hgood
        have hgood : e.Good := ⟨w, hw⟩
        rw [take_of_decode _ hw, get?_set]
        split_ifs with hkey
        · simp [hkey, hw, hgood]
        · simp [Ne.symm hkey, ih]
      · have hbad : e.decode ≠ .ok v := fun h => hgood ⟨v, h⟩
        rw [take_of_not_good hgood, ih]
        simp [hgood, hbad]

theorem load_eq (b : Blackboard) (entries : List Entry) :
    b.load entries = ((entries.foldl take ∅).size, entries.foldl take ∅) := rfl

theorem foldl_take_filter (entries : List Entry) (b : Blackboard) :
    (entries.filter Entry.Good).foldl take b = entries.foldl take b := by
  rw [List.foldl_filter]
  congr 1
  funext b e
  by_cases hgood : e.Good
  · simp [hgood]
  · simp [hgood, take_of_not_good hgood]

theorem contains_iff : b.contains key = true ↔ ∃ v, b.get? key = some v := Option.isSome_iff_exists

/-- A board holds as many values as it has keys. -/
theorem size_eq_card {keys : Finset String} (h : ∀ key, b.contains key = true ↔ key ∈ keys) :
    b.size = keys.card := by
  have hkeys : (b.values.toList.map Prod.fst).toFinset = keys := by
    ext key
    rw [List.mem_toFinset, Table.mem_keys_iff, ← h, contains_iff]
    rfl
  rw [← hkeys, List.toFinset_card_of_nodup b.values.nodup_keys, List.length_map]
  rfl

/-- A board that takes in a list holds, under each key, the value of the last good entry, and nothing
else. Entries that are not good make no difference, and nor does what the board held. The answer is
the number of different keys of good entries. A text is taken in, in place, if it holds a JSON list,
as the list of those elements that are entries; if it holds anything else, then it is refused and the
board is as it was. -/
theorem last_good_entries_stay (b : Blackboard) (entries : List Entry) :
    (∀ key v, (b.load entries).2.get? key = some v ↔
      ∃ front e back, entries = front ++ e :: back ∧ e.key = key ∧ e.decode = .ok v ∧
        ∀ e' ∈ back, e'.key = key → ¬e'.Good) ∧
    (∀ key, (b.load entries).2.contains key = true ↔ ∃ e ∈ entries, e.key = key ∧ e.Good) ∧
    (∀ c : Blackboard, c.load (entries.filter Entry.Good) = b.load entries) ∧
    (b.load entries).1 = ((entries.filter Entry.Good).map Entry.key).toFinset.card ∧
    (∀ (j : Json.Value) (e : Entry), Entry.ofJson? j = some e ↔ e.Written j) ∧
    ∀ s : String,
      (∀ items, Json.Value.read? s = some (.array items) →
        let (size, loaded) := b.load (items.filterMap Entry.ofJson?)
        b.read s = .ok (size, loaded) ∧ (InPlace.read s).run b = .ok size loaded) ∧
      ((∀ items, Json.Value.read? s ≠ some (.array items)) →
        b.read s = .error .json ∧ (InPlace.read s).run b = .error .json b) := by
  have hcontains : ∀ key, (b.load entries).2.contains key = true ↔
      ∃ e ∈ entries, e.key = key ∧ e.Good := by
    intro key
    rw [contains_iff, ← exists_lastGood_iff]
    exact exists_congr fun v => get?_foldl_take
  refine ⟨fun key v => get?_foldl_take, hcontains, fun c => ?_, ?_,
    fun j e => Entry.ofJson?_eq_some_iff, fun s => ⟨fun items hitems => ?_, fun hother => ?_⟩⟩
  · rw [load_eq, load_eq, foldl_take_filter]
  · refine size_eq_card fun key => (hcontains key).trans ?_
    simp only [List.mem_toFinset, List.mem_map, List.mem_filter, decide_eq_true_eq]
    exact exists_congr fun e => by rw [and_right_comm, and_assoc]
  · exact ⟨read_of_array hitems b, InPlace.run_read_of_array hitems b⟩
  · exact ⟨read_of_ne_array hother b, InPlace.run_read_of_ne_array hother b⟩

def scrapsText : String :=
  "[[\"door\",\"int\",\"1\"],[\"door\",\"int\",\"one\"],\x7b\"key\":\"door\",\"type\":\"bool\"," ++
    "\"value\":\"true\"\x7d,[\"door\",\"bool\",\"open\"],[\"gold\",\"coin\",\"7\"]]"

def scraps : List Entry :=
  [⟨"door", .int, "1"⟩, ⟨"door", .int, "one"⟩, ⟨"door", .bool, "true"⟩, ⟨"door", .bool, "open"⟩]

theorem read?_scrapsText : ∃ items, Json.Value.read? scrapsText = some (.array items) ∧
    items.filterMap Entry.ofJson? = scraps := by
  exact ⟨_, by cbv, by cbv⟩

theorem last_good_entries_stay_scraps : ∃ loaded : Blackboard,
    read ∅ scrapsText = .ok (1, loaded) ∧ loaded.get? "door" = some (.bool true) ∧
      loaded.contains "gold" = false ∧ load ∅ (scraps.filter Entry.Good) = (1, loaded) := by
  obtain ⟨items, hitems, hentries⟩ := read?_scrapsText
  obtain ⟨hget, hcontains, hfilter, hcount, -, hread⟩ := last_good_entries_stay ∅ scraps
  obtain ⟨hok, -⟩ := (hread scrapsText).1 items hitems
  have hone : (load ∅ scraps).1 = 1 := hcount.trans (by decide)
  have hloaded : load ∅ scraps = (1, (load ∅ scraps).2) := Prod.ext hone rfl
  have hlast : ∀ e ∈ [(⟨"door", .bool, "open"⟩ : Entry)], e.key = "door" → ¬e.Good := by decide
  refine ⟨(load ∅ scraps).2, ?_, ?_, ?_, (hfilter ∅).trans hloaded⟩
  · rw [← hloaded, ← hentries]
    exact hok
  · exact (hget "door" (.bool true)).2 ⟨scraps.take 2, _, _, rfl, rfl, rfl, hlast⟩
  · rw [← Bool.not_eq_true, hcontains]
    decide

end Blackboard

end StoryGraph
