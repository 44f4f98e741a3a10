import StoryGraph.Blackboard.Entry
import StoryGraph.Proofs.Json.Value
import StoryGraph.Proofs.Numeric.Reading

/-!
# Boards that are stored

The entries of a board, taken in by any other board, leave that board with the scalars of the
first and nothing else, and so does the document of the board. A scalar is the same value again. The
exception is a floating point number that is no number: it is stored as a word, without its bits.
-/

namespace StoryGraph.Blackboard

open Json (Tree)

/-! ### A single value -/

namespace Value

/-- The value that comes back from what is stored of a value. A reference is not stored, and what is
no number comes back as the plain value of that sort. -/
def stored : Value → Option Value
  | float x => some (float (if x.isNaN then .nan false else x))
  | object _ => none
  | v => some v

variable {v w : Value}

theorem isSome_stored (v : Value) : v.stored.isSome = v.type?.isSome := by
  cases v <;> rfl

theorem stored_eq_self (hscalar : v.type?.isSome) (hnumber : ∀ x, v = float x → x.isNaN = false) :
    v.stored = some v := by
  cases v with
  | float x => simp [stored, hnumber x rfl]
  | object o => cases hscalar
  | _ => rfl

theorem toText_of_isNaN {x : Double} (hx : x.isNaN = true) : x.toText = "NaN" := if_pos hx

theorem type?_of_stored (h : v.stored = some w) : w.type? = v.type? := by
  cases v with
  | object o => cases h
  | _ =>
      obtain rfl := Option.some.inj h
      rfl

theorem text?_of_stored (h : v.stored = some w) : w.text? = v.text? := by
  cases v with
  | object o => cases h
  | float x =>
      obtain rfl := Option.some.inj h
      by_cases hx : x.isNaN = true
      · simp only [text?, hx, if_true, toText_of_isNaN hx]
        rfl
      · simp only [text?, if_neg hx]
  | _ =>
      obtain rfl := Option.some.inj h
      rfl

/-- The text of a scalar is read as the value that comes back from it. -/
theorem ofText?_text {type : ValueType} {text : String} (htype : v.type? = some type)
    (htext : v.text? = some text) : ofText? type text = v.stored := by
  cases v with
  | object o => cases htype
  | int n fits =>
      obtain rfl := Option.some.inj htype
      obtain rfl := Option.some.inj htext
      rw [ofText?, String.toList_ofList, readInt?_ofInt fits]
      rfl
  | float x =>
      obtain rfl := Option.some.inj htype
      obtain rfl := Option.some.inj htext
      cases hx : x.isNaN with
      | false => simp [ofText?, stored, hx, Binary.toText, Layout.readFloat?_text _ Format.fine_double]
      | true => simp [ofText?, stored, hx, Binary.toText, Layout.readFloat?_text_of_isNaN]
  | bool b =>
      obtain rfl := Option.some.inj htype
      obtain rfl := Option.some.inj htext
      rw [ofText?, readBool?_toString]
      rfl
  | string s =>
      obtain rfl := Option.some.inj htype
      obtain rfl := Option.some.inj htext
      rfl

end Value

/-! ### A single entry -/

namespace Entry

variable {e : Entry} {key : String} {v : Value}

theorem ofValue?_eq_some_iff : ofValue? key v = some e ↔
    e.key = key ∧ v.type? = some e.type ∧ v.text? = some e.text := by
  obtain ⟨key', type, text⟩ := e
  simp only [ofValue?, Option.bind_eq_bind, Option.pure_def, Option.bind_eq_some_iff,
    Option.some.injEq, Entry.mk.injEq]
  constructor
  · rintro ⟨_, htype, _, htext, rfl, rfl, rfl⟩
    exact ⟨rfl, htype, htext⟩
  · rintro ⟨rfl, htype, htext⟩
    exact ⟨type, htype, text, htext, rfl, rfl, rfl⟩

theorem isSome_ofValue? (key : String) (v : Value) : (ofValue? key v).isSome = v.type?.isSome := by
  cases v <;> rfl

theorem bind_stored_ofValue? (key : String) (v : Value) :
    v.stored.bind (ofValue? key) = ofValue? key v := by
  cases hv : v.stored with
  | none =>
      have hnone : (ofValue? key v).isSome = false := by
        rw [isSome_ofValue?, ← Value.isSome_stored, hv, Option.isSome_none]
      exact (Option.isSome_eq_false_iff.1 hnone |> Option.isNone_iff_eq_none.1).symm
  | some w => rw [Option.bind_some, ofValue?, ofValue?, Value.type?_of_stored hv,
      Value.text?_of_stored hv]

/-- The entry of a value stands for the value that comes back from it. -/
theorem decode_of_ofValue? (h : ofValue? key v = some e) :
    ∃ w, v.stored = some w ∧ e.decode = .ok w := by
  obtain ⟨-, htype, htext⟩ := ofValue?_eq_some_iff.1 h
  have hsome : v.stored.isSome = true := by rw [Value.isSome_stored, htype, Option.isSome_some]
  obtain ⟨w, hw⟩ := Option.isSome_iff_exists.1 hsome
  refine ⟨w, hw, ?_⟩
  rw [decode, Value.ofText?_text htype htext, hw]

def toJson (e : Entry) : Json.Value :=
  .object [("key", .string e.key), ("type", .string e.type.name), ("value", .string e.text)]

theorem ofJson?_toJson (e : Entry) : ofJson? e.toJson = some e := by
  obtain ⟨key, type, text⟩ := e
  cases type <;> rfl

theorem readsBack_toJson (e : Entry) : e.toJson.ReadsBack := by
  refine .object fun m hm => ?_
  simp only [List.mem_cons, List.not_mem_nil, or_false] at hm
  rcases hm with rfl | rfl | rfl <;> exact .string _

theorem fits_toJson (e : Entry) (depth : Nat) : e.toJson.Fits (depth + 1) := by
  refine .object ?_ fun m hm => ?_
  · have hnames : ["key", "type", "value"].Pairwise (· < ·) := by decide
    exact List.pairwise_map.1 hnames
  · simp only [List.mem_cons, List.not_mem_nil, or_false] at hm
    rcases hm with rfl | rfl | rfl <;> exact .string _

end Entry

/-! ### A board -/

variable (b c : Blackboard)

theorem ascending_filterMap {α : Type} {f : String × α → Option (String × α)}
    (hf : ∀ e e', f e = some e' → e'.1 = e.1) {l : List (String × α)} (h : Ascending l) :
    Ascending (l.filterMap f) := by
  refine List.pairwise_filterMap.2 (h.imp fun {d e} hlt d' hd e' he => ?_)
  rw [hf d d' hd, hf e e' he]
  exact hlt

def storedUnder (e : String × Value) : Option (String × Value) := e.2.stored.map (e.1, ·)

theorem storedUnder_eq_some_iff {e e' : String × Value} :
    storedUnder e = some e' ↔ e'.1 = e.1 ∧ e.2.stored = some e'.2 := by
  obtain ⟨key, v⟩ := e
  obtain ⟨key', v'⟩ := e'
  simp only [storedUnder, Option.map_eq_some_iff, Prod.mk.injEq]
  constructor
  · rintro ⟨w, hw, rfl, rfl⟩
    exact ⟨rfl, hw⟩
  · rintro ⟨rfl, hw⟩
    exact ⟨v', hw, rfl, rfl⟩

/-- The board that comes back from what is stored of a board. -/
def stored : Blackboard where
  values := {
    toList := b.values.toList.filterMap storedUnder
    ascending := ascending_filterMap (fun _ _ h => (storedUnder_eq_some_iff.1 h).1)
      b.values.ascending }

theorem get?_stored (key : String) : b.stored.get? key = (b.get? key).bind Value.stored := by
  apply Option.ext
  intro w
  simp only [get?, Table.get?_eq_some_iff, stored, List.mem_filterMap, storedUnder_eq_some_iff,
    Option.bind_eq_some_iff, Prod.exists]
  constructor
  · rintro ⟨_, v, hv, rfl, hw⟩
    exact ⟨v, hv, hw⟩
  · rintro ⟨v, hv, hw⟩
    exact ⟨key, v, hv, rfl, hw⟩

def scalars : Nat := b.values.toList.countP fun e => e.2.type?.isSome

theorem size_stored : b.stored.size = b.scalars := by
  rw [size, Table.size, stored, scalars, List.length_filterMap_eq_countP]
  congr 1
  funext e
  rw [storedUnder, Option.isSome_map, Value.isSome_stored]

/-- What comes back has the entries of the board that was stored. -/
theorem entries_stored : b.stored.entries = b.entries := by
  rw [entries, entries, stored, List.filterMap_filterMap]
  congr 1
  funext ⟨key, v⟩
  rw [storedUnder, Option.bind_map]
  exact Entry.bind_stored_ofValue? key v

theorem take_of_decode {e : Entry} {v : Value} (h : e.decode = .ok v) :
    b.take e = b.set e.key v := by
  rw [take, h]

/-- Taking in the entries of a list of values puts in one after the other what comes back. -/
theorem foldl_take (l : List (String × Value)) :
    (l.filterMap fun (key, value) => Entry.ofValue? key value).foldl take b =
      ⟨(l.filterMap storedUnder).foldl (fun t e => t.insert e.1 e.2) b.values⟩ := by
  induction l generalizing b with
  | nil => rfl
  | cons m l ih =>
      obtain ⟨key, v⟩ := m
      cases he : Entry.ofValue? key v with
      | none =>
          have hv : storedUnder (key, v) = none := by
            rw [← Option.isNone_iff_eq_none, ← Option.isSome_eq_false_iff, storedUnder,
              Option.isSome_map, Value.isSome_stored, ← Entry.isSome_ofValue? key, he,
              Option.isSome_none]
          simp only [List.filterMap_cons, he, hv, ih]
      | some e =>
          obtain ⟨w, hw, hdecode⟩ := Entry.decode_of_ofValue? he
          have hv : storedUnder (key, v) = some (key, w) := storedUnder_eq_some_iff.2 ⟨rfl, hw⟩
          simp only [List.filterMap_cons, he, hv, List.foldl_cons, take_of_decode b hdecode,
            (Entry.ofValue?_eq_some_iff.1 he).1, ih]
          rfl

/-- Whatever a board held, it takes in the entries of another as what comes back from that one. -/
theorem load_entries_eq : c.load b.entries = (b.scalars, b.stored) := by
  have hfold : b.entries.foldl take c.clear = b.stored := by
    rw [entries, foldl_take]
    exact congrArg Blackboard.mk (Table.ofList_toList b.stored.values)
  rw [load, hfold, size_stored]

theorem toTree_entries : (Json.Value.array (b.entries.map Entry.toJson)).toTree =
    .array (b.entries.map Entry.toTree) := by
  rw [Json.Value.toTree, Json.Value.itemTrees_eq, List.map_map]
  rfl

theorem read?_write : Json.Value.read? b.write = some (.array (b.entries.map Entry.toJson)) := by
  have hback : (Json.Value.array (b.entries.map Entry.toJson)).ReadsBack :=
    .array (List.forall_mem_map.2 fun e _ => e.readsBack_toJson)
  have hfits : (Json.Value.array (b.entries.map Entry.toJson)).Fits Json.depthLimit :=
    .array (List.forall_mem_map.2 fun e _ => e.fits_toJson _)
  have hread := hback.wellFormed_toTree.read?_compact
  rw [toTree_entries] at hread
  rw [Json.Value.read?, write, hread, Option.bind_eq_bind, Option.bind_some, ← toTree_entries]
  exact hback.ofTree?_toTree_iff.2 hfits

theorem read_write_eq : c.read b.write = .ok (b.scalars, b.stored) := by
  have hitems : (b.entries.map Entry.toJson).filterMap Entry.ofJson? = b.entries := by
    have hcomp : Entry.ofJson? ∘ Entry.toJson = some := funext Entry.ofJson?_toJson
    rw [List.filterMap_map, hcomp, List.filterMap_some]
  rw [read, read?_write]
  simp only [hitems, load_entries_eq]

/-! ### The order of the entries -/

theorem pairwise_entries : b.entries.Pairwise fun d e => d.key < e.key := by
  refine List.pairwise_filterMap.2 (b.values.ascending.imp fun {d e} hlt d' hd e' he => ?_)
  rw [(Entry.ofValue?_eq_some_iff.1 hd).1, (Entry.ofValue?_eq_some_iff.1 he).1]
  exact hlt

variable {b} in
theorem mem_entries_iff {e : Entry} :
    e ∈ b.entries ↔ ∃ v, b.get? e.key = some v ∧ Entry.ofValue? e.key v = some e := by
  simp only [entries, List.mem_filterMap, Prod.exists, get?, Table.get?_eq_some_iff]
  constructor
  · rintro ⟨key, v, hv, he⟩
    obtain rfl := (Entry.ofValue?_eq_some_iff.1 he).1
    exact ⟨v, hv, he⟩
  · rintro ⟨v, hv, he⟩
    exact ⟨e.key, v, hv, he⟩

variable {b} in
theorem eq_of_key_eq {d e : Entry} (hd : d ∈ b.entries) (he : e ∈ b.entries) (h : d.key = e.key) :
    d = e := by
  obtain ⟨v, hv, hd⟩ := mem_entries_iff.1 hd
  obtain ⟨w, hw, he⟩ := mem_entries_iff.1 he
  rw [h] at hv hd
  obtain rfl := Option.some.inj (hv.symm.trans hw)
  exact Option.some.inj (hd.symm.trans he)

/-- In whatever order the values are listed, their entries sorted by key are those of the board. -/
theorem mergeSort_entries {l : List (String × Value)} (h : l.Perm b.values.toList) :
    (l.filterMap fun (key, value) => Entry.ofValue? key value).mergeSort
      (fun d e => d.key ≤ e.key) = b.entries := by
  have hperm := (List.mergeSort_perm (l.filterMap fun (key, value) => Entry.ofValue? key value)
    (fun d e => decide (d.key ≤ e.key))).trans (h.filterMap _)
  have htrans : ∀ d e f : Entry, decide (d.key ≤ e.key) = true → decide (e.key ≤ f.key) = true →
      decide (d.key ≤ f.key) = true := fun d e f hde hef =>
    decide_eq_true (String.le_trans (of_decide_eq_true hde) (of_decide_eq_true hef))
  have htotal : ∀ d e : Entry, (decide (d.key ≤ e.key) || decide (e.key ≤ d.key)) = true := by
    intro d e
    simpa only [Bool.or_eq_true, decide_eq_true_eq] using String.le_total d.key e.key
  have hsorted := List.pairwise_mergeSort htrans htotal
    (l.filterMap fun (key, value) => Entry.ofValue? key value)
  refine hperm.eq_of_pairwise (fun d e hd he hde hed => ?_) hsorted
    (b.pairwise_entries.imp fun h => ?_)
  · exact eq_of_key_eq (hperm.subset hd) he
      (String.le_antisymm (of_decide_eq_true hde) (of_decide_eq_true hed))
  · exact decide_eq_true (String.not_lt.1 (String.lt_asymm h))

/-- The entries depend on the values under the keys and on nothing else. -/
theorem entries_congr (h : ∀ key, b.get? key = c.get? key) : b.entries = c.entries := by
  rw [entries, entries, Table.ext_get? h]

/-! ### There and back -/

/-- Whatever a board held, it takes in the entries of another board, or its document, with one
answer and one outcome: the number of scalars of the other, and a board of exactly these scalars,
each with its value unless that is no number. The entries of the outcome are those that were taken
in. They ascend by key, and they are the same for all boards with the same values and for all orders
in which the values are listed. -/
theorem stored_comes_back (b : Blackboard) :
    ∃ d : Blackboard,
      (∀ c : Blackboard, c.load b.entries = (b.values.toList.countP fun e => e.2.type?.isSome, d) ∧
        c.read b.write = .ok (b.values.toList.countP fun e => e.2.type?.isSome, d)) ∧
      (∀ key, d.contains key = ((b.get? key).bind Value.type?).isSome) ∧
      (∀ key v, b.get? key = some v → v.type?.isSome → (∀ x, v = .float x → x.isNaN = false) →
        d.get? key = some v) ∧
      d.entries = b.entries ∧
      b.entries.Pairwise (fun e f => e.key < f.key) ∧
      (∀ c : Blackboard, (∀ key, c.get? key = b.get? key) → c.entries = b.entries) ∧
      ∀ l : List (String × Value), l.Perm b.values.toList →
        (l.filterMap fun (key, value) => Entry.ofValue? key value).mergeSort
          (fun e f => e.key ≤ f.key) = b.entries := by
  refine ⟨b.stored, fun c => ⟨b.load_entries_eq c, b.read_write_eq c⟩, fun key => ?_,
    fun key v hv hscalar hnumber => ?_, b.entries_stored, b.pairwise_entries,
    fun c h => c.entries_congr b h, fun l h => b.mergeSort_entries h⟩
  · have hget : (b.stored.get? key).isSome = ((b.get? key).bind Value.type?).isSome := by
      rw [get?_stored]
      cases b.get? key with
      | none => rfl
      | some v => exact v.isSome_stored
    exact hget
  · rw [get?_stored, hv]
    exact Value.stored_eq_self hscalar hnumber

end StoryGraph.Blackboard
