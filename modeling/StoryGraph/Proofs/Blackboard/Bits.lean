import StoryGraph.Proofs.Blackboard.Loading

/-!
# What is stored bit for bit

Every floating point number comes back from what is stored of it with the same bits: both zeros, the
infinities, and whatever is very small. What is no number is stored as a word, without a sign and
without a payload, and comes back plain (`Value.Lasting`).

Of the texts that are read as floating point numbers only one is read as something that does not
come back: the word for what is no number with a minus sign (`Entry.Signed`). So a board that was
taken in from a list comes back from its own entries as it is, unless such an entry counts.
-/

namespace StoryGraph.Blackboard

namespace Value

variable {v : Value}

/-- A scalar that is stored with all its bits: if it is no number then it is the plain value of that
sort. -/
def Lasting (v : Value) : Prop :=
  v.type?.isSome ∧ ∀ x, v = float x → x.isNaN = true → x = .nan false

theorem lasting_float_iff {x : Double} : (float x).Lasting ↔ (x.isNaN = true → x = .nan false) :=
  ⟨fun h => h.2 x rfl, fun h => ⟨rfl, fun _ hy => (float.inj hy) ▸ h⟩⟩

theorem stored_eq_some_self_iff : v.stored = some v ↔ v.Lasting := by
  cases v with
  | object o =>
      refine iff_of_false (fun h => ?_) fun h => Bool.false_ne_true h.1
      cases h
  | float x =>
      rw [lasting_float_iff, stored, Option.some.injEq, float.injEq]
      cases hx : x.isNaN with
      | true => simp [eq_comm]
      | false => simp
  | int | bool | string =>
      refine iff_of_true rfl ⟨rfl, fun x h => ?_⟩
      cases h

end Value

namespace Entry

variable {e : Entry} {v : Value}

def Signed (e : Entry) : Prop :=
  e.type = .float ∧ e.text.toList.map Char.toLower = "-nan".toList

instance (e : Entry) : Decidable e.Signed := inferInstanceAs (Decidable (_ ∧ _))

theorem decode_eq_ok_iff : e.decode = .ok v ↔ Value.ofText? e.type e.text = some v := by
  rw [decode]
  cases Value.ofText? e.type e.text <;> simp

theorem lasting_iff_of_decode (h : e.decode = .ok v) : v.Lasting ↔ ¬e.Signed := by
  obtain ⟨key, type, text⟩ := e
  rw [decode_eq_ok_iff] at h
  cases type with
  | float =>
      obtain ⟨x, hx, rfl⟩ := Option.map_eq_some_iff.1 h
      rw [Value.lasting_float_iff, plain_iff_of_readFloat? hx]
      simp [Signed]
  | int | bool =>
      obtain ⟨x, -, rfl⟩ := Option.map_eq_some_iff.1 h
      exact iff_of_true ⟨rfl, nofun⟩ nofun
  | string =>
      obtain rfl := Option.some.inj h
      exact iff_of_true ⟨rfl, nofun⟩ nofun

theorem Signed.decode (h : e.Signed) : e.decode = .ok (.float (.nan true)) := by
  obtain ⟨key, type, text⟩ := e
  obtain ⟨rfl, htext⟩ := h
  rw [decode_eq_ok_iff, Value.ofText?, readFloat?_of_signed htext, Option.map_some]

end Entry

variable {b : Blackboard} {key : String} {v : Value}

/-- Everything on the board is stored with all its bits. -/
theorem stored_eq_self_iff : b.stored = b ↔ ∀ key v, b.get? key = some v → v.Lasting := by
  have hget : b.stored = b ↔ ∀ key, b.stored.get? key = b.get? key :=
    ⟨fun h _ => by rw [h], fun h => congrArg mk (Table.ext_get? h)⟩
  simp only [hget, get?_stored]
  refine forall_congr' fun key => ?_
  cases b.get? key with
  | none => simp
  | some v => simp [Value.stored_eq_some_self_iff]

/-- A board that has taken in a list is stored with all its bits if behind every word that loses its
sign stands a good entry under the same key. -/
theorem stored_load_iff (b : Blackboard) (entries : List Entry) :
    (b.load entries).2.stored = (b.load entries).2 ↔
      ∀ front e back, entries = front ++ e :: back → e.Signed →
        ∃ e' ∈ back, e'.key = e.key ∧ e'.Good := by
  rw [stored_eq_self_iff]
  constructor
  · intro h front e back hsplit hsigned
    by_contra hlast
    have hback : ∀ e' ∈ back, e'.key = e.key → ¬e'.Good := fun e' he' hkey hgood =>
      hlast ⟨e', he', hkey, hgood⟩
    have hget := get?_foldl_take.2 ⟨front, e, back, hsplit, rfl, hsigned.decode, hback⟩
    exact (Entry.lasting_iff_of_decode hsigned.decode).1 (h e.key _ hget) hsigned
  · intro h key v hget
    obtain ⟨front, e, back, hsplit, rfl, hdecode, hback⟩ := get?_foldl_take.1 hget
    rw [Entry.lasting_iff_of_decode hdecode]
    intro hsigned
    obtain ⟨e', he', hkey, hgood⟩ := h front e back hsplit hsigned
    exact hback e' he' hkey hgood

/-- The entry of a floating point number stands for a number with the same bits, unless it is no
number and not the plain value of that sort, which is what comes back. -/
theorem exists_decode_float (key : String) (x : Double) : ∃ e y,
    Entry.ofValue? key (.float x) = some e ∧ e.decode = .ok (.float y) ∧
      (x.isNaN = true → y = .nan false) ∧ (y = x ↔ (x.isNaN = true → x = .nan false)) := by
  have he : Entry.ofValue? key (.float x) = some ⟨key, .float, x.toText⟩ := rfl
  obtain ⟨w, hw, hdecode⟩ := Entry.decode_of_ofValue? he
  obtain rfl := Option.some.inj hw
  refine ⟨_, _, he, hdecode, fun hx => if_pos hx, ?_⟩
  rw [← Value.lasting_float_iff, ← Value.stored_eq_some_self_iff, Value.stored, Option.some.injEq,
    Value.float.injEq]

/-- A floating point number on a board has one entry, which stands for a number with the same bits
unless the number is none and not plain; of the texts that are read as a floating point number one is
read as something that does not come back, the word for what is no number with a minus sign. So a
board comes back from its entries exactly if it holds scalars, and of what is no number only the
plain; and a board that has taken in a list comes back from its own entries exactly if behind every
such word in the list stands a good entry under the same key. -/
theorem numbers_keep_their_bits (b : Blackboard) :
    (∀ key x, b.get? key = some (.float x) → ∃ e ∈ b.entries, e.key = key ∧
      (∀ e' ∈ b.entries, e'.key = key → e' = e) ∧ ∃ y, e.decode = .ok (.float y) ∧
        (x.isNaN = true → y = .nan false) ∧ (y = x ↔ (x.isNaN = true → x = .nan false))) ∧
    (∀ (e : Entry) (x : Double), e.decode = .ok (.float x) → ∃ e' y,
      Entry.ofValue? e.key (.float x) = some e' ∧ e'.decode = .ok (.float y) ∧
        (y = x ↔ ¬e.Signed)) ∧
    (∀ c : Blackboard, (c.load b.entries).2 = b ↔ ∀ key v, b.get? key = some v →
      v.type?.isSome ∧ ∀ x, v = .float x → x.isNaN = true → x = .nan false) ∧
    ∀ (c : Blackboard) (entries : List Entry),
      let loaded := (b.load entries).2
      (c.load loaded.entries).2 = loaded ↔ ∀ front e back, entries = front ++ e :: back →
        e.Signed → ∃ e' ∈ back, e'.key = e.key ∧ e'.Good := by
  refine ⟨fun key x hget => ?_, fun e x hdecode => ?_, fun c => ?_, fun c entries => ?_⟩
  · obtain ⟨e, y, he, hdecode, hplain, hsame⟩ := exists_decode_float key x
    obtain ⟨rfl, -⟩ := Entry.ofValue?_eq_some_iff.1 he
    have hmem : e ∈ b.entries := mem_entries_iff.2 ⟨_, hget, he⟩
    exact ⟨e, hmem, rfl, fun e' he' hkey => eq_of_key_eq he' hmem hkey, y, hdecode, hplain, hsame⟩
  · obtain ⟨e', y, he', hdecode', -, hsame⟩ := exists_decode_float e.key x
    rw [← Value.lasting_float_iff, Entry.lasting_iff_of_decode hdecode] at hsame
    exact ⟨e', y, he', hdecode', hsame⟩
  · rw [load_entries_eq]
    exact stored_eq_self_iff
  · dsimp only
    rw [load_entries_eq]
    exact stored_load_iff b entries

def soundings : List Entry :=
  [⟨"depth", .float, "-NaN"⟩, ⟨"depth", .float, "-0"⟩, ⟨"tide", .float, "-nan"⟩]

/-- The zero comes back. The other one comes back without its sign, so the board does not. -/
theorem numbers_keep_their_bits_soundings : ∃ loaded : Blackboard,
    load ∅ soundings = (2, loaded) ∧ loaded.get? "depth" = some (.float (.zero true)) ∧
      loaded.get? "tide" = some (.float (.nan true)) ∧ (load ∅ loaded.entries).2 ≠ loaded ∧
      (load ∅ (load ∅ (soundings.take 2)).2.entries).2 = (load ∅ (soundings.take 2)).2 ∧
      ∃ e ∈ loaded.entries, e.key = "tide" ∧ e.decode = .ok (.float (.nan false)) := by
  have hload : ∃ loaded, load ∅ soundings = (2, loaded) ∧
      loaded.get? "depth" = some (.float (.zero true)) ∧
      loaded.get? "tide" = some (.float (.nan true)) := ⟨_, rfl, rfl, rfl⟩
  obtain ⟨loaded, hloaded, hdepth, htide⟩ := hload
  obtain ⟨hentry, -, -, -⟩ := numbers_keep_their_bits loaded
  obtain ⟨-, -, -, hlist⟩ := numbers_keep_their_bits ∅
  refine ⟨loaded, hloaded, hdepth, htide, ?_, ?_, ?_⟩
  · intro hback
    have hall := (hlist ∅ soundings).1 (by rw [hloaded]; exact hback)
    obtain ⟨e', he', -⟩ := hall (soundings.take 2) ⟨"tide", .float, "-nan"⟩ [] rfl (by decide)
    cases he'
  · refine (hlist ∅ (soundings.take 2)).2 fun front e back hsplit hsigned => ?_
    match front with
    | [] =>
        obtain ⟨rfl, rfl⟩ := List.cons.inj hsplit
        exact ⟨_, List.mem_singleton_self _, rfl, by decide⟩
    | [_] =>
        obtain ⟨rfl, -⟩ := List.cons.inj (List.cons.inj hsplit).2
        exact absurd hsigned (by decide)
    | _ :: _ :: _ => simp [soundings] at hsplit
  · obtain ⟨e, he, hkey, -, y, hdecode, hplain, -⟩ := hentry "tide" _ htide
    exact ⟨e, he, hkey, by rw [hdecode, hplain (Binary.isNaN_nan true)]⟩

end StoryGraph.Blackboard
