/-!
# Sets of characters

A property of characters is a list of ranges of their numbers, in ascending order and with gaps
between them. The order lets a search end at the first range that is not left behind
(`CharRanges.contains_iff`).
-/

namespace StoryGraph.Text

/-- Whether ranges ascend from a least number, with a gap before each of them but the first. -/
def ascends (least : Nat) : List (Nat × Nat) → Bool
  | [] => true
  | r :: rest => decide (least ≤ r.1) && decide (r.1 ≤ r.2) && ascends (r.2 + 2) rest

structure CharRanges where
  /-- The first and the last number of each range. -/
  ranges : List (Nat × Nat)
  ascending : ascends 0 ranges = true

namespace CharRanges

def hit (n : Nat) : List (Nat × Nat) → Bool
  | [] => false
  | r :: rest => if n ≤ r.2 then decide (r.1 ≤ n) else hit n rest

def contains (s : CharRanges) (c : Char) : Bool := hit c.toNat s.ranges

theorem least_le_of_mem {l : List (Nat × Nat)} {least : Nat} (h : ascends least l = true)
    {r : Nat × Nat} (hr : r ∈ l) : least ≤ r.1 := by
  induction l generalizing least with
  | nil => simp at hr
  | cons first rest ih =>
    simp only [ascends, Bool.and_eq_true, decide_eq_true_eq] at h
    rcases List.mem_cons.1 hr with rfl | hr
    · exact h.1.1
    · have := ih h.2 hr
      omega

theorem hit_iff {l : List (Nat × Nat)} {least n : Nat} (h : ascends least l = true) :
    hit n l = true ↔ ∃ r ∈ l, r.1 ≤ n ∧ n ≤ r.2 := by
  induction l generalizing least with
  | nil => simp [hit]
  | cons first rest ih =>
    simp only [ascends, Bool.and_eq_true, decide_eq_true_eq] at h
    unfold hit
    split
    · rename_i hn
      refine ⟨fun hf => ⟨first, List.mem_cons_self, by simpa using hf, hn⟩, ?_⟩
      rintro ⟨r, hr, hle, -⟩
      rcases List.mem_cons.1 hr with rfl | hr
      · simpa using hle
      · have := least_le_of_mem h.2 hr
        omega
    · rename_i hn
      rw [ih h.2]
      refine ⟨fun ⟨r, hr, hle⟩ => ⟨r, List.mem_cons_of_mem _ hr, hle⟩, ?_⟩
      rintro ⟨r, hr, hle⟩
      rcases List.mem_cons.1 hr with rfl | hr
      · exact absurd hle.2 hn
      · exact ⟨r, hr, hle⟩

/-- A set contains the characters whose numbers lie in its ranges. -/
theorem contains_iff {s : CharRanges} {c : Char} :
    s.contains c = true ↔ ∃ r ∈ s.ranges, r.1 ≤ c.toNat ∧ c.toNat ≤ r.2 :=
  hit_iff s.ascending

end CharRanges

end StoryGraph.Text
