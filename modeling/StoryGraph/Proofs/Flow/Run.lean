import Mathlib
import StoryGraph.Flow.Machine

/-!
# Runs of a session

`Next kinds m n` is one step, and `Ends kinds m n` says that a session goes on from `m` until
nothing is going on any more, and that `n` is what is left then. `Machine.run` takes a bound on the
number of steps; the bound does not matter for what is left (`Ends.unique`), and steps that are
taken before it is asked for do not matter either (`ends_iff_of_leads`).

`Plays` carries out several calls, each when the one before has ended.
-/

namespace StoryGraph

namespace Machine

variable {σ : Type} {kinds : Registry (Behaviour σ)}

def Next (kinds : Registry (Behaviour σ)) (m n : Machine σ) : Prop := m.step kinds = some n

abbrev Leads (kinds : Registry (Behaviour σ)) : Machine σ → Machine σ → Prop :=
  Relation.ReflTransGen (Next kinds)

abbrev Proceeds (kinds : Registry (Behaviour σ)) : Machine σ → Machine σ → Prop :=
  Relation.TransGen (Next kinds)

/-- Some number of steps suffices, and this is what is left. -/
def Ends (kinds : Registry (Behaviour σ)) (m n : Machine σ) : Prop :=
  ∃ steps, m.run kinds steps = some n

def Plays (kinds : Registry (Behaviour σ)) : Machine σ → List (Script σ) → Machine σ → Prop
  | m, [], n => n = m
  | m, s :: rest, n => ∃ k, Ends kinds (m.call s) k ∧ Plays kinds k rest n

theorem run_succ (m : Machine σ) (steps : Nat) :
    m.run kinds (steps + 1) = match m.step kinds with
      | none => some m
      | some n => n.run kinds steps := rfl

theorem run_succ_of_next {m n : Machine σ} (h : Next kinds m n) (steps : Nat) :
    m.run kinds (steps + 1) = n.run kinds steps := by
  rw [run_succ, h]

theorem step_eq_none_iff {m : Machine σ} : m.step kinds = none ↔ m.stack = [] := by
  unfold step
  cases m.stack <;> simp

theorem next_resume {m : Machine σ} {f : Frame σ} {stack : List (Frame σ)}
    (hm : m.stack = f :: stack) (hp : m.panic = none) :
    Next kinds m ({ m with stack }.resume kinds f) := by
  rw [Next, step, hm]
  simp [hp]

theorem next_unwind {m : Machine σ} {f : Frame σ} {stack : List (Frame σ)}
    (hm : m.stack = f :: stack) (hp : m.panic ≠ none) :
    Next kinds m ({ m with stack }.unwind f) := by
  rw [Next, step, hm]
  simp [Option.isSome_iff_ne_none.2 hp]

theorem Next.unique {m n k : Machine σ} (h : Next kinds m n) (h' : Next kinds m k) : n = k :=
  Option.some.inj (h.symm.trans h')

theorem eq_resume_of_next {m n : Machine σ} {f : Frame σ} {stack : List (Frame σ)}
    (hm : m.stack = f :: stack) (hp : m.panic = none) (hn : Next kinds m n) :
    n = { m with stack }.resume kinds f :=
  hn.unique (next_resume hm hp)

theorem eq_unwind_of_next {m n : Machine σ} {f : Frame σ} {stack : List (Frame σ)}
    (hm : m.stack = f :: stack) (hp : m.panic ≠ none) (hn : Next kinds m n) :
    n = { m with stack }.unwind f :=
  hn.unique (next_unwind hm hp)

theorem Next.stack_ne_nil {m n : Machine σ} (h : Next kinds m n) : m.stack ≠ [] := by
  intro hm
  rw [Next, step_eq_none_iff.2 hm] at h
  cases h

theorem exists_of_next {m n : Machine σ} (hn : Next kinds m n) :
    ∃ f below, m.stack = f :: below ∧
      (m.panic = none ∧ n = ({ m with stack := below } : Machine σ).resume kinds f ∨
        m.panic ≠ none ∧ n = ({ m with stack := below } : Machine σ).unwind f) := by
  obtain ⟨f, below, hm⟩ := List.exists_cons_of_ne_nil hn.stack_ne_nil
  refine ⟨f, below, hm, ?_⟩
  by_cases hp : m.panic = none
  · exact .inl ⟨hp, eq_resume_of_next hm hp hn⟩
  · exact .inr ⟨hp, eq_unwind_of_next hm hp hn⟩

/-- A session comes to no other moments than those that follow. -/
theorem eq_or_leads_of_next {m n k : Machine σ} (hl : Leads kinds m k) (h : Next kinds m n) :
    k = m ∨ Leads kinds n k := by
  rcases Relation.ReflTransGen.cases_head hl with hk | ⟨j, hj, hl⟩
  · exact .inl hk.symm
  · exact .inr (h.unique hj ▸ hl)

theorem exists_run_of_next {m n e : Machine σ} (h : Next kinds m n) {steps : Nat}
    (hr : m.run kinds steps = some e) : ∃ fewer < steps, n.run kinds fewer = some e := by
  cases steps with
  | zero => cases hr
  | succ steps =>
      rw [run_succ_of_next h] at hr
      exact ⟨steps, Nat.lt_succ_self steps, hr⟩

theorem exists_run_of_proceeds {m n e : Machine σ} (h : Proceeds kinds m n) {steps : Nat}
    (hr : m.run kinds steps = some e) : ∃ fewer < steps, n.run kinds fewer = some e := by
  induction h with
  | single h => exact exists_run_of_next h hr
  | tail _ h ih =>
      obtain ⟨fewer, hlt, hr⟩ := ih
      obtain ⟨least, hlt', hr⟩ := exists_run_of_next h hr
      exact ⟨least, Nat.lt_trans hlt' hlt, hr⟩

theorem ends_iff_of_next {m n e : Machine σ} (h : Next kinds m n) :
    Ends kinds m e ↔ Ends kinds n e := by
  constructor
  · rintro ⟨steps, hr⟩
    obtain ⟨fewer, _, hr⟩ := exists_run_of_next h hr
    exact ⟨fewer, hr⟩
  · rintro ⟨steps, hr⟩
    exact ⟨steps + 1, by rw [run_succ_of_next h, hr]⟩

theorem ends_iff_of_leads {m n e : Machine σ} (h : Leads kinds m n) :
    Ends kinds m e ↔ Ends kinds n e := by
  induction h with
  | refl => exact Iff.rfl
  | tail _ h ih => exact ih.trans (ends_iff_of_next h)

theorem ends_self_iff {m e : Machine σ} (h : m.stack = []) : Ends kinds m e ↔ e = m := by
  have hn : m.step kinds = none := step_eq_none_iff.2 h
  constructor
  · rintro ⟨steps, hr⟩
    cases steps with
    | zero => cases hr
    | succ steps =>
        rw [run_succ, hn] at hr
        exact (Option.some.inj hr).symm
  · rintro rfl
    exact ⟨1, by rw [run_succ, hn]⟩

theorem ends_iff_eq {m n e : Machine σ} (h : Leads kinds m n) (hn : n.stack = []) :
    Ends kinds m e ↔ e = n := by
  rw [ends_iff_of_leads h, ends_self_iff hn]

theorem leads_of_run {m e : Machine σ} {steps : Nat} (h : m.run kinds steps = some e) :
    Leads kinds m e ∧ e.stack = [] := by
  induction steps generalizing m with
  | zero => cases h
  | succ steps ih =>
      rw [run_succ] at h
      split at h
      · rename_i hn
        obtain rfl := Option.some.inj h
        exact ⟨.refl, step_eq_none_iff.1 hn⟩
      · rename_i n hn
        obtain ⟨hl, he⟩ := ih h
        exact ⟨.head hn hl, he⟩

theorem ends_iff {m e : Machine σ} : Ends kinds m e ↔ Leads kinds m e ∧ e.stack = [] := by
  constructor
  · rintro ⟨steps, hr⟩
    exact leads_of_run hr
  · rintro ⟨hl, he⟩
    exact (ends_iff_eq hl he).2 rfl

end Machine

end StoryGraph
