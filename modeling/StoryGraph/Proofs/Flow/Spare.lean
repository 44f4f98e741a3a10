import StoryGraph.Proofs.Flow.Reach

/-!
# What leaves a runner alone

Most of what goes on in a session does nothing to a given runner but change what its nodes read and
write, and what they have laid down for the moment they are left. `Machine.Spares r m n` says this
of two moments: the runner stands where it stood (`Runner.stance`), and what has come on top of the
stack is none of its doing.

Whatever goes on top of a stack that is not the runner's own doing spares the runner, or spares it
and then gives it a task, or spares it and then lets go of it (`Machine.Affects`).
-/

namespace StoryGraph

variable {σ : Type}

def Runner.stance {κ : Type _} (R : Runner κ) : Runner Unit :=
  { R.map (fun _ => ()) with blackboard := ∅, exposed := ∅, armed := [] }

def Free (r : Nat) (l : List (Frame σ)) : Prop := ∀ f ∈ l, f.runner? ≠ some r

theorem free_nil {r : Nat} : Free r ([] : List (Frame σ)) := by
  intro f hf
  cases hf

theorem Free.append {r : Nat} {l l' : List (Frame σ)} (h : Free r l) (h' : Free r l') :
    Free r (l ++ l') := by
  intro f hf
  rcases List.mem_append.1 hf with hf | hf
  · exact h f hf
  · exact h' f hf

theorem Free.cons {r : Nat} {f : Frame σ} {l : List (Frame σ)} (hf : f.runner? ≠ some r)
    (h : Free r l) : Free r (f :: l) := by
  intro f' hf'
  rcases List.mem_cons.1 hf' with rfl | hf'
  · exact hf
  · exact h f' hf'

theorem free_run {r : Nat} (s : Script σ) : Free r [(.run s : Frame σ)] :=
  free_nil.cons (Option.some_ne_none r).symm

theorem Free.filterMap_callback? {r : Nat} {l : List (Frame σ)} (h : Free r l) :
    l.filterMap (Frame.callback? r) = [] := by
  rw [List.filterMap_eq_nil_iff]
  intro f hf
  have hr := h f hf
  cases f with
  | entering runner visit | exiting runner visit =>
      exact if_neg fun he => hr (congrArg some he)
  | run | deliver | dispatch | leaving => rfl

namespace Machine

/-- A runner stands where it stood, and what has come on top of the stack is none of its doing. -/
structure Spares (r : Nat) (m n : Machine σ) : Prop where
  stance : ∀ R ∈ m.world.runners[r]?, ∃ R' ∈ n.world.runners[r]?, R'.stance = R.stance
  stack : ∃ new, n.stack = new ++ m.stack ∧ Free r new

variable {r : Nat} {m n k : Machine σ}

@[refl] theorem Spares.refl (m : Machine σ) : Spares r m m :=
  ⟨fun R hR => ⟨R, hR, rfl⟩, [], rfl, free_nil⟩

theorem Spares.trans (h : Spares r m n) (h' : Spares r n k) : Spares r m k := by
  obtain ⟨new, hnew, hfree⟩ := h.stack
  obtain ⟨new', hnew', hfree'⟩ := h'.stack
  refine ⟨fun R hR => ?_, new' ++ new, ?_, hfree'.append hfree⟩
  · obtain ⟨R', hR', hs⟩ := h.stance R hR
    obtain ⟨R'', hR'', hs'⟩ := h'.stance R' hR'
    exact ⟨R'', hR'', hs'.trans hs⟩
  · rw [hnew', hnew, List.append_assoc]

theorem Spares.of_runners (new : List (Frame σ)) (hw : n.world.runners = m.world.runners)
    (hs : n.stack = new ++ m.stack) (hf : Free r new) : Spares r m n :=
  ⟨fun R hR => ⟨R, hw ▸ hR, rfl⟩, new, hs, hf⟩

theorem Spares.push (h : Spares r m n) {f : Frame σ} (hf : f.runner? ≠ some r) :
    Spares r m (n.push f) :=
  h.trans (.of_runners [f] rfl rfl (free_nil.cons hf))

theorem Spares.run (h : Spares r m n) (s : Script σ) : Spares r m (n.push (.run s)) :=
  h.push (Option.some_ne_none r).symm

theorem Spares.setRunner (h : Spares r m n) {R : Runner (Script σ)}
    (hR : ∀ R' ∈ n.world.runners[r]?, R.stance = R'.stance) : Spares r m (n.setRunner r R) :=
  h.trans ⟨fun R' hR' => ⟨R, runners_setRunner hR' R, hR R' hR'⟩, [], rfl, free_nil⟩

/-- What is done to buses and quest logs spares every runner. -/
theorem Spares.atBuses (h : Spares r m n) (hk : AtBuses n k) : Spares r m k := by
  rcases hk.stack with hs | ⟨bus, rest, hs⟩
  · exact h.trans (.of_runners [] hk.runners hs free_nil)
  · exact h.trans (.of_runners [_] hk.runners hs (free_nil.cons (Option.some_ne_none r).symm))

/-- What is done to another runner spares this one. -/
theorem Spares.atRunner (h : Spares r m n) {r' : Nat} (hne : r' ≠ r) (hk : AtRunner r' n k) :
    Spares r m k := by
  obtain ⟨new, hs, hown⟩ := hk.stack
  refine h.trans ⟨fun R hR => ⟨R, (hk.others r hne.symm).trans hR, rfl⟩, new, hs, fun f hf hr => ?_⟩
  rcases hown f hf with hnone | hother
  · rw [hnone] at hr
    cases hr
  · exact hne (Option.some.inj (hother.symm.trans hr))

/-! ### What goes on beside a runner -/

/-- A runner is spared, and may then be given a task or be let go of. -/
inductive Affects (r : Nat) (m k : Machine σ) : Prop where
  | spares (h : Spares r m k)
  | submits {n : Machine σ} (task : Task) (h : Spares r m n) (hp : n.panic = none)
    (hk : k = n.submit r task) (hlength : n.world.runners.length = m.world.runners.length)
  | releases {n : Machine σ} (h : Spares r m n) (hk : k = n.release r)
    (hlength : n.world.runners.length = m.world.runners.length)

theorem stance_armed (R : Runner (Script σ)) (armed : List Nat) :
    ({ R with armed } : Runner (Script σ)).stance = R.stance := rfl

theorem stance_blackboard (R : Runner (Script σ)) (blackboard : Blackboard) :
    ({ R with blackboard } : Runner (Script σ)).stance = R.stance := rfl

/-- What is to be done when a visit ends does not matter to where a runner stands. -/
theorem stance_onLeave (R : Runner (Script σ)) (visit : Nat) (leave : Script σ) :
    ({ R with current := R.current.map fun c =>
        if c.visit = visit then { c with leave := c.leave.map fun _ => leave } else c } :
      Runner (Script σ)).stance = R.stance := by
  cases hc : R.current with
  | none => simp [Runner.stance, Runner.map, hc]
  | some c => by_cases hv : c.visit = visit <;> simp [Runner.stance, Runner.map, hc, hv]

theorem affects_done (hp : m.panic = none) (visit : Nat) (next : Bool → Script σ) :
    Affects r m (m.done r visit next) := by
  have h : Spares r m m := .refl m
  unfold Machine.done
  split
  · exact .spares (h.run _)
  · rename_i R hR
    split
    · refine .submits (.done visit) (.run (h.setRunner ?_) _) hp rfl List.length_set
      intro R' hR'
      obtain rfl := Option.some.inj (hR.symm.trans hR')
      exact stance_armed R _
    · exact .spares (h.run _)

theorem affects_perform (hp : m.panic = none) (s : Script σ) : Affects r m (m.perform s) := by
  have h : Spares r m m := .refl m
  by_cases haside : ¬s.Aside
  · obtain ⟨next, -, hbuses⟩ := atBuses_perform m haside
    exact .spares ((h.run next).atBuses hbuses)
  rcases exists_other_or_own s.runner? r with ⟨r', hs, hne⟩ | hself
  · obtain ⟨next, -, hrunner⟩ := atRunner_perform m hs
    exact .spares ((h.run next).atRunner hne hrunner)
  cases s with
  | stop => exact .spares h
  | panic p => exact .spares ⟨h.stance, h.stack⟩
  | look next => exact .spares (h.run _)
  | keep change next => exact .spares (.of_runners [_] rfl rfl (free_run _))
  | assign graph bus limit next =>
      have hassign : Spares r m { m with world := { m.world with
          runners := m.world.runners ++ [{ graph, bus, limit }] } } := by
        refine ⟨fun R hR => ⟨R, ?_, rfl⟩, [], rfl, free_nil⟩
        have hlt := (List.getElem?_eq_some_iff.1 hR).1
        rw [Option.mem_def, List.getElem?_append_left hlt]
        exact hR
      exact .spares (hassign.run _)
  | start r' next =>
      obtain rfl := hself r' rfl
      simp only [perform]
      split
      · exact .spares (h.run _)
      · split
        · exact .spares (h.run _)
        · exact .submits _ (h.run _) hp rfl rfl
  | ask r' request next =>
      obtain rfl := hself r' rfl
      exact .submits _ (h.run next) hp rfl rfl
  | done r' visit next =>
      obtain rfl := hself r' rfl
      exact affects_done hp visit next
  | onLeave r' visit leave next =>
      obtain rfl := hself r' rfl
      simp only [perform]
      split
      · exact .spares (h.run _)
      · rename_i R hR
        refine .spares (.run (h.setRunner ?_) _)
        intro R' hR'
        obtain rfl := Option.some.inj (hR.symm.trans hR')
        exact stance_onLeave R visit leave
  | set r' key value next =>
      obtain rfl := hself r' rfl
      simp only [perform]
      split
      · exact .spares (h.run _)
      · rename_i R hR
        refine .spares (.run (h.setRunner ?_) _)
        intro R' hR'
        obtain rfl := Option.some.inj (hR.symm.trans hR')
        exact stance_blackboard R _
  | release r' next =>
      obtain rfl := hself r' rfl
      exact .releases (h.run next) rfl rfl
  | _ => exact absurd id haside

theorem affects_resume (kinds : Registry (Behaviour σ)) (hp : m.panic = none) {f : Frame σ}
    (hf : f.runner? ≠ some r) : Affects r m (m.resume kinds f) := by
  have h : Spares r m m := .refl m
  cases hr : f.runner? with
  | some r' =>
      have hne : r' ≠ r := fun he => hf (hr.trans (congrArg some he))
      exact .spares (h.atRunner hne (atRunner_resume m kinds hr))
  | none =>
      cases f with
      | run s => exact affects_perform hp s
      | deliver bus rest =>
          cases rest with
          | nil =>
              cases bus with
              | none => exact .spares h
              | some b => exact .spares (h.atBuses (atBuses_expireBus m b))
          | cons s rest =>
              exact .spares (.run (h.push (f := .deliver bus rest) (Option.some_ne_none r).symm) s)
      | _ => cases hr

theorem spares_unwind (m : Machine σ) {f : Frame σ} (hf : f.runner? ≠ some r) :
    Spares r m (m.unwind f) := by
  have h : Spares r m m := .refl m
  cases hr : f.runner? with
  | some r' =>
      have hne : r' ≠ r := fun he => hf (hr.trans (congrArg some he))
      obtain ⟨n, hn, heq | ⟨b, heq⟩⟩ := atRunner_unwind m hr
      · rw [heq]
        exact h.atRunner hne hn
      · rw [heq]
        exact (h.atRunner hne hn).atBuses (atBuses_expireBus n b)
  | none =>
      cases f with
      | run s => exact h
      | deliver bus rest =>
          have hcaught : Spares r m { m with panic := none } := ⟨h.stance, h.stack⟩
          exact hcaught.push (f := .deliver bus rest) (Option.some_ne_none r).symm
      | _ => cases hr

end Machine

end StoryGraph
