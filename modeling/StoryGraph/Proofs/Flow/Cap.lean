import StoryGraph.Proofs.Flow.Change
import StoryGraph.Proofs.Flow.Nodes

/-!
# What a limit on entered nodes does

A limit is asked about before a runner takes a task, not before it enters a node. So a runner that
has entered as many nodes as it may (`Machine.Meets`) gives up the tasks that are left, even those
that would have entered no node (`Machine.giveUp`).

Nobody notices if the tasks that are left lead nowhere and the flow ends up halted anyway
(`Runner.Spent`): the runner with the limit is ahead of the one without for a while, and then they
go on side by side. Where tasks of another sort are left, the two part.
-/

namespace StoryGraph

variable {σ : Type}

/-- No task that waits leads anywhere, and the flow is halted or one of them halts it. -/
structure Runner.Spent {κ : Type _} (R : Runner κ) : Prop where
  still : ∀ t ∈ R.queue, R.move t = .stay ∨ R.move t = .halt
  halts : R.halted = true ∨ ∃ t ∈ R.queue, R.move t = .halt

namespace Machine

variable {kinds : Registry (Behaviour σ)} {r L : Nat} {m n k c : Machine σ}

/-- A runner is about to take a task, on top of a stack, and has entered as many nodes as a limit
lets it. -/
structure Meets (r L : Nat) (m : Machine σ) (R : Runner (Script σ)) (stack : List (Frame σ)) :
    Prop where
  runner : R ∈ m.world.runners[r]?
  panic : m.panic = none
  stack : ∃ entered, m.stack = .dispatch r entered :: stack ∧ L ≤ entered
  waiting : R.queue ≠ []

def giveUp (m : Machine σ) (r : Nat) (R : Runner (Script σ)) (stack : List (Frame σ)) :
    Machine σ :=
  ({ m with stack }.setRunner r
    { R with queue := [], halted := true, dispatching := false }).expireRunner r

theorem setRunner_setRunner (m : Machine σ) (r : Nat) (R R' : Runner (Script σ)) :
    (m.setRunner r R).setRunner r R' = m.setRunner r R' := by
  simp [setRunner, World.setRunner]

theorem Meets.next {R : Runner (Script σ)} {stack : List (Frame σ)} (h : m.Meets r L R stack) :
    Next kinds (m.withLimit r (some L)) ((m.giveUp r R stack).withLimit r (some L)) := by
  obtain ⟨entered, hm, hle⟩ := h.stack
  obtain ⟨task, queue, hqueue⟩ := List.exists_cons_of_ne_nil h.waiting
  have hnext : Next kinds (m.withLimit r (some L)) _ := next_resume hm h.panic
  have hR : (m.world.withLimit r (some L)).runners[r]? = some (R.limited r (some L) r) := by
    rw [World.getElem?_withLimit, Option.mem_def.1 h.runner, Option.map_some]
  have hany : (R.limited r (some L) r).limit.any (· ≤ entered) = true := by
    simp [Runner.limited, hle]
  have hgive : (m.giveUp r R stack).withLimit r (some L) =
      { m.withLimit r (some L) with stack }.resume kinds (.dispatch r entered) := by
    rw [giveUp, withLimit_expireRunner, withLimit_setRunner]
    simp only [resume, dispatch, world_withLimit, hR, Runner.queue_limited, hqueue, hany, if_true]
    rfl
  rw [hgive]
  exact hnext

/-- The runner with the limit is where the one without is, or it has given up already what the other
is still working off in vain. -/
inductive Ahead (r L : Nat) (m : Machine σ) : Machine σ → Prop where
  | level : Ahead r L m (m.withLimit r (some L))
  | ahead {R : Runner (Script σ)} {entered : Nat} {stack : List (Frame σ)}
    (hR : R ∈ m.world.runners[r]?) (hp : m.panic = none)
    (hm : m.stack = .dispatch r entered :: stack) (hle : L ≤ entered) (hs : R.Spent) :
    Ahead r L m ((m.giveUp r R stack).withLimit r (some L))

theorem Ahead.next_of_spent {R : Runner (Script σ)} {entered : Nat} {stack : List (Frame σ)}
    (hR : R ∈ m.world.runners[r]?) (hlimit : R.limit = none) (hp : m.panic = none)
    (hm : m.stack = .dispatch r entered :: stack) (hle : L ≤ entered) (hs : R.Spent)
    (hn : Next kinds m n) : Ahead r L n ((m.giveUp r R stack).withLimit r (some L)) := by
  have hany : R.limit.any (· ≤ entered) = false := by rw [hlimit, Option.any_none]
  have hn := eq_resume_of_next hm hp hn
  simp only [resume, Option.mem_def.1 hR, dispatch, hany, Bool.false_eq_true, if_false] at hn
  -- Both end up in the same way if one task is taken from the queue before it is given up.
  have hahead : ∀ R' : Runner (Script σ), R'.Spent →
      { R' with queue := [], halted := true, dispatching := false } =
        { R with queue := [], halted := true, dispatching := false } →
      n = ({ m with stack }.setRunner r R').push (.dispatch r entered) →
      Ahead r L n ((m.giveUp r R stack).withLimit r (some L)) := by
    intro R' hs' hsame hn'
    have hgive : n.giveUp r R' stack = m.giveUp r R stack := by
      rw [giveUp, giveUp, hsame, hn']
      exact congrArg (fun k => expireRunner k r) (setRunner_setRunner { m with stack } r R' _)
    rw [← hgive]
    refine .ahead ?_ ?_ ?_ hle hs'
    · rw [hn']
      exact runners_setRunner (m := { m with stack }) hR R'
    · rw [hn']
      exact hp
    · rw [hn']
      rfl
  cases hqueue : R.queue with
  | nil =>
      have hhalted : R.halted = true := by
        rcases hs.halts with h | ⟨t, ht, -⟩
        · exact h
        · rw [hqueue] at ht
          cases ht
      have hsame : { R with queue := [], halted := true, dispatching := false } =
          { R with queue := [], dispatching := false } := by
        rw [← hhalted]
      simp only [hqueue] at hn
      rw [giveUp, hsame, ← hn]
      exact .level
  | cons task queue =>
      rw [hqueue] at hn
      have hrest : ∀ t ∈ queue, R.move t = .stay ∨ R.move t = .halt := fun t ht =>
        hs.still t (hqueue ▸ List.mem_cons_of_mem _ ht)
      rcases hs.still task (hqueue ▸ List.mem_cons_self) with hmove | hmove
      · refine hahead { R with queue } ⟨hrest, ?_⟩ rfl (by simpa [hmove] using hn)
        rcases hs.halts with h | ⟨t, ht, hhalt⟩
        · exact .inl h
        · rw [hqueue] at ht
          rcases List.mem_cons.1 ht with rfl | ht
          · rw [hmove] at hhalt
            cases hhalt
          · exact .inr ⟨t, ht, hhalt⟩
      · exact hahead { R with queue, halted := true } ⟨hrest, .inl rfl⟩ rfl
          (by simpa [hmove] using hn)

/-- The two go on side by side as long as the limit is met only where nobody notices. -/
theorem Ahead.next (h : Ahead r L m c) (hu : m.Unlimited r)
    (hm : m.Abides (Script.All Script.Blind)) (hn : Next kinds m n)
    (hs : ∀ R stack, m.Meets r L R stack → R.Spent) :
    ∃ d, Leads kinds c d ∧ Ahead r L n d := by
  obtain ⟨R, hR, hlimit⟩ := hu
  cases h with
  | level =>
      by_cases hmeets : ∃ R stack, m.Meets r L R stack
      · obtain ⟨R', stack, hmeets⟩ := hmeets
        obtain ⟨entered, hstack, hle⟩ := hmeets.stack
        obtain rfl := Option.some.inj (hR.symm.trans hmeets.runner)
        exact ⟨_, .single hmeets.next,
          .next_of_spent hR hlimit hmeets.panic hstack hle (hs R stack hmeets) hn⟩
      · refine ⟨_, .single (hn.withLimit (some L) hm (List.getElem?_eq_some_iff.1 hR).1 ?_), .level⟩
        intro entered stack hp hstack R' hR'
        obtain rfl := Option.some.inj (hR.symm.trans hR')
        by_cases hq : R.queue = []
        · exact .inl hq
        · have hlt : ¬L ≤ entered := fun hle =>
            hmeets ⟨R, stack, hR, hp, ⟨entered, hstack, hle⟩, hq⟩
          exact .inr (by simp [hlimit, hlt])
  | ahead hR' hp hstack hle hspent =>
      obtain rfl := Option.some.inj (hR.symm.trans hR')
      exact ⟨_, .refl, .next_of_spent hR hlimit hp hstack hle hspent hn⟩

/-- Up to a moment before which nobody has noticed the limit, the runner with the limit has come as
far as the one without. -/
theorem exists_ahead_of_leads
    (hkinds : ∀ n behaviour, kinds.build n = .ready behaviour →
      ∀ v, (behaviour v).All Script.Blind)
    (hm : m.Abides (Script.All Script.Blind)) (hu : m.Unlimited r) (hl : Leads kinds m k)
    (hs : ∀ j R stack, Leads kinds m j → Proceeds kinds j k → j.Meets r L R stack → R.Spent) :
    (∃ d, Leads kinds (m.withLimit r (some L)) d ∧ Ahead r L k d) ∧
      k.Abides (Script.All Script.Blind) ∧ k.Unlimited r := by
  induction hl with
  | refl => exact ⟨⟨_, .refl, .level⟩, hm, hu⟩
  | @tail j k hl hn ih =>
      obtain ⟨⟨c, hc, hahead⟩, hj, hju⟩ := ih fun i R stack hi hij => hs i R stack hi (hij.tail hn)
      obtain ⟨d, hd, hahead⟩ := hahead.next hju hj hn fun R stack => hs j R stack hl (.single hn)
      exact ⟨⟨d, hc.trans hd, hahead⟩, hj.next hkinds (fun _ => ⟨trivial, trivial⟩) hn,
        hju.next hn⟩

/-- A runner with a limit on the nodes it enters does as it would without, if the tasks that are
left whenever the limit is met are such that nobody notices. The first time they are not, it stays
where it is and halts, and the tasks that are left are lost. -/
theorem limit_gives_up_what_is_left (hm : m.Abides (Script.All Script.Blind))
    (hu : m.Unlimited r) :
    (∀ n, Ends Builtin.registry m n →
      (∀ k R stack, Leads Builtin.registry m k → k.Meets r L R stack → R.Spent) →
      Ends Builtin.registry (m.withLimit r (some L)) (n.withLimit r (some L))) ∧
    ∀ k R stack, Leads Builtin.registry m k → k.Meets r L R stack → ¬R.Spent →
      (∀ j R' stack', Leads Builtin.registry m j → Proceeds Builtin.registry j k →
        j.Meets r L R' stack' → R'.Spent) →
      Leads Builtin.registry (m.withLimit r (some L)) (k.withLimit r (some L)) ∧
      ∃ c, Next Builtin.registry (k.withLimit r (some L)) c ∧
        (R.lifetime = .kept → c.stack = stack ∧
          { R with limit := some L, queue := [], halted := true, dispatching := false } ∈
            c.world.runners[r]?) := by
  have hkinds : ∀ n behaviour, (Builtin.registry : Registry (Behaviour σ)).build n =
      .ready behaviour → ∀ v, (behaviour v).All Script.Blind :=
    fun _ _ h v => Builtin.all_of_build h v fun _ _ hs => hs.blind
  constructor
  · intro n hn hs
    obtain ⟨hl, hstack⟩ := ends_iff.1 hn
    obtain ⟨⟨d, hd, hahead⟩, -⟩ := exists_ahead_of_leads hkinds hm hu hl
      fun j R stack hj _ => hs j R stack hj
    cases hahead with
    | level => exact ends_iff.2 ⟨hd, hstack⟩
    | ahead _ _ hm' _ _ =>
        rw [hstack] at hm'
        cases hm'
  · intro k R stack hk hmeets hspent hs
    obtain ⟨⟨d, hd, hahead⟩, -⟩ := exists_ahead_of_leads hkinds hm hu hk hs
    cases hahead with
    | level =>
        refine ⟨hd, _, hmeets.next, fun hkept => ?_⟩
        have hset := runners_setRunner (m := { k with stack }) hmeets.runner
          { R with queue := [], halted := true, dispatching := false }
        have hgive : k.giveUp r R stack = ({ k with stack } : Machine σ).setRunner r
            { R with queue := [], halted := true, dispatching := false } :=
          expireRunner_eq_self hset (.inl (by simp [hkept]))
        rw [hgive]
        refine ⟨rfl, ?_⟩
        rw [world_withLimit, World.getElem?_withLimit, Option.mem_def.1 hset]
        simp [Runner.limited]
    | ahead hR' _ _ _ hspent' =>
        obtain rfl := Option.some.inj (hR'.symm.trans hmeets.runner)
        exact absurd hspent' hspent

def halted : Machine Unit where
  world :=
    { runners := [{ graph := { start := some ⟨"a"⟩, nodes := [{ kind := "note", id := ⟨"a"⟩ }] }
                    bus := 0, limit := none, current := some ⟨⟨"a"⟩, 1, some .stop⟩
                    halted := true, visits := 1 }]
      buses := [{}] }
  data := ()
  stack := [.run (.ask 0 .advance .stop)]

theorem ends_withLimit_halted : ∃ n, Ends Builtin.registry halted n ∧
    Ends Builtin.registry (halted.withLimit 0 (some 0)) (n.withLimit 0 (some 0)) := by
  have hblind : halted.Abides (Script.All Script.Blind) := by
    refine ⟨⟨List.forall_mem_singleton.2 ?_, List.forall_mem_singleton.2 ?_, ?_⟩,
      List.forall_mem_singleton.2 ⟨trivial, trivial⟩⟩
    · rintro c ⟨⟩ s ⟨⟩
      trivial
    · exact ⟨fun s hs => (List.not_mem_nil hs).elim, fun s hs => (List.not_mem_nil hs).elim⟩
    · exact fun l hl => (List.not_mem_nil hl).elim
  obtain ⟨n, hrun⟩ : ∃ n, halted.run Builtin.registry 10 = some n := ⟨_, rfl⟩
  refine ⟨n, ⟨10, hrun⟩, (limit_gives_up_what_is_left hblind ⟨_, rfl, rfl⟩).1 n ⟨10, hrun⟩ ?_⟩
  rintro k R stack hk ⟨hR, -, ⟨entered, hstack, -⟩, hwaiting⟩
  rcases eq_or_leads_of_next hk (next_resume rfl rfl) with rfl | hk
  · cases hstack
  rcases eq_or_leads_of_next hk (next_resume rfl rfl) with rfl | hk
  · obtain rfl := Option.some.inj hR
    exact ⟨List.forall_mem_singleton.2 (.inr rfl), .inl rfl⟩
  rcases eq_or_leads_of_next hk (next_resume rfl rfl) with rfl | hk
  · obtain rfl := Option.some.inj hR
    exact absurd rfl hwaiting
  rcases eq_or_leads_of_next hk (next_resume rfl rfl) with rfl | hk
  · cases hstack
  rcases Relation.ReflTransGen.cases_head hk with rfl | ⟨j, hj, -⟩
  · cases hstack
  · cases hj

end Machine

end StoryGraph
