import StoryGraph.Proofs.Flow.Conduct

/-!
# What stands on what

Not everything can stand on everything in the stack of a session. A script goes on beneath whomever
it calls, so a script stands on a delivery, on the call to a node, or on nothing; and what stands on
the call to a node that is entered is what is left of the behaviour of that node (`Frame.Covers`).

So what is known of all behaviours of nodes is known of every script that stands on such a call
(`Machine.Covered`), and if no behaviour panics, whatever panics is caught right where it was called
(`Machine.Covered.next`).
-/

namespace StoryGraph

variable {σ : Type}

inductive Calls : List (Frame σ) → Prop where
  | nothing : Calls []
  | delivers (bus : Option Nat) (rest : List (Script σ)) : Calls [.deliver bus rest]
  | dispatches (r : Nat) : Calls [.dispatch r 0]
  /-- A runner ends, and its node is left. -/
  | ends (bus : Option Nat) (r visit : Nat) (leave : Script σ) :
    Calls [.run leave, .exiting r visit, .deliver bus []]

namespace Machine

structure Asks (m n : Machine σ) : Prop where
  stack : ∃ new, n.stack = new ++ m.stack ∧ Calls new
  panic : n.panic = m.panic

variable (m : Machine σ)

theorem asks_of_stack_eq {m n : Machine σ} (h : n.stack = m.stack) (hp : n.panic = m.panic) :
    Asks m n :=
  ⟨⟨[], h, .nothing⟩, hp⟩

theorem asks_deliver {m n : Machine σ} {bus : Option Nat} {rest : List (Script σ)}
    (h : n.stack = .deliver bus rest :: m.stack) (hp : n.panic = m.panic) : Asks m n :=
  ⟨⟨_, h, .delivers bus rest⟩, hp⟩

theorem Asks.congr {m k n : Machine σ} (h : Asks k n) (hs : k.stack = m.stack)
    (hp : k.panic = m.panic) : Asks m n :=
  ⟨hs ▸ h.stack, h.panic.trans hp⟩

theorem AtBuses.asks {m n : Machine σ} (h : AtBuses m n) : Asks m n := by
  rcases h.stack with hs | ⟨bus, rest, hs⟩
  · exact asks_of_stack_eq hs h.panic
  · exact asks_deliver hs h.panic

theorem asks_submit (r : Nat) (task : Task) : Asks m (m.submit r task) := by
  unfold submit
  split
  · exact asks_of_stack_eq rfl rfl
  · split
    · exact asks_of_stack_eq rfl rfl
    · dsimp only
      split
      · exact asks_of_stack_eq rfl rfl
      · exact ⟨⟨_, rfl, .dispatches r⟩, rfl⟩

theorem stack_leave (r : Nat) (R : Runner (Script σ)) :
    (m.leave r R).stack = m.stack ∨
      ∃ s visit, (m.leave r R).stack = .run s :: .exiting r visit :: m.stack := by
  unfold leave
  dsimp only
  split
  · exact .inr ⟨_, _, rfl⟩
  · exact .inl rfl

theorem panic_leave (r : Nat) (R : Runner (Script σ)) : (m.leave r R).panic = m.panic := by
  unfold leave
  dsimp only
  split <;> rfl

theorem asks_expireRunner (r : Nat) : Asks m (m.expireRunner r) := by
  unfold expireRunner
  split
  · exact asks_of_stack_eq rfl rfl
  · rename_i R hR
    split
    · have hp := panic_leave (m.push (.deliver (some R.bus) [])) r { R with lifetime := .over }
      rcases stack_leave (m.push (.deliver (some R.bus) [])) r { R with lifetime := .over } with
        h | ⟨s, visit, h⟩
      · exact asks_deliver h hp
      · exact ⟨⟨_, h, .ends (some R.bus) r visit s⟩, hp⟩
    · exact asks_of_stack_eq rfl rfl

theorem asks_release (r : Nat) : Asks m (m.release r) := by
  unfold release
  split
  · exact asks_of_stack_eq rfl rfl
  · exact (asks_expireRunner _ r).congr rfl rfl

/-! ### Scripts -/

/-- Something has been asked of others, and a script goes on beneath them with what it handed its
properties on to. -/
structure GoesOnBeneath (m : Machine σ) (s : Script σ) (n : Machine σ) (new : List (Frame σ))
    (next : Script σ) : Prop where
  stack : n.stack = new ++ .run next :: m.stack
  calls : Calls new
  panic : n.panic = m.panic
  all : ∀ p : Script σ → Prop, s.All p → next.All p

theorem stack_perform (s : Script σ) :
    (s = .stop ∨ ∃ p, s = .panic p) ∨ ∃ new next, GoesOnBeneath m s (m.perform s) new next := by
  have hpush : ∀ {n : Machine σ} {next : Script σ}, n.stack = .run next :: m.stack →
      n.panic = m.panic → (∀ p : Script σ → Prop, s.All p → next.All p) →
      ∃ new next, GoesOnBeneath m s n new next :=
    fun h hp hnext => ⟨[], _, h, .nothing, hp, hnext⟩
  have hasks : ∀ {k n : Machine σ} {next : Script σ}, Asks k n → k.stack = .run next :: m.stack →
      k.panic = m.panic → (∀ p : Script σ → Prop, s.All p → next.All p) →
      ∃ new next, GoesOnBeneath m s n new next := by
    intro k n next h hk hp hnext
    obtain ⟨new, hn, hnew⟩ := h.stack
    exact ⟨new, next, hk ▸ hn, hnew, h.panic.trans hp, hnext⟩
  by_cases haside : ¬s.Aside
  · obtain ⟨next, hnext, hbuses⟩ := atBuses_perform m haside
    exact .inr (hasks hbuses.asks rfl rfl hnext)
  cases s with
  | stop => exact .inl (.inl rfl)
  | panic p => exact .inl (.inr ⟨p, rfl⟩)
  | look next => exact .inr (hpush rfl rfl fun p h => h.2 _ _)
  | keep change next => exact .inr (hpush rfl rfl fun p h => h.2)
  | assign graph bus limit next => exact .inr (hpush rfl rfl fun p h => h.2 _)
  | start r next =>
      simp only [perform]
      split
      · exact .inr (hpush rfl rfl fun p h => h.2 _)
      · split
        · exact .inr (hpush rfl rfl fun p h => h.2 _)
        · exact .inr (hasks (asks_submit _ r _) rfl rfl fun p h => h.2 _)
  | ask r request next => exact .inr (hasks (asks_submit _ r _) rfl rfl fun p h => h.2)
  | done r visit next =>
      simp only [perform, done]
      split
      · exact .inr (hpush rfl rfl fun p h => h.2 _)
      · split
        · exact .inr (hasks (asks_submit ((m.setRunner r _).push _) r _) rfl rfl fun p h => h.2 _)
        · exact .inr (hpush rfl rfl fun p h => h.2 _)
  | onLeave r visit leave next =>
      simp only [perform]
      split
      · exact .inr (hpush rfl rfl fun p h => h.2.2)
      · exact .inr (hpush rfl rfl fun p h => h.2.2)
  | set r key value next =>
      simp only [perform]
      split
      · exact .inr (hpush rfl rfl fun p h => h.2)
      · exact .inr (hpush rfl rfl fun p h => h.2)
  | release r next => exact .inr (hasks (asks_release _ r) rfl rfl fun p h => h.2)
  | _ => exact absurd id haside

end Machine

/-! ### What stands on what -/

/-- Whether a frame can stand on another. What stands on the call to a node that is entered is left
of its behaviour, and has what is known of all behaviours, for the runner and the visit. -/
def Frame.Covers (p : Nat → Nat → Script σ → Prop) (f : Frame σ) : Frame σ → Prop
  | .entering r visit => ∃ s, f = .run s ∧ s.All (p r visit)
  | .deliver _ _ | .exiting _ _ => True
  | .run _ | .dispatch _ _ | .leaving _ _ => ∀ s, f ≠ .run s

/-- A frame that lets no panic pass, whatever it is that it called. -/
inductive Frame.Catches : Frame σ → Prop where
  | deliver (bus : Option Nat) (rest : List (Script σ)) : Catches (.deliver bus rest)
  | exiting (r visit : Nat) : Catches (.exiting r visit)

variable {p : Nat → Nat → Script σ → Prop} {f f' : Frame σ} {stack : List (Frame σ)}

/-- What is called can stand where something else was called. -/
theorem Frame.Covers.congr {g : Frame σ} (h : f.Covers p g) (hf : ∀ s, f ≠ .run s)
    (hf' : ∀ s, f' ≠ .run s) : f'.Covers p g := by
  cases g with
  | entering r visit =>
      obtain ⟨s, hs, -⟩ := h
      exact absurd hs (hf s)
  | deliver | exiting => exact trivial
  | run | dispatch | leaving => exact hf'

/-- What a script goes on with can stand where the script stood. -/
theorem Frame.Covers.next {g : Frame σ} {s next : Script σ} (h : (Frame.run s).Covers p g)
    (hnext : ∀ q : Script σ → Prop, s.All q → next.All q) : (Frame.run next).Covers p g := by
  cases g with
  | entering r visit =>
      obtain ⟨s', hs, hall⟩ := h
      obtain rfl := Frame.run.inj hs
      exact ⟨next, rfl, hnext _ hall⟩
  | deliver | exiting => exact trivial
  | run | dispatch | leaving => exact absurd rfl (h s)

/-- What is asked of others can stand on all but the call to a node that is entered. -/
theorem Calls.chain {new : List (Frame σ)} (h : Calls new)
    (hchain : stack.IsChain (Frame.Covers p))
    (hhead : ∀ g ∈ stack.head?, f.Covers p g) (hf : ∀ s, f ≠ .run s) :
    (new ++ stack).IsChain (Frame.Covers p) := by
  have hon : ∀ {f'' : Frame σ}, (∀ s, f'' ≠ .run s) → (f'' :: stack).IsChain (Frame.Covers p) :=
    fun hf'' => List.isChain_cons.2 ⟨fun g hg => (hhead g hg).congr hf hf'', hchain⟩
  cases h with
  | nothing => exact hchain
  | delivers bus rest => exact hon fun s hs => by cases hs
  | dispatches r => exact hon fun s hs => by cases hs
  | ends bus r visit leave =>
      exact List.isChain_cons_cons.2 ⟨trivial, List.isChain_cons_cons.2
        ⟨trivial, hon fun s hs => by cases hs⟩⟩

namespace Machine

/-- What stands on what in a session, and what a panic gets to. -/
structure Covered (p : Nat → Nat → Script σ → Prop) (m : Machine σ) : Prop where
  chain : m.stack.IsChain (Frame.Covers p)
  caught : m.panic ≠ none → ∀ f ∈ m.stack.head?, f.Catches

variable {kinds : Registry (Behaviour σ)} {m n : Machine σ}

theorem Covered.of_asks (h : Asks m n) (hp : m.panic = none)
    (hchain : m.stack.IsChain (Frame.Covers p)) (hhead : ∀ g ∈ m.stack.head?, f.Covers p g)
    (hf : ∀ s, f ≠ .run s) : n.Covered p := by
  obtain ⟨new, hn, hnew⟩ := h.stack
  refine ⟨?_, fun hpanic => absurd (h.panic.trans hp) hpanic⟩
  rw [hn]
  exact hnew.chain hchain hhead hf

theorem Covered.perform (hpanics : ∀ r visit e, ¬p r visit (.panic e)) (hp : m.panic = none)
    (hchain : m.stack.IsChain (Frame.Covers p)) {s : Script σ}
    (hhead : ∀ g ∈ m.stack.head?, (Frame.run s).Covers p g) : (m.perform s).Covered p := by
  rcases stack_perform m s with (rfl | ⟨e, rfl⟩) | ⟨new, next, hgoes⟩
  · exact ⟨hchain, fun hpanic => absurd hp hpanic⟩
  · refine ⟨hchain, fun _ g hg => ?_⟩
    have hcovers := hhead g hg
    cases g with
    | entering r visit =>
        obtain ⟨s, hs, hall⟩ := hcovers
        obtain rfl := Frame.run.inj hs
        exact absurd hall (hpanics r visit e)
    | deliver bus rest => exact .deliver bus rest
    | exiting r visit => exact .exiting r visit
    | run | dispatch | leaving => exact absurd rfl (hcovers _)
  · refine ⟨?_, fun hpanic => absurd (hgoes.panic.trans hp) hpanic⟩
    rw [hgoes.stack]
    have hnext : (Frame.run next :: m.stack).IsChain (Frame.Covers p) :=
      List.isChain_cons.2 ⟨fun g hg => (hhead g hg).next hgoes.all, hchain⟩
    refine hgoes.calls.chain (f := .dispatch 0 0) hnext ?_ fun s hs => by cases hs
    rintro g ⟨⟩ s ⟨⟩

theorem Covered.dispatch (hp : m.panic = none) (hchain : m.stack.IsChain (Frame.Covers p))
    (hhead : ∀ g ∈ m.stack.head?, f.Covers p g) (hf : ∀ s, f ≠ .run s) (r entered : Nat)
    (R : Runner (Script σ)) : (m.dispatch r R entered).Covered p := by
  have hon : ∀ e, (Frame.dispatch r e :: m.stack).IsChain (Frame.Covers p) := fun e =>
    List.isChain_cons.2 ⟨fun g hg => (hhead g hg).congr hf (fun s hs => by cases hs), hchain⟩
  have hstays : ∀ R' e, ((m.setRunner r R').push (.dispatch r e)).Covered p := fun R' e =>
    ⟨hon e, fun hpanic => absurd hp hpanic⟩
  have hleaves : ∀ R' target e,
      (((m.push (.dispatch r e)).push (.leaving r target)).leave r R').Covered p := by
    intro R' target e
    have hway : (Frame.leaving r target :: .dispatch r e :: m.stack).IsChain (Frame.Covers p) :=
      List.isChain_cons_cons.2 ⟨(fun s hs => by cases hs), hon e⟩
    let k := (m.push (.dispatch r e)).push (.leaving r target)
    refine ⟨?_, fun hpanic => absurd ((panic_leave k r R').trans hp) hpanic⟩
    rcases stack_leave k r R' with h | ⟨s, visit, h⟩
    · rw [h]
      exact hway
    · rw [h]
      exact List.isChain_cons_cons.2 ⟨trivial, List.isChain_cons_cons.2
        ⟨(fun s hs => by cases hs), hway⟩⟩
  unfold Machine.dispatch
  split
  · exact .of_asks ((asks_expireRunner _ r).congr rfl rfl) hp hchain hhead hf
  · split
    · exact .of_asks ((asks_expireRunner _ r).congr rfl rfl) hp hchain hhead hf
    · split
      · exact hstays _ _
      · exact hstays _ _
      · exact hleaves _ _ _
      · exact hleaves _ _ _

theorem Covered.enter {r : Nat} {R : Runner (Script σ)}
    (hbuild : ∀ n e, kinds.build n ≠ .panicked e)
    (hkinds : ∀ n behaviour, kinds.build n = .ready behaviour →
      ∀ visit, (behaviour ⟨r, R.bus, visit⟩).All (p r visit))
    (hp : m.panic = none) (hchain : m.stack.IsChain (Frame.Covers p))
    (hhead : ∀ g ∈ m.stack.head?, f.Covers p g) (hf : ∀ s, f ≠ .run s) (node : Node) :
    (m.enter kinds r R node).Covered p := by
  unfold Machine.enter
  dsimp only
  split
  · exact ⟨hchain, fun hpanic => absurd hp hpanic⟩
  · rename_i e he
    exact absurd he (hbuild node e)
  · rename_i behaviour hready
    have hentering : (Frame.entering r (R.visits + 1) :: m.stack).IsChain (Frame.Covers p) :=
      List.isChain_cons.2 ⟨fun g hg => (hhead g hg).congr hf (fun s hs => by cases hs), hchain⟩
    exact ⟨List.isChain_cons_cons.2 ⟨⟨_, rfl, hkinds node behaviour hready _⟩, hentering⟩,
      fun hpanic => absurd hp hpanic⟩

/-- Every step leaves what stands on what in order. -/
theorem Covered.next (hbuild : ∀ n e, kinds.build n ≠ .panicked e)
    (hkinds : ∀ n behaviour, kinds.build n = .ready behaviour → ∀ r, ∀ R ∈ m.world.runners[r]?,
      ∀ visit, (behaviour ⟨r, R.bus, visit⟩).All (p r visit))
    (hpanics : ∀ r visit e, ¬p r visit (.panic e)) (h : m.Covered p) (hn : Next kinds m n) :
    n.Covered p := by
  obtain ⟨f, stack, hm, ⟨hp, rfl⟩ | ⟨hp, rfl⟩⟩ := exists_of_next hn
  · have hcovers := List.isChain_cons.1 (hm ▸ h.chain)
    have hp' : ({ m with stack } : Machine σ).panic = none := hp
    have hchain : ({ m with stack } : Machine σ).stack.IsChain (Frame.Covers p) := hcovers.2
    have hrest : ({ m with stack } : Machine σ).Covered p :=
      ⟨hchain, fun hpanic => absurd hp hpanic⟩
    cases f with
    | run s => exact .perform hpanics hp' hchain hcovers.1
    | deliver bus rest =>
        have hf : ∀ s, (Frame.deliver bus rest : Frame σ) ≠ .run s := fun s hs => by cases hs
        cases rest with
        | nil =>
            cases bus with
            | none => exact hrest
            | some b => exact .of_asks (atBuses_expireBus _ b).asks hp' hchain hcovers.1 hf
        | cons s rest =>
            refine ⟨List.isChain_cons_cons.2 ⟨trivial, List.isChain_cons.2 ⟨?_, hchain⟩⟩,
              fun hpanic => absurd hp hpanic⟩
            exact fun g hg => (hcovers.1 g hg).congr hf (fun s hs => by cases hs)
    | dispatch r entered =>
        simp only [resume]
        split
        · exact hrest
        · exact .dispatch hp' hchain hcovers.1 (fun s hs => by cases hs) r entered _
    | entering | exiting => exact hrest
    | leaving r target =>
        simp only [resume]
        split
        · exact hrest
        · exact ⟨hchain, fun hpanic => absurd hp hpanic⟩
        · rename_i R node hR
          exact .enter hbuild (fun n behaviour h => hkinds n behaviour h r R hR) hp' hchain
            hcovers.1 (fun s hs => by cases hs) node
  · have hchain : (f :: stack).IsChain (Frame.Covers p) := hm ▸ h.chain
    have hcatches := h.caught hp f (by rw [hm]; rfl)
    cases hcatches with
    | deliver bus rest => exact ⟨hchain, fun hpanic => absurd rfl hpanic⟩
    | exiting r visit => exact ⟨hchain.tail, fun hpanic => absurd rfl hpanic⟩

theorem covered_call (m : Machine σ) (s : Script σ) : (m.call s).Covered p :=
  ⟨List.isChain_singleton _, fun hpanic => absurd rfl hpanic⟩

theorem covered_of_stack_eq_nil (hm : m.stack = []) : m.Covered p := by
  refine ⟨?_, fun _ f hf => ?_⟩
  · rw [hm]
    exact List.isChain_nil
  · rw [hm] at hf
    cases hf

end Machine

end StoryGraph
