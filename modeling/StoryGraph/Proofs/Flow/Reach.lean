import StoryGraph.Proofs.Flow.Callbacks
import StoryGraph.Proofs.Flow.Scripts

/-!
# How far a step reaches

What is done in one step of a session is done to buses and quest logs, or to one runner. In the
first case no runner notices, and whoever is called is called in one delivery (`Machine.AtBuses`).
In the second no other runner, no bus and no quest log notices, and what comes on top of the stack
is the doing of that runner or of nobody (`Machine.AtRunner`).

Both are shown here once for all that a script may ask for and for all that a runner does by itself.
What stays the same in a step is read off them.
-/

namespace StoryGraph

variable {σ : Type}

/-- Whether a step of a script leaves the buses and quest logs alone. -/
def Script.Aside : Script σ → Prop
  | .stop | .panic _ | .look _ | .keep .. | .assign .. | .start .. | .ask .. | .done ..
  | .onLeave .. | .set .. | .release .. => True
  | _ => False

def Script.runner? : Script σ → Option Nat
  | .start r _ | .ask r _ _ | .done r _ _ | .onLeave r _ _ _ | .set r _ _ _ | .release r _ => some r
  | _ => none

/-- What is about a runner is about another one, or about this one if it is about any. -/
theorem exists_other_or_own (o : Option Nat) (r : Nat) :
    (∃ r', o = some r' ∧ r' ≠ r) ∨ ∀ r', o = some r' → r' = r := by
  by_cases h : ∃ r', o = some r' ∧ r' ≠ r
  · exact .inl h
  · exact .inr fun r' hr' => by_contra fun hne => h ⟨r', hr', hne⟩

namespace Machine

variable {m n k : Machine σ} {r : Nat} {f : Frame σ}

theorem runners_setRunner {R : Runner (Script σ)} (hR : R ∈ m.world.runners[r]?)
    (R' : Runner (Script σ)) : R' ∈ (m.setRunner r R').world.runners[r]? := by
  have hlt := (List.getElem?_eq_some_iff.1 hR).1
  simp [setRunner, World.setRunner, hlt]

/-! ### What is done to buses and quest logs -/

/-- What is done from one moment to another is done to buses and quest logs. Those who are called
are called in one delivery. -/
structure AtBuses (m n : Machine σ) : Prop where
  runners : n.world.runners = m.world.runners
  panic : n.panic = m.panic
  stack : n.stack = m.stack ∨ ∃ bus rest, n.stack = .deliver bus rest :: m.stack

@[refl] theorem AtBuses.refl (m : Machine σ) : AtBuses m m := ⟨rfl, rfl, .inl rfl⟩

theorem atBuses_withWorld (m : Machine σ) {w : World (Script σ)}
    (hw : w.runners = m.world.runners) : AtBuses m { m with world := w } :=
  ⟨hw, rfl, .inl rfl⟩

theorem atBuses_deliver (m : Machine σ) (bus : Option Nat) (rest : List (Script σ))
    {w : World (Script σ)} (hw : w.runners = m.world.runners) :
    AtBuses m ({ m with world := w }.push (.deliver bus rest)) :=
  ⟨hw, rfl, .inr ⟨bus, rest, rfl⟩⟩

theorem AtBuses.withWorld {w : World (Script σ)} (h : AtBuses { m with world := w } n)
    (hw : w.runners = m.world.runners) : AtBuses m n :=
  ⟨h.runners.trans hw, h.panic, h.stack⟩

variable (m)

theorem atBuses_raise (b : Nat) (key : String) : AtBuses m (m.raise b key) := by
  unfold raise
  split
  · exact .refl m
  · split
    · exact atBuses_withWorld m (World.runners_setBus _ _)
    · exact atBuses_deliver m _ _ rfl

theorem atBuses_expireBus (b : Nat) : AtBuses m (m.expireBus b) := by
  unfold expireBus
  split
  · exact .refl m
  · split
    · exact atBuses_withWorld m (World.runners_unwatch _ _)
    · exact .refl m

theorem atBuses_advance (bus : Option Nat) (l : Nat) (quest : String) (step : QuestStep) :
    AtBuses m (m.advance bus l quest step) := by
  unfold advance
  split
  · exact .refl m
  · exact atBuses_deliver m _ _ (World.runners_setLog _ _)

theorem atBuses_notify (b : Nat) : AtBuses m (m.notify b) := by
  unfold notify
  split
  · exact .refl m
  · split
    · exact .refl m
    · exact atBuses_deliver m _ _ (World.runners_settle _ _)

theorem atBuses_serve (b : Nat) (service : Option QuestService) :
    AtBuses m (m.serve b service) := by
  unfold serve
  split
  · exact .refl m
  · dsimp only
    split
    · exact atBuses_withWorld m (World.runners_unwatch _ _)
    · exact (atBuses_notify _ b).withWorld
        ((World.runners_watch _ _ _).trans (World.runners_unwatch _ _))

theorem atBuses_close (b : Nat) : AtBuses m (m.close b) := by
  unfold close
  split
  · exact .refl m
  · exact (atBuses_expireBus _ b).withWorld (World.runners_setBus _ _)

/-- A step of a script that does not leave the buses and quest logs alone. The script goes on, with
what it handed its properties on to. -/
theorem atBuses_perform {s : Script σ} (hs : ¬s.Aside) :
    ∃ next, (∀ p : Script σ → Prop, s.All p → next.All p) ∧
      AtBuses (m.push (.run next)) (m.perform s) := by
  cases s with
  | raise b key next => exact ⟨next, fun p h => h.2, atBuses_raise _ b key⟩
  | subscribe b key callback next =>
      simp only [perform, subscribe]
      split
      · exact ⟨_, fun p h => h.2.2 _, .refl _⟩
      · split
        · exact ⟨_, fun p h => h.2.2 _, atBuses_deliver (m.push _) _ _ (World.runners_setBus _ _)⟩
        · exact ⟨_, fun p h => h.2.2 _, atBuses_withWorld (m.push _) (World.runners_setBus _ _)⟩
  | unsubscribe b key id next =>
      simp only [perform]
      split
      · exact ⟨_, fun p h => h.2 _, .refl _⟩
      · exact ⟨_, fun p h => h.2 _, atBuses_withWorld (m.push _) (World.runners_setBus _ _)⟩
  | clear b next =>
      simp only [perform]
      split
      · exact ⟨_, fun p h => h.2, .refl _⟩
      · exact ⟨_, fun p h => h.2, atBuses_withWorld (m.push _) (World.runners_setBus _ _)⟩
  | await b quest callback next =>
      simp only [perform, await]
      split
      · exact ⟨_, fun p h => h.2.2 _, .refl _⟩
      · split
        · exact ⟨_, fun p h => h.2.2 _, atBuses_deliver (m.push _) _ _ rfl⟩
        · exact ⟨_, fun p h => h.2.2 _, atBuses_withWorld (m.push _) (World.runners_watch _ _ _)⟩
  | unawait b quest id next =>
      simp only [perform]
      split
      · exact ⟨_, fun p h => h.2 _, .refl _⟩
      · exact ⟨_, fun p h => h.2 _, atBuses_withWorld (m.push _) (World.runners_settle _ _)⟩
  | quest b quest step next =>
      simp only [perform]
      split
      · exact ⟨next, fun p h => h.2, .refl _⟩
      · exact ⟨next, fun p h => h.2, atBuses_advance _ _ _ quest step⟩
  | notify b next => exact ⟨next, fun p h => h.2, atBuses_notify _ b⟩
  | serve b service next => exact ⟨next, fun p h => h.2, atBuses_serve _ b service⟩
  | close b next => exact ⟨next, fun p h => h.2, atBuses_close _ b⟩
  | advance l quest step next => exact ⟨next, fun p h => h.2, atBuses_advance _ none l quest step⟩
  | listen l listener next =>
      simp only [perform]
      split
      · exact ⟨_, fun p h => h.2.2 _, .refl _⟩
      · exact ⟨_, fun p h => h.2.2 _, atBuses_withWorld (m.push _) (World.runners_setLog _ _)⟩
  | unlisten l id next =>
      simp only [perform]
      split
      · exact ⟨_, fun p h => h.2 _, .refl _⟩
      · exact ⟨_, fun p h => h.2 _, atBuses_withWorld (m.push _) (World.runners_setLog _ _)⟩
  | _ => exact absurd trivial hs

/-! ### What is done to a runner -/

structure Untouched (w w' : World (Script σ)) : Prop where
  buses : w'.buses = w.buses
  logs : w'.logs = w.logs

structure AtRunner (r : Nat) (m n : Machine σ) : Prop extends Untouched m.world n.world where
  others : ∀ r', r' ≠ r → n.world.runners[r']? = m.world.runners[r']?
  length : n.world.runners.length = m.world.runners.length
  stack : ∃ new, n.stack = new ++ m.stack ∧ ∀ f ∈ new, f.runner? = none ∨ f.runner? = some r

@[refl] theorem AtRunner.refl (m : Machine σ) : AtRunner r m m :=
  ⟨⟨rfl, rfl⟩, fun _ _ => rfl, rfl, [], rfl, fun _ hf => absurd hf List.not_mem_nil⟩

variable {m}

theorem AtRunner.trans (h : AtRunner r m n) (h' : AtRunner r n k) : AtRunner r m k := by
  obtain ⟨new, hnew, hown⟩ := h.stack
  obtain ⟨new', hnew', hown'⟩ := h'.stack
  refine ⟨⟨h'.buses.trans h.buses, h'.logs.trans h.logs⟩,
    fun r' hr' => (h'.others r' hr').trans (h.others r' hr'), h'.length.trans h.length,
    new' ++ new, ?_, fun f hf => ?_⟩
  · rw [hnew', hnew, List.append_assoc]
  · rcases List.mem_append.1 hf with hf | hf
    · exact hown' f hf
    · exact hown f hf

theorem AtRunner.push (h : AtRunner r m n) (hf : f.runner? = none ∨ f.runner? = some r) :
    AtRunner r m (n.push f) :=
  h.trans ⟨⟨rfl, rfl⟩, fun _ _ => rfl, rfl, [f], rfl, List.forall_mem_singleton.2 hf⟩

theorem AtRunner.withPanic (h : AtRunner r m n) (p : Option Panic) :
    AtRunner r m { n with panic := p } :=
  ⟨h.toUntouched, h.others, h.length, h.stack⟩

variable (m) (r)

theorem atRunner_setRunner (R : Runner (Script σ)) : AtRunner r m (m.setRunner r R) :=
  ⟨⟨rfl, rfl⟩, fun _ hr' => List.getElem?_set_ne hr'.symm, List.length_set, [], rfl,
    fun _ hf => absurd hf List.not_mem_nil⟩

theorem atRunner_leave (R : Runner (Script σ)) : AtRunner r m (m.leave r R) := by
  unfold leave
  dsimp only
  split
  · exact ((atRunner_setRunner m r _).push (.inr rfl)).push (.inl rfl)
  · exact atRunner_setRunner m r _

theorem atRunner_expireRunner : AtRunner r m (m.expireRunner r) := by
  unfold expireRunner
  split
  · exact .refl m
  · split
    · exact (AtRunner.push (.refl m) (.inl rfl)).trans (atRunner_leave _ r _)
    · exact .refl m

theorem atRunner_submit (task : Task) : AtRunner r m (m.submit r task) := by
  unfold submit
  split
  · exact .refl m
  · split
    · exact .refl m
    · dsimp only
      split
      · exact atRunner_setRunner m r _
      · exact (atRunner_setRunner m r _).push (.inr rfl)

theorem atRunner_release : AtRunner r m (m.release r) := by
  unfold release
  split
  · exact .refl m
  · exact (atRunner_setRunner m r _).trans (atRunner_expireRunner _ r)

theorem atRunner_dispatch (R : Runner (Script σ)) (entered : Nat) :
    AtRunner r m (m.dispatch r R entered) := by
  have hway : ∀ {f f' : Frame σ}, f.runner? = some r → f'.runner? = some r →
      AtRunner r m ((m.push f).push f') :=
    fun hf hf' => (AtRunner.push (.refl m) (.inr hf)).push (.inr hf')
  unfold dispatch
  split
  · exact (atRunner_setRunner m r _).trans (atRunner_expireRunner _ r)
  · split
    · exact (atRunner_setRunner m r _).trans (atRunner_expireRunner _ r)
    · split
      · exact (atRunner_setRunner m r _).push (.inr rfl)
      · exact (atRunner_setRunner m r _).push (.inr rfl)
      · exact (hway rfl rfl).trans (atRunner_leave _ r _)
      · exact (hway rfl rfl).trans (atRunner_leave _ r _)

theorem atRunner_enter (kinds : Registry (Behaviour σ)) (R : Runner (Script σ)) (node : Node) :
    AtRunner r m (m.enter kinds r R node) := by
  unfold enter
  dsimp only
  split
  · exact atRunner_setRunner m r _
  · exact (atRunner_setRunner m r _).withPanic _
  · exact ((atRunner_setRunner m r _).push (.inr rfl)).push (.inl rfl)

variable {r}

/-- A step of a script that is about a runner. The script goes on, with what it handed its
properties on to. -/
theorem atRunner_perform {s : Script σ} (hs : s.runner? = some r) :
    ∃ next, (∀ p : Script σ → Prop, s.All p → next.All p) ∧
      AtRunner r (m.push (.run next)) (m.perform s) := by
  cases s with
  | start r' next =>
      obtain rfl := Option.some.inj hs
      simp only [perform]
      split
      · exact ⟨_, fun p h => h.2 _, .refl _⟩
      · split
        · exact ⟨_, fun p h => h.2 _, .refl _⟩
        · exact ⟨_, fun p h => h.2 _, atRunner_submit _ r' _⟩
  | ask r' request next =>
      obtain rfl := Option.some.inj hs
      exact ⟨next, fun p h => h.2, atRunner_submit _ r' _⟩
  | done r' visit next =>
      obtain rfl := Option.some.inj hs
      simp only [perform, done]
      split
      · exact ⟨_, fun p h => h.2 _, .refl _⟩
      · split
        · exact ⟨_, fun p h => h.2 _,
            (atRunner_setRunner (m.push _) r' _).trans (atRunner_submit _ r' _)⟩
        · exact ⟨_, fun p h => h.2 _, .refl _⟩
  | onLeave r' visit leave next =>
      obtain rfl := Option.some.inj hs
      simp only [perform]
      split
      · exact ⟨next, fun p h => h.2.2, .refl _⟩
      · exact ⟨next, fun p h => h.2.2, atRunner_setRunner (m.push _) r' _⟩
  | set r' key value next =>
      obtain rfl := Option.some.inj hs
      simp only [perform]
      split
      · exact ⟨next, fun p h => h.2, .refl _⟩
      · exact ⟨next, fun p h => h.2, atRunner_setRunner (m.push _) r' _⟩
  | release r' next =>
      obtain rfl := Option.some.inj hs
      exact ⟨next, fun p h => h.2, atRunner_release _ r'⟩
  | _ => cases hs

theorem atRunner_resume (kinds : Registry (Behaviour σ)) (hf : f.runner? = some r) :
    AtRunner r m (m.resume kinds f) := by
  cases f with
  | run | deliver => cases hf
  | entering | exiting => exact .refl m
  | dispatch r' entered =>
      obtain rfl := Option.some.inj hf
      simp only [resume]
      split
      · exact .refl m
      · exact atRunner_dispatch m r' _ entered
  | leaving r' target =>
      obtain rfl := Option.some.inj hf
      simp only [resume]
      split
      · exact .refl m
      · exact atRunner_setRunner m r' _
      · exact atRunner_enter m r' kinds _ _

theorem atRunner_unwind (hf : f.runner? = some r) :
    ∃ n, AtRunner r m n ∧ (m.unwind f = n ∨ ∃ b, m.unwind f = n.expireBus b) := by
  cases f with
  | run | deliver => cases hf
  | exiting r' visit => exact ⟨_, AtRunner.withPanic (.refl m) none, .inl rfl⟩
  | leaving r' target => exact ⟨m, .refl m, .inl rfl⟩
  | entering r' visit =>
      obtain rfl := Option.some.inj hf
      simp only [unwind]
      split
      · exact ⟨_, AtRunner.withPanic (.refl m) none, .inl rfl⟩
      · exact ⟨_, (atRunner_setRunner m r' _).withPanic none, .inl rfl⟩
  | dispatch r' entered =>
      obtain rfl := Option.some.inj hf
      simp only [unwind]
      split
      · exact ⟨m, .refl m, .inl rfl⟩
      · split
        · exact ⟨_, atRunner_setRunner m r' _, .inr ⟨_, rfl⟩⟩
        · exact ⟨_, atRunner_setRunner m r' _, .inl rfl⟩

end Machine

end StoryGraph
