import StoryGraph.Kind.Builtin
import StoryGraph.Proofs.Flow.Delivery

/-!
# What a limit on entered nodes promises

A runner with a limit is through with its queue after finitely many steps, whatever its nodes do
while they are entered and left and whatever tasks they give it, as long as each call to a node
returns. It has then entered as many nodes as the limit says at most
(`Machine.dispatch_within_limit`).

Entered nodes alone count, and what a task leads to may bring new tasks. So three things are needed
to see that it comes to an end (`Runner.toGo`): a node that is entered uses up some of the limit;
a node that is left for good is called once more, and there is none to be left after it; and a task
that does neither makes the queue shorter, because nobody is called.

The limit is counted anew each time the runner begins to work off its queue. The queue is empty at
the end unless a panic has come from a behaviour that could not be built: it passes the runner, and
the tasks that waited go on to wait.
-/

namespace StoryGraph

variable {σ : Type}

namespace Runner

variable {κ : Type _} {R R' R'' : Runner κ} {L begun entered : Nat}

structure Holds (R R' : Runner κ) : Prop where
  bus : R'.bus = R.bus
  limit : R'.limit = R.limit
  visits : R'.visits = R.visits
  halted : R'.halted = R.halted
  dispatching : R'.dispatching = R.dispatching
  alive : R'.isAlive = R.isAlive
  current : R'.current.isSome = R.current.isSome
  queue : ∃ given, R'.queue = R.queue ++ given ∧ (R.isAlive = false → given = [])

theorem Holds.refl (R : Runner κ) : R.Holds R :=
  ⟨rfl, rfl, rfl, rfl, rfl, rfl, rfl, [], (List.append_nil _).symm, fun _ => rfl⟩

theorem Holds.trans (h : R.Holds R') (h' : R'.Holds R'') : R.Holds R'' := by
  obtain ⟨given, hgiven, hnone⟩ := h.queue
  obtain ⟨given', hgiven', hnone'⟩ := h'.queue
  refine ⟨h'.bus.trans h.bus, h'.limit.trans h.limit, h'.visits.trans h.visits,
    h'.halted.trans h.halted, h'.dispatching.trans h.dispatching, h'.alive.trans h.alive,
    h'.current.trans h.current, given ++ given', ?_, fun hdead => ?_⟩
  · rw [hgiven', hgiven, List.append_assoc]
  · rw [hnone hdead, hnone' (h.alive.trans hdead), List.append_nil]

theorem holds_of_stance (h : R'.stance = R.stance) : R.Holds R' where
  bus := congrArg (fun R : Runner Unit => R.bus) h
  limit := congrArg (fun R : Runner Unit => R.limit) h
  visits := congrArg (fun R : Runner Unit => R.visits) h
  halted := congrArg (fun R : Runner Unit => R.halted) h
  dispatching := congrArg (fun R : Runner Unit => R.dispatching) h
  alive := congrArg (fun R : Runner Unit => R.isAlive) h
  current := by
    have hcurrent := congrArg (fun R : Runner Unit => R.current.isSome) h
    simpa [stance, map] using hcurrent
  queue :=
    have hqueue : R'.queue = R.queue := congrArg (fun R : Runner Unit => R.queue) h
    ⟨[], hqueue.trans (List.append_nil _).symm, fun _ => rfl⟩

def Engaged (R : Runner κ) : Prop := R.dispatching = true ∨ R.isAlive = false

theorem Holds.engaged (h : R.Holds R') (hR : R.Engaged) : R'.Engaged := by
  rwa [Engaged, h.dispatching, h.alive]

theorem holds_given (hR : R.dispatching = true) (halive : R.isAlive = true) (task : Task) :
    R.Holds (R.given task) :=
  ⟨rfl, rfl, rfl, rfl, hR.symm, rfl, rfl, [task], rfl, fun h => by simp [halive] at h⟩

theorem holds_release (R : Runner κ) : R.Holds { R with lifetime := R.lifetime.release } := by
  refine ⟨rfl, rfl, rfl, rfl, rfl, ?_, rfl, [], (List.append_nil _).symm, fun _ => rfl⟩
  simp only [isAlive]
  cases R.lifetime <;> rfl

structure Spends (L begun entered : Nat) (R : Runner κ) : Prop where
  dispatching : R.dispatching = true
  alive : R.isAlive = true
  limit : R.limit = some L
  within : entered ≤ L
  visits : R.visits = begun + entered

theorem Spends.lifetime (h : R.Spends L begun entered) :
    R.lifetime = .kept ∨ R.lifetime = .released := by
  have halive := h.alive
  cases hlifetime : R.lifetime <;> simp_all [isAlive]

theorem Holds.spends (h : R.Holds R') (hR : R.Spends L begun entered) :
    R'.Spends L begun entered :=
  ⟨h.dispatching.trans hR.dispatching, h.alive.trans hR.alive, h.limit.trans hR.limit, hR.within,
    h.visits.trans hR.visits⟩

/-- What is left to be done by a runner that has entered a number of nodes: nodes to enter, a node
to leave, and tasks to take. -/
def toGo (L entered : Nat) (R : Runner κ) : Nat ×ₗ Nat ×ₗ Nat :=
  toLex (L - entered, toLex (R.current.isSome.toNat, R.queue.length))

theorem toGo_lt_of_entered (h : entered < L) : R'.toGo L (entered + 1) < R.toGo L entered :=
  Prod.Lex.toLex_lt_toLex.2 (.inl (by omega))

theorem toGo_lt_of_current (h : R.current.isSome = true) (h' : R'.current.isSome = false) :
    R'.toGo L entered < R.toGo L entered := by
  refine Prod.Lex.toLex_lt_toLex.2 (.inr ⟨rfl, Prod.Lex.toLex_lt_toLex.2 (.inl ?_)⟩)
  simp [h, h']

theorem toGo_lt_of_queue (h : R'.current.isSome = R.current.isSome)
    (hqueue : R'.queue.length < R.queue.length) : R'.toGo L entered < R.toGo L entered :=
  Prod.Lex.toLex_lt_toLex.2 (.inr ⟨rfl, Prod.Lex.toLex_lt_toLex.2 (.inr ⟨by rw [h], hqueue⟩)⟩)

end Runner

namespace Machine

variable {kinds : Registry (Behaviour σ)} {r L begun entered : Nat} {m n k : Machine σ}
  {R R₁ R' : Runner (Script σ)} {f : Frame σ} {base below : List (Frame σ)}

/-! ### Above a stack -/

/-- Any number of steps that are taken while there is something on top of a stack. -/
abbrev Above (kinds : Registry (Behaviour σ)) (base : List (Frame σ)) :
    Machine σ → Machine σ → Prop :=
  Relation.ReflTransGen fun m n => base.length < m.stack.length ∧ Next kinds m n

theorem above_of_next (below : List (Frame σ)) (hm : m.stack = f :: (below ++ base))
    (hn : Next kinds m n) : Above kinds base m n := by
  refine .single ⟨?_, hn⟩
  rw [hm, List.length_cons, List.length_append]
  omega

theorem Above.leads (h : Above kinds base m n) : Leads kinds m n := by
  induction h with
  | refl => exact .refl
  | tail _ next ih => exact ih.tail next.2

/-- Whenever something goes on, there is something on the stack. -/
theorem above_nil_of_leads (h : Leads kinds m n) : Above kinds [] m n := by
  induction h with
  | refl => exact .refl
  | @tail j k _ next ih =>
      exact ih.tail ⟨List.length_pos_iff.2 next.stack_ne_nil, next⟩

theorem Above.mono (below : List (Frame σ)) (h : Above kinds (below ++ base) m n) :
    Above kinds base m n := by
  induction h with
  | refl => exact .refl
  | tail _ next ih =>
      have hlt := next.1
      rw [List.length_append] at hlt
      exact ih.tail ⟨by omega, next.2⟩

/-- Whatever is asked of a runner that is at work or over, it stays where it is and begins
nothing. -/
theorem Affects.holds (h : Affects r m k) (hR : R ∈ m.world.runners[r]?) (hbusy : R.Engaged) :
    (∃ R' ∈ k.world.runners[r]?, R.Holds R') ∧ ∃ new, k.stack = new ++ m.stack ∧ Free r new := by
  cases h with
  | spares h =>
      obtain ⟨R₁, hR₁, hs⟩ := h.stance R hR
      exact ⟨⟨R₁, hR₁, Runner.holds_of_stance hs⟩, h.stack⟩
  | @submits n task h hp hk =>
      obtain ⟨R₁, hR₁, hs⟩ := h.stance R hR
      have hsame := Runner.holds_of_stance hs
      rw [hk]
      unfold submit
      rw [Option.mem_def.1 hR₁]
      dsimp only
      split
      · exact ⟨⟨R₁, hR₁, hsame⟩, h.stack⟩
      · rename_i halive
        have halive : R₁.isAlive = true := by simpa using halive
        have hd : R₁.dispatching = true := by
          rcases hsame.engaged hbusy with hd | hdead
          · exact hd
          · simp [halive] at hdead
        rw [if_pos hd]
        exact ⟨⟨_, runners_setRunner hR₁ _, hsame.trans (Runner.holds_given hd halive task)⟩,
          h.stack⟩
  | @releases n h hk =>
      obtain ⟨R₁, hR₁, hs⟩ := h.stance R hR
      have hsame := Runner.holds_of_stance hs
      have hset := runners_setRunner hR₁ { R₁ with lifetime := R₁.lifetime.release }
      have hlasts : R₁.lifetime.release ≠ .released ∨ R₁.dispatching = true := by
        rcases hsame.engaged hbusy with hd | hdead
        · exact .inr hd
        · have hover : R₁.lifetime = .over := by simpa [Runner.isAlive] using hdead
          exact .inl (by simp [hover, Lifetime.release])
      rw [hk, release, Option.mem_def.1 hR₁]
      dsimp only
      rw [expireRunner_eq_self hset hlasts]
      exact ⟨⟨_, hset, hsame.trans R₁.holds_release⟩, h.stack⟩

/-- A step that is not the doing of a runner that is at work or over. -/
theorem holds_of_next (hm : m.stack = f :: below) (hf : f.runner? ≠ some r)
    (hR : R ∈ m.world.runners[r]?) (hbusy : R.Engaged) (hn : Next kinds m n) :
    (∃ R' ∈ n.world.runners[r]?, R.Holds R') ∧ ∃ new, n.stack = new ++ below ∧ Free r new := by
  by_cases hp : m.panic = none
  · rw [eq_resume_of_next hm hp hn]
    exact (affects_resume (m := { m with stack := below }) kinds hp hf).holds hR hbusy
  · rw [eq_unwind_of_next hm hp hn]
    exact (Affects.spares (spares_unwind { m with stack := below } hf)).holds hR hbusy

/-- While others are at work above a stack, a runner that is at work or over stays where it is. -/
theorem Above.holds (h : Above kinds base m n) (new : List (Frame σ))
    (hm : m.stack = new ++ base) (hnew : Free r new) (hR : R ∈ m.world.runners[r]?)
    (hbusy : R.Engaged) :
    (∃ R' ∈ n.world.runners[r]?, R.Holds R') ∧ ∃ new, n.stack = new ++ base ∧ Free r new := by
  induction h with
  | refl => exact ⟨⟨R, hR, .refl R⟩, new, hm, hnew⟩
  | @tail j k _ next ih =>
      obtain ⟨⟨R₁, hR₁, hholds⟩, above, hj, hfree⟩ := ih
      cases above with
      | nil =>
          have hlt := next.1
          rw [hj, List.nil_append] at hlt
          exact absurd hlt (lt_irrefl _)
      | cons f above =>
          obtain ⟨⟨R₂, hR₂, hholds'⟩, new', hk, hfree'⟩ := holds_of_next hj
            (hfree f List.mem_cons_self) hR₁ (hholds.engaged hbusy) next.2
          exact ⟨⟨R₂, hR₂, hholds.trans hholds'⟩, new' ++ above,
            hk.trans (List.append_assoc ..).symm,
            hfree'.append fun f' hf' => hfree f' (List.mem_cons_of_mem f hf')⟩

/-! ### Calls to nodes -/

/-- Every call to a node of a runner that is made above a stack from a moment on returns, or breaks
off with a panic. -/
def CallsReturn (kinds : Registry (Behaviour σ)) (r : Nat) (base : List (Frame σ))
    (m : Machine σ) : Prop :=
  ∀ k s f below, Above kinds base m k → k.stack = .run s :: f :: (below ++ base) →
    f.callback? r ≠ none → k.panic = none →
    ∃ n, Above kinds (f :: (below ++ base)) k n ∧
      n.stack.length ≤ (f :: (below ++ base)).length

theorem CallsReturn.of_above (h : m.CallsReturn kinds r base) (hn : Above kinds base m n) :
    n.CallsReturn kinds r base :=
  fun k s f below hk => h k s f below (hn.trans hk)

/-- A node is called, and the call comes back to the frame it was made from. -/
theorem CallsReturn.exists_back (h : m.CallsReturn kinds r base) {s : Script σ}
    (hm : m.stack = .run s :: f :: (below ++ base)) (hf : f.callback? r ≠ none)
    (hp : m.panic = none) (hR : R ∈ m.world.runners[r]?) (hbusy : R.Engaged) :
    ∃ n, Above kinds base m n ∧ n.stack = f :: (below ++ base) ∧
      ∃ R' ∈ n.world.runners[r]?, R.Holds R' := by
  obtain ⟨n, hn, hlength⟩ := h m s f below .refl hm hf hp
  obtain ⟨hheld, new, hstack, -⟩ := hn.holds [.run s] hm (free_run s) hR hbusy
  have hnil : new = [] := by
    rw [hstack, List.length_append] at hlength
    exact List.length_eq_zero_iff.1 (by omega)
  subst hnil
  exact ⟨n, Above.mono (f :: below) hn, hstack, hheld⟩

/-- A node is called because it is left. It has been left when the call is over, whether or not it
breaks off. -/
theorem CallsReturn.exists_exited (h : m.CallsReturn kinds r base) (below : List (Frame σ))
    {s : Script σ} {visit : Nat} (hm : m.stack = .run s :: .exiting r visit :: (below ++ base))
    (hp : m.panic = none) (hR : R ∈ m.world.runners[r]?) (hbusy : R.Engaged) :
    ∃ n, Above kinds base m n ∧ n.stack = below ++ base ∧ n.panic = none ∧
      ∃ R' ∈ n.world.runners[r]?, R.Holds R' := by
  obtain ⟨n, hn, hstack, hheld⟩ := h.exists_back hm (by simp [Frame.callback?]) hp hR hbusy
  by_cases hpn : n.panic = none
  · exact ⟨_, hn.trans (above_of_next below hstack (next_resume hstack hpn)), rfl, hpn, hheld⟩
  · exact ⟨_, hn.trans (above_of_next below hstack (next_unwind hstack hpn)), rfl, rfl, hheld⟩

/-- A node is called because it is entered. If the call breaks off, the flow is halted and the tasks
that wait are given up. -/
theorem CallsReturn.exists_entered (h : m.CallsReturn kinds r base) (below : List (Frame σ))
    {s : Script σ} {visit : Nat} (hm : m.stack = .run s :: .entering r visit :: (below ++ base))
    (hp : m.panic = none) (hR : R ∈ m.world.runners[r]?) (hbusy : R.Engaged) :
    ∃ n, Above kinds base m n ∧ n.stack = below ++ base ∧ n.panic = none ∧
      ∃ R₁ R', R.Holds R₁ ∧ R' ∈ n.world.runners[r]? ∧
        (R' = R₁ ∨ R' = { R₁ with queue := [], halted := true }) := by
  obtain ⟨n, hn, hstack, R₁, hR₁, hholds⟩ :=
    h.exists_back hm (by simp [Frame.callback?]) hp hR hbusy
  by_cases hpn : n.panic = none
  · exact ⟨_, hn.trans (above_of_next below hstack (next_resume hstack hpn)), rfl, hpn, R₁, R₁,
      hholds, hR₁, .inl rfl⟩
  · refine ⟨_, hn.trans (above_of_next below hstack (next_unwind hstack hpn)), ?_, ?_, R₁, _,
      hholds, ?_, .inr rfl⟩
    · simp [unwind, Option.mem_def.1 hR₁, setRunner]
    · simp [unwind, Option.mem_def.1 hR₁]
    · simp only [unwind, Option.mem_def.1 hR₁]
      exact runners_setRunner (m := { n with stack := below ++ base }) hR₁ _

/-- The current node of a runner is left. -/
theorem CallsReturn.exists_left (h : (m.leave r R₁).CallsReturn kinds r base)
    (below : List (Frame σ)) (hm : m.stack = below ++ base) (hp : m.panic = none)
    (hR : R ∈ m.world.runners[r]?) (hbusy : R₁.Engaged) :
    ∃ n, Above kinds base (m.leave r R₁) n ∧ n.stack = below ++ base ∧ n.panic = none ∧
      ∃ R' ∈ n.world.runners[r]?, ({ R₁ with current := none } : Runner _).Holds R' ∧
        (R₁.current = none → R' = { R₁ with current := none }) := by
  have hset := runners_setRunner hR { R₁ with current := none }
  unfold leave at h ⊢
  dsimp only at h ⊢
  split at h
  · rename_i id visit s hcurrent
    obtain ⟨n, hn, hstack, hpn, R', hR', hholds⟩ := h.exists_exited below
      (congrArg (_ :: _ :: ·) hm) hp hset hbusy
    exact ⟨n, hn, hstack, hpn, R', hR', hholds, fun hnone => by simp [hcurrent] at hnone⟩
  · exact ⟨_, .refl, hm, hp, _, hset, .refl _, fun _ => rfl⟩

/-- If the stack has been worked off in the end, every moment before is on the way there. -/
theorem Above.above_of_back (h : Above kinds base m k) (hn : Above kinds base m n)
    (hback : n.stack.length ≤ base.length) : Above kinds base k n := by
  induction h with
  | refl => exact hn
  | tail _ next ih =>
      rcases Relation.ReflTransGen.cases_head ih with rfl | ⟨j, hj, hl⟩
      · exact absurd next.1 (not_lt.2 hback)
      · exact hj.2.unique next.2 ▸ hl

/-- A stack that has been worked off has been as high as what was on it in between. -/
theorem Above.exists_back (h : Above kinds base m n) (hback : n.stack.length ≤ base.length)
    (below : List (Frame σ)) : ∃ j, Above kinds (below ++ base) m j ∧
      j.stack.length ≤ (below ++ base).length := by
  induction h using Relation.ReflTransGen.head_induction_on with
  | refl => exact ⟨n, .refl, hback.trans (by simp)⟩
  | @head m k next _ ih =>
      obtain ⟨j, hj, hle⟩ := ih
      by_cases habove : (below ++ base).length < m.stack.length
      · exact ⟨j, .head ⟨habove, next.2⟩ hj, hle⟩
      · exact ⟨m, .refl, not_lt.1 habove⟩

/-- Calls to nodes return where all that is on top of a stack comes to its end. -/
theorem callsReturn_of_back (h : Above kinds base m n) (hback : n.stack.length ≤ base.length) :
    m.CallsReturn kinds r base := fun _ _ f below hk _ _ _ =>
  (hk.above_of_back h hback).exists_back hback (f :: below)

/-! ### Tasks -/

section Steps

variable (kinds) (hp : m.panic = none) (hR : R ∈ m.world.runners[r]?)

include hp hR

theorem next_dispatch (hm : m.stack = .dispatch r entered :: below) :
    Next kinds m (({ m with stack := below } : Machine σ).dispatch r R entered) := by
  have hresume : Next kinds m _ := next_resume hm hp
  simpa only [resume, Option.mem_def.1 hR] using hresume

theorem next_relax (hm : m.stack = .leaving r none :: below) :
    Next kinds m (({ m with stack := below } : Machine σ).setRunner r
      { R with halted := false }) := by
  have hresume : Next kinds m _ := next_resume hm hp
  simpa only [resume, Option.mem_def.1 hR] using hresume

theorem next_enter {node : Node} (hm : m.stack = .leaving r (some node) :: below) :
    Next kinds m (({ m with stack := below } : Machine σ).enter kinds r R node) := by
  have hresume : Next kinds m _ := next_resume hm hp
  simpa only [resume, Option.mem_def.1 hR] using hresume

end Steps

structure Drains (r L begun entered : Nat) (base : List (Frame σ)) (R : Runner (Script σ))
    (m : Machine σ) : Prop where
  runner : R ∈ m.world.runners[r]?
  stack : m.stack = .dispatch r entered :: base
  spends : R.Spends L begun entered

/-- The panic on its way has come from a behaviour that could not be built. -/
def Breaks (kinds : Registry (Behaviour σ)) (m : Machine σ) : Prop :=
  ∃ node p, kinds.build node = .panicked p ∧ m.panic = some p

variable {node : Node} {task : Task} {queue : List Task}

/-- A node is entered, and called unless its behaviour is refused or cannot be built. -/
theorem CallsReturn.exists_begun (h : m.CallsReturn kinds r base)
    (hm : m.stack = .leaving r (some node) :: .dispatch r entered :: base) (hp : m.panic = none)
    (hR : R ∈ m.world.runners[r]?)
    (hs : ({ R with visits := R.visits + 1 } : Runner _).Spends L begun entered) :
    ∃ n R', Above kinds base m n ∧ Drains r L begun entered base R' n ∧
      (n.panic = none ∨ Breaks kinds n) := by
  let j : Machine σ := { m with stack := .dispatch r entered :: base }
  have hfirst := above_of_next [.dispatch r entered] hm (next_enter kinds hp hR hm)
  -- Whatever else is new about the runner, it has entered one node more.
  have hbegun : ∀ {R' : Runner (Script σ)}, R'.dispatching = R.dispatching →
      R'.lifetime = R.lifetime → R'.limit = R.limit → R'.visits = R.visits + 1 →
      R'.Spends L begun entered := fun hd hl hlimit hv =>
    ⟨hd.trans hs.dispatching, by rw [Runner.isAlive, hl]; exact hs.alive, hlimit.trans hs.limit,
      hs.within, hv.trans hs.visits⟩
  replace h := h.of_above hfirst
  unfold enter at h hfirst
  dsimp only at h hfirst
  split at hfirst
  · exact ⟨_, _, hfirst, ⟨runners_setRunner (m := j) hR _, rfl, hbegun rfl rfl rfl rfl⟩, .inl hp⟩
  · rename_i p hbuild
    exact ⟨_, _, hfirst, ⟨runners_setRunner (m := j) hR _, rfl, hbegun rfl rfl rfl rfl⟩,
      .inr ⟨node, p, hbuild, rfl⟩⟩
  · rename_i behaviour hbuild
    rw [hbuild] at h
    obtain ⟨n, hn, hstack, hpn, R₁, R', hholds, hR', hcases⟩ := h.exists_entered
      [.dispatch r entered] rfl hp (runners_setRunner (m := j) hR _) (.inl hs.dispatching)
    refine ⟨n, R', hfirst.trans hn, ⟨hR', hstack, ?_⟩, .inl hpn⟩
    have hs₁ := hholds.spends (hbegun rfl rfl rfl rfl)
    rcases hcases with rfl | rfl
    · exact hs₁
    · exact ⟨hs₁.dispatching, hs₁.alive, hs₁.limit, hs₁.within, hs₁.visits⟩

namespace Drains

/-- A runner leaves its node because of its first task. -/
theorem exists_departed (h : Drains r L begun entered base R m) (hp : m.panic = none)
    (hcalls : m.CallsReturn kinds r base) {e : Nat} {target : Option Node}
    (hnext : Next kinds m (((({ m with stack := base } : Machine σ).push (.dispatch r e)).push
      (.leaving r target)).leave r { R with queue })) :
    ∃ n R', Above kinds base m n ∧ n.stack = .leaving r target :: .dispatch r e :: base ∧
      n.panic = none ∧ R' ∈ n.world.runners[r]? ∧
      ({ R with queue, current := none } : Runner _).Holds R' ∧
      (R.current = none → R' = { R with queue, current := none }) := by
  have hfirst := above_of_next [] h.stack hnext
  obtain ⟨n, hn, hstack, hpn, R', hR', hholds, hidle⟩ := (hcalls.of_above hfirst).exists_left
    [.leaving r target, .dispatch r e] rfl hp h.runner (.inl h.spends.dispatching)
  exact ⟨n, R', hfirst.trans hn, hstack, hpn, hR', hholds, hidle⟩

/-- A runner that may enter another node takes its first task, and less is left to be done. -/
theorem exists_next (h : Drains r L begun entered base R m) (hp : m.panic = none)
    (hcalls : m.CallsReturn kinds r base) (hqueue : R.queue = task :: queue)
    (hroom : entered < L) :
    ∃ n entered' R', Above kinds base m n ∧ Drains r L begun entered' base R' n ∧
      (n.panic = none ∧ R'.toGo L entered' < R.toGo L entered ∨ Breaks kinds n) := by
  obtain ⟨hd, halive, hlimit, hwithin, hvisits⟩ := h.spends
  let j : Machine σ := { m with stack := base }
  have hnext := next_dispatch kinds hp h.runner h.stack
  have hany : R.limit.any (· ≤ entered) = false := by simp [hlimit, hroom]
  have hshorter : queue.length < R.queue.length := by simp [hqueue]
  unfold dispatch at hnext
  simp only [hqueue, hany, Bool.false_eq_true, if_false] at hnext
  cases hmove : R.move task with
  | stay =>
      rw [hmove] at hnext
      exact ⟨_, entered, _, above_of_next [] h.stack hnext,
        ⟨runners_setRunner (m := j) h.runner { R with queue }, rfl,
          hd, halive, hlimit, hwithin, hvisits⟩,
        .inl ⟨hp, Runner.toGo_lt_of_queue rfl hshorter⟩⟩
  | halt =>
      rw [hmove] at hnext
      exact ⟨_, entered, _, above_of_next [] h.stack hnext,
        ⟨runners_setRunner (m := j) h.runner { R with queue, halted := true }, rfl,
          hd, halive, hlimit, hwithin, hvisits⟩,
        .inl ⟨hp, Runner.toGo_lt_of_queue rfl hshorter⟩⟩
  | rest =>
      rw [hmove] at hnext
      obtain ⟨n, R', hn, hstack, hpn, hR', hholds, hidle⟩ := h.exists_departed hp hcalls hnext
      have hrest := next_relax kinds hpn hR' hstack
      obtain ⟨hd', halive', hlimit', hwithin', hvisits'⟩ :=
        hholds.spends ⟨hd, halive, hlimit, hwithin, hvisits⟩
      refine ⟨_, entered, _, hn.trans (above_of_next [_] hstack hrest),
        ⟨runners_setRunner (m := { n with stack := .dispatch r entered :: base }) hR' _, rfl,
          hd', halive', hlimit', hwithin', hvisits'⟩, .inl ⟨hpn, ?_⟩⟩
      cases hcurrent : R.current with
      | none =>
          obtain rfl := hidle hcurrent
          exact Runner.toGo_lt_of_queue (by simp [hcurrent]) hshorter
      | some c => exact Runner.toGo_lt_of_current (by simp [hcurrent]) hholds.current
  | enter node =>
      rw [hmove] at hnext
      obtain ⟨n, R', hn, hstack, hpn, hR', hholds, -⟩ := h.exists_departed hp hcalls hnext
      obtain ⟨hd', halive', hlimit', -, hvisits'⟩ :=
        hholds.spends ⟨hd, halive, hlimit, hwithin, hvisits⟩
      obtain ⟨k, R'', hk, hdrains, hcases⟩ := (hcalls.of_above hn).exists_begun hstack hpn hR'
        ⟨hd', halive', hlimit', hroom, by rw [← Nat.add_assoc, ← hvisits']⟩
      exact ⟨k, entered + 1, R'', hn.trans hk, hdrains,
        hcases.imp_left fun hpk => ⟨hpk, Runner.toGo_lt_of_entered hroom⟩⟩

/-- A runner comes to the last moment at which it is about to take a task. -/
theorem exists_last (h : Drains r L begun entered base R m) (hp : m.panic = none)
    (hcalls : m.CallsReturn kinds r base) :
    ∃ n entered' R', Above kinds base m n ∧ Drains r L begun entered' base R' n ∧
      (n.panic = none ∧ (R'.queue = [] ∨ entered' = L) ∨ Breaks kinds n) := by
  induction hleft : R.toGo L entered using WellFoundedLT.induction generalizing m entered R with
  | ind left ih =>
      cases hqueue : R.queue with
      | nil => exact ⟨m, entered, R, .refl, h, .inl ⟨hp, .inl hqueue⟩⟩
      | cons task queue =>
          rcases h.spends.within.eq_or_lt with hspent | hroom
          · exact ⟨m, entered, R, .refl, h, .inl ⟨hp, .inr hspent⟩⟩
          · obtain ⟨n, entered', R', hn, hdrains, ⟨hpn, hless⟩ | hbreaks⟩ :=
              h.exists_next hp hcalls hqueue hroom
            · obtain ⟨k, entered'', R'', hk, hlast⟩ :=
                ih _ (hleft ▸ hless) hdrains hpn (hcalls.of_above hn) rfl
              exact ⟨k, entered'', R'', hn.trans hk, hlast⟩
            · exact ⟨n, entered', R', hn, hdrains, .inr hbreaks⟩

end Drains

/-! ### The end of a dispatch -/

/-- How a runner that has entered a number of nodes comes to the end of its work, and the panic that
is on its way then. -/
inductive Finishes (kinds : Registry (Behaviour σ)) (L entered : Nat) (R R' : Runner (Script σ)) :
    Option Panic → Prop where
  /-- All tasks have been worked off. -/
  | through (queue : R.queue = []) (left : R'.queue = []) (halted : R'.halted = R.halted) :
    Finishes kinds L entered R R' none
  /-- As many nodes have been entered as the limit says, and the tasks that wait are given up. -/
  | cutOff (queue : R.queue ≠ []) (spent : entered = L) (left : R'.queue = [])
    (halted : R'.halted = true) : Finishes kinds L entered R R' none
  /-- The behaviour of the node that was entered last could not be built. -/
  | brokenOff {node : Node} {p : Panic} (build : kinds.build node = .panicked p)
    (left : R'.queue = R.queue) (halted : R'.halted = R.halted) :
    Finishes kinds L entered R R' (some p)

/-- A runner is about to take a task for the last time, on top of a stack, and comes to the end of
its work. If nobody keeps it, it ends. -/
structure Concludes (kinds : Registry (Behaviour σ)) (r L entered : Nat) (base : List (Frame σ))
    (R R' : Runner (Script σ)) (k n : Machine σ) : Prop where
  stack : k.stack = .dispatch r entered :: base
  runner : R ∈ k.world.runners[r]?
  above : Above kinds base k n
  back : n.stack = base
  mem : R' ∈ n.world.runners[r]?
  dispatching : R'.dispatching = false
  limit : R'.limit = R.limit
  visits : R'.visits = R.visits
  kept : R.lifetime = .kept → R'.current = R.current ∧ R'.lifetime = .kept
  gone : R.lifetime ≠ .kept → R'.current = none ∧ R'.isAlive = false
  finishes : Finishes kinds L entered R R' n.panic

/-- A runner lays down its work, with no task left. -/
theorem Drains.exists_concluded (h : Drains r L begun entered base R m) (hp : m.panic = none)
    (hcalls : m.CallsReturn kinds r base) {halted : Bool}
    (hnext : Next kinds m ((({ m with stack := base } : Machine σ).setRunner r
      { R with queue := [], halted, dispatching := false }).expireRunner r))
    (hfinishes : ∀ R', R'.queue = [] → R'.halted = halted → Finishes kinds L entered R R' none) :
    ∃ n R', Concludes kinds r L entered base R R' m n := by
  let R₁ : Runner (Script σ) := { R with queue := [], halted, dispatching := false }
  have hset := runners_setRunner (m := { m with stack := base }) h.runner R₁
  have hfirst := above_of_next [] h.stack hnext
  rcases h.spends.lifetime with hkept | hreleased
  · rw [expireRunner_eq_self hset (.inl (by simp [R₁, hkept]))] at hfirst
    refine ⟨_, R₁, h.stack, h.runner, hfirst, rfl, hset, rfl, rfl, rfl,
      fun _ => ⟨rfl, hkept⟩, fun hgone => absurd hkept hgone, ?_⟩
    exact hp ▸ hfinishes R₁ rfl rfl
  · have hends : (({ m with stack := base } : Machine σ).setRunner r R₁).expireRunner r =
        ((({ m with stack := base } : Machine σ).setRunner r R₁).push
          (.deliver (some R.bus) [])).leave r { R₁ with lifetime := .over } := by
      unfold expireRunner
      rw [Option.mem_def.1 hset]
      simp [R₁, hreleased]
    rw [hends] at hfirst
    -- The node is left for the last time, and the runner takes nothing from it.
    obtain ⟨n, hn, hstack, hpn, R', hR', hholds, -⟩ := (hcalls.of_above hfirst).exists_left
      [.deliver (some R.bus) []] rfl hp hset (.inr (by simp [Runner.isAlive]))
    have hlast : Next kinds n (({ n with stack := base } : Machine σ).expireBus R.bus) :=
      next_resume hstack hpn
    obtain ⟨given, hgiven, hnone⟩ := hholds.queue
    obtain rfl := hnone (by simp [Runner.isAlive])
    have hdead : R'.isAlive = false := hholds.alive.trans (by simp [Runner.isAlive])
    have hnobody : R'.current = none := by simpa using hholds.current
    refine ⟨_, R', h.stack, h.runner, (hfirst.trans hn).trans (above_of_next []
      hstack hlast), stack_expireBus _ _, ?_, hholds.dispatching, hholds.limit, hholds.visits,
      fun hkept => ?_, fun _ => ⟨hnobody, hdead⟩, ?_⟩
    · rw [(atBuses_expireBus _ _).runners]
      exact hR'
    · simp [hreleased] at hkept
    · rw [(atBuses_expireBus { n with stack := base } R.bus).panic]
      exact hpn ▸ hfinishes R' hgiven hholds.halted

/-- A panic from a behaviour that could not be built passes a runner. -/
theorem Drains.exists_broken (h : Drains r L begun entered base R m) (hb : Breaks kinds m) :
    ∃ n R', Concludes kinds r L entered base R R' m n := by
  obtain ⟨node, p, hbuild, hp⟩ := hb
  have hnext : Next kinds m _ := next_unwind h.stack (by simp [hp])
  simp only [unwind, Option.mem_def.1 h.runner] at hnext
  split at hnext
  · rename_i hreleased
    let R' : Runner (Script σ) :=
      { R with dispatching := false, current := none, lifetime := .over }
    have hdead : R'.isAlive = false := by simp [R', Runner.isAlive]
    refine ⟨_, R', h.stack, h.runner, above_of_next [] h.stack hnext,
      stack_expireBus _ _, ?_, rfl, rfl, rfl, fun hkept => ?_, fun _ => ⟨rfl, hdead⟩, ?_⟩
    · rw [(atBuses_expireBus _ _).runners]
      exact runners_setRunner (m := { m with stack := base }) h.runner R'
    · simp [hreleased] at hkept
    · rw [(atBuses_expireBus (({ m with stack := base } : Machine σ).setRunner r R') R.bus).panic]
      exact hp ▸ .brokenOff hbuild rfl rfl
  · rename_i hlasts
    have hkept : R.lifetime = .kept := h.spends.lifetime.resolve_right hlasts
    refine ⟨_, { R with dispatching := false }, h.stack, h.runner,
      above_of_next [] h.stack hnext, rfl,
      runners_setRunner (m := { m with stack := base }) h.runner _, rfl, rfl, rfl,
      fun _ => ⟨rfl, hkept⟩, fun hgone => absurd hkept hgone, ?_⟩
    exact hp ▸ .brokenOff hbuild rfl rfl

/-- A limit bounds every dispatch. A task is given to a runner with a limit that is not at work, in
any session, whatever tasks wait and whatever its nodes do, as long as each call to one of its nodes
returns. Then the runner works off its queue in finitely many steps, enters as many nodes as the
limit says at most, and is not at work any more, so that the next task finds all of the limit
unspent. No task is left, unless a panic passes the runner because a behaviour could not be built.
If tasks were given up, exactly as many nodes have been entered as the limit says, and the flow is
halted where it is. -/
theorem dispatch_within_limit (hR : m.world.runners[r]? = some R) (halive : R.isAlive = true)
    (hidle : R.dispatching = false) (hlimit : R.limit = some L) (hp : m.panic = none) (task : Task)
    (hcalls : (m.submit r task).CallsReturn kinds r m.stack) :
    ∃ k entered R₁ n R', Above kinds m.stack (m.submit r task) k ∧ entered ≤ L ∧
      R₁.limit = some L ∧ R₁.visits = R.visits + entered ∧
      Concludes kinds r L entered m.stack R₁ R' k n := by
  have hsubmit : m.submit r task = (m.setRunner r (R.given task)).push (.dispatch r 0) := by
    unfold submit
    simp [hR, halive, hidle, Runner.given]
  have hdrains : Drains r L R.visits 0 m.stack (R.given task) (m.submit r task) := by
    rw [hsubmit]
    exact ⟨runners_setRunner (m := m) hR _, rfl, rfl, halive, hlimit, Nat.zero_le L, rfl⟩
  have hpanic : (m.submit r task).panic = none := by rw [hsubmit]; exact hp
  obtain ⟨k, entered, R₁, hk, hlast, hwhy⟩ := hdrains.exists_last hpanic hcalls
  have hreturn := hcalls.of_above hk
  suffices h : ∃ n R', Concludes kinds r L entered m.stack R₁ R' k n by
    obtain ⟨n, R', hconcludes⟩ := h
    exact ⟨k, entered, R₁, n, R', hk, hlast.spends.within, hlast.spends.limit,
      hlast.spends.visits, hconcludes⟩
  rcases hwhy with ⟨hpk, hdone⟩ | hbreaks
  · have hnext := next_dispatch kinds hpk hlast.runner hlast.stack
    unfold dispatch at hnext
    cases hqueue : R₁.queue with
    | nil =>
        rw [hqueue] at hnext
        exact hlast.exists_concluded hpk hreturn hnext fun R' => .through hqueue
    | cons t queue =>
        obtain rfl : entered = L := hdone.resolve_left (by simp [hqueue])
        have hreached : R₁.limit.any (· ≤ entered) = true := by simp [hlast.spends.limit]
        rw [hqueue] at hnext
        simp only [hreached, if_true] at hnext
        exact hlast.exists_concluded hpk hreturn hnext fun R' => .cutOff (by simp [hqueue]) rfl
  · exact hlast.exists_broken hbreaks

def corridor : Machine Unit where
  world :=
    { runners :=
        [{ graph := { start := some ⟨"a"⟩
                      nodes := [{ kind := "note", id := ⟨"a"⟩, outputs := [some ⟨"b"⟩] },
                                { kind := "note", id := ⟨"b"⟩ }] }
           bus := 0, limit := some 1 }]
      buses := [{}] }
  data := ()

theorem dispatch_within_limit_corridor : ∃ k, ∃ R₁ : Runner (Script Unit), ∃ n R',
    Above Builtin.registry [] (corridor.submit 0 (.request (.goTo ⟨"a"⟩))) k ∧
      Concludes Builtin.registry 0 1 1 [] R₁ R' k n ∧ R'.halted = true ∧
      (R'.current.map fun c => c.id) = some ⟨"a"⟩ := by
  obtain ⟨e, R, hrun, hR, hhalted, hvisits, hcurrent⟩ : ∃ e R,
      (corridor.submit 0 (.request (.goTo ⟨"a"⟩))).run Builtin.registry 20 = some e ∧
      e.world.runners[0]? = some R ∧ R.halted = true ∧ R.visits = 1 ∧
      (R.current.map fun c => c.id) = some ⟨"a"⟩ :=
    ⟨_, _, rfl, rfl, rfl, rfl, rfl⟩
  obtain ⟨hleads, hback⟩ := leads_of_run hrun
  have hcalls := callsReturn_of_back (r := 0) (above_nil_of_leads hleads)
    (by simp [hback])
  obtain ⟨k, entered, R₁, n, R', hk, -, -, hcount, hconcludes⟩ :=
    dispatch_within_limit (m := corridor) rfl rfl rfl rfl rfl (.request (.goTo ⟨"a"⟩)) hcalls
  have hends := ends_iff_eq (e := e) (Above.leads (hk.trans hconcludes.above)) hconcludes.back
  have hn : e = n := hends.1 ⟨20, hrun⟩
  obtain rfl : R = R' := Option.some.inj (hR.symm.trans (hn ▸ hconcludes.mem))
  obtain rfl : entered = 1 := by
    have hsame := hconcludes.visits
    rw [hvisits, hcount] at hsame
    exact (Nat.zero_add entered).symm.trans hsame.symm
  exact ⟨k, R₁, n, R, hk, hconcludes, hhalted, hcurrent⟩

end Machine

end StoryGraph
