import StoryGraph.Proofs.Flow.Limit
import StoryGraph.Proofs.Flow.Stack

/-!
# What a step makes of a runner

All that a step can make of the record of a runner is said once: which record there is after a
session has gone on with a frame (`Runner.Changes`), or after a panic has reached one
(`Runner.Suffers`), and under which conditions. What is known of a runner at every moment can be
read off the cases, whoever takes the step (`Machine.exists_changes_of_next`).

Whatever is known of every runner because it was made with nothing to do and no step takes it away
holds of those made later as well (`Machine.keeps_or_fresh`).
-/

namespace StoryGraph

variable {σ : Type}

def Runner.given {κ : Type _} (R : Runner κ) (task : Task) : Runner κ :=
  { R with queue := R.queue ++ [task], dispatching := true }

def Runner.spent {κ : Type _} (R : Runner κ) : Runner κ :=
  { R with queue := [], halted := true, dispatching := false }

def Runner.begun {κ : Type _} (R : Runner κ) (node : Node) (leave : Option κ) : Runner κ :=
  { R with visits := R.visits + 1, halted := false
           current := some ⟨node.id, R.visits + 1, leave⟩ }

theorem Frame.run_ne_dispatch (s : Script σ) (r entered : Nat) :
    (.run s : Frame σ) ≠ .dispatch r entered := fun h => by cases h

inductive Runner.Changes (kinds : Registry (Behaviour σ)) (r : Nat) (R : Runner (Script σ)) :
    Frame σ → Runner (Script σ) → Prop where
  | same {f : Frame σ} (idle : ∀ entered, f ≠ .dispatch r entered) : Changes kinds r R f R
  | starts (next : Option StoryError → Script σ) {id : NodeId} (entry : R.graph.entry = .ok id) :
    Changes kinds r R (.run (.start r next)) (R.given (.request (.goTo id)))
  | asks (request : Request) (next : Script σ) :
    Changes kinds r R (.run (.ask r request next)) (R.given (.request request))
  /-- The node of a visit says that it is done, and there is a runner to hear it. -/
  | speaks {visit : Nat} (next : Bool → Script σ) (armed : visit ∈ R.armed) :
    Changes kinds r R (.run (.done r visit next))
      (({ R with armed := R.armed.erase visit } : Runner (Script σ)).given (.done visit))
  /-- The node of a visit says that it is done, and the runner is over. -/
  | wastes {visit : Nat} (next : Bool → Script σ) (armed : visit ∈ R.armed)
    (gone : R.lifetime = .over) :
    Changes kinds r R (.run (.done r visit next)) { R with armed := R.armed.erase visit }
  | lays (visit : Nat) (leave next : Script σ) :
    Changes kinds r R (.run (.onLeave r visit leave next)) { R with
      current := R.current.map fun c =>
        if c.visit = visit then { c with leave := c.leave.map fun _ => leave } else c }
  | sets (key : String) (value : Blackboard.Value) (next : Script σ) :
    Changes kinds r R (.run (.set r key value next))
      { R with blackboard := R.blackboard.set key value }
  | releases (next : Script σ) :
    Changes kinds r R (.run (.release r next)) { R with lifetime := R.lifetime.release }
  | ends (next : Script σ) (idle : R.dispatching = false) :
    Changes kinds r R (.run (.release r next)) { R with lifetime := .over, current := none }
  | rests (entered : Nat) (queue : R.queue = []) :
    Changes kinds r R (.dispatch r entered) { R with dispatching := false }
  | expires (entered : Nat) (queue : R.queue = []) (released : R.lifetime = .released) :
    Changes kinds r R (.dispatch r entered)
      { R with dispatching := false, lifetime := .over, current := none }
  | quits {entered : Nat} (queue : R.queue ≠ []) (reached : R.limit.any (· ≤ entered)) :
    Changes kinds r R (.dispatch r entered) R.spent
  | collapses {entered : Nat} (queue : R.queue ≠ []) (reached : R.limit.any (· ≤ entered))
    (released : R.lifetime = .released) :
    Changes kinds r R (.dispatch r entered) { R.spent with lifetime := .over, current := none }
  | stays {entered : Nat} (room : ¬R.limit.any (· ≤ entered)) {task : Task} {queue : List Task}
    (first : R.queue = task :: queue) (move : R.move task = .stay) :
    Changes kinds r R (.dispatch r entered) { R with queue }
  | halts {entered : Nat} (room : ¬R.limit.any (· ≤ entered)) {task : Task} {queue : List Task}
    (first : R.queue = task :: queue) (move : R.move task = .halt) :
    Changes kinds r R (.dispatch r entered) { R with queue, halted := true }
  | departs {entered : Nat} (room : ¬R.limit.any (· ≤ entered)) {task : Task} {queue : List Task}
    (first : R.queue = task :: queue) (move : ¬(R.move task).Stays) :
    Changes kinds r R (.dispatch r entered) { R with queue, current := none }
  | relaxes : Changes kinds r R (.leaving r none) { R with halted := false }
  | refused {node : Node} {e : StoryError} (build : kinds.build node = .refused e) :
    Changes kinds r R (.leaving r (some node)) { R.begun node none with halted := true }
  | breaks {node : Node} {p : Panic} (build : kinds.build node = .panicked p) :
    Changes kinds r R (.leaving r (some node)) (R.begun node none)
  | enters {node : Node} {behaviour : Behaviour σ} (build : kinds.build node = .ready behaviour) :
    Changes kinds r R (.leaving r (some node))
      { R.begun node (some .stop) with armed := (R.visits + 1) :: R.armed }

inductive Runner.Suffers {κ : Type _} (r : Nat) (R : Runner κ) : Frame σ → Runner κ → Prop where
  | same (f : Frame σ) : Suffers r R f R
  | breaksOff (entered : Nat) : Suffers r R (.dispatch r entered) { R with dispatching := false }
  | ends (entered : Nat) (released : R.lifetime = .released) :
    Suffers r R (.dispatch r entered)
      { R with dispatching := false, current := none, lifetime := .over }
  | givesUp (visit : Nat) : Suffers r R (.entering r visit) { R with queue := [], halted := true }

/-- What no step takes from a runner: its graph, its bus and its limit, and the visits that there
were. -/
structure Runner.Keeps {κ : Type _} (R R' : Runner κ) : Prop where
  graph : R'.graph = R.graph
  bus : R'.bus = R.bus
  limit : R'.limit = R.limit
  visits : R.visits ≤ R'.visits

theorem Runner.Keeps.trans {κ : Type _} {R R' R'' : Runner κ} (h : R.Keeps R')
    (h' : R'.Keeps R'') : R.Keeps R'' :=
  ⟨h'.graph.trans h.graph, h'.bus.trans h.bus, h'.limit.trans h.limit,
    h.visits.trans h'.visits⟩

theorem Runner.Changes.keeps {kinds : Registry (Behaviour σ)} {r : Nat} {f : Frame σ}
    {R R' : Runner (Script σ)} (h : R.Changes kinds r f R') : R.Keeps R' := by
  cases h with
  | refused | breaks | enters => exact ⟨rfl, rfl, rfl, Nat.le_succ _⟩
  | _ => exact ⟨rfl, rfl, rfl, le_rfl⟩

theorem Runner.Suffers.keeps {κ : Type _} {r : Nat} {f : Frame σ} {R R' : Runner κ}
    (h : R.Suffers r f R') : R.Keeps R' := by
  cases h <;> exact ⟨rfl, rfl, rfl, le_rfl⟩

namespace Machine

variable {kinds : Registry (Behaviour σ)} {r : Nat} {m n k : Machine σ} {R : Runner (Script σ)}

theorem runners_leave (hR : R ∈ n.world.runners[r]?) (R₁ : Runner (Script σ)) :
    { R₁ with current := none } ∈ (n.leave r R₁).world.runners[r]? := by
  have hset := runners_setRunner hR { R₁ with current := none }
  unfold leave
  dsimp only
  split
  · exact hset
  · exact hset

/-- A runner that is let go of ends if it is not at work. -/
theorem runners_expireRunner (hR : R ∈ n.world.runners[r]?) :
    R ∈ (n.expireRunner r).world.runners[r]? ∨ R.dispatching = false ∧
      { R with lifetime := .over, current := none } ∈ (n.expireRunner r).world.runners[r]? := by
  unfold expireRunner
  rw [Option.mem_def.1 hR]
  dsimp only
  split
  · rename_i h
    refine .inr ⟨by simp_all, ?_⟩
    exact runners_leave (n := n.push _) hR { R with lifetime := .over }
  · exact .inl hR

theorem mem_runners_submit (hR : R ∈ n.world.runners[r]?) (halive : R.isAlive = true)
    (task : Task) : R.given task ∈ (n.submit r task).world.runners[r]? := by
  unfold submit
  rw [Option.mem_def.1 hR]
  simp only [halive, Bool.not_true, Bool.false_eq_true, if_false]
  split
  · exact runners_setRunner hR _
  · exact runners_setRunner hR _

theorem exists_given (hR : R ∈ n.world.runners[r]?) (task : Task) :
    R.isAlive = false ∧ R ∈ (n.submit r task).world.runners[r]? ∨
      R.given task ∈ (n.submit r task).world.runners[r]? := by
  by_cases halive : R.isAlive = true
  · exact .inr (mem_runners_submit hR halive task)
  · have hsame : n.submit r task = n := by
      unfold submit
      simp [Option.mem_def.1 hR, halive]
    exact .inl ⟨by simpa using halive, by rwa [hsame]⟩

theorem changes_done (hR : R ∈ n.world.runners[r]?) (visit : Nat) (next : Bool → Script σ) :
    ∃ R' ∈ (n.done r visit next).world.runners[r]?,
      R.Changes kinds r (.run (.done r visit next)) R' := by
  unfold done
  rw [Option.mem_def.1 hR]
  dsimp only
  split
  · rename_i harmed
    have hspent := runners_setRunner hR { R with armed := R.armed.erase visit }
    rcases exists_given (n := (n.setRunner r _).push (.run (next true))) hspent (.done visit) with
      ⟨hdead, h⟩ | h
    · have hover : R.lifetime = .over := by simpa [Runner.isAlive] using hdead
      exact ⟨_, h, .wastes next harmed hover⟩
    · exact ⟨_, h, .speaks next harmed⟩
  · exact ⟨R, hR, .same (Frame.run_ne_dispatch _ _)⟩

theorem changes_release (hR : R ∈ n.world.runners[r]?) (next : Script σ) :
    ∃ R' ∈ (n.release r).world.runners[r]?, R.Changes kinds r (.run (.release r next)) R' := by
  have hset := runners_setRunner hR { R with lifetime := R.lifetime.release }
  unfold release
  rw [Option.mem_def.1 hR]
  dsimp only
  rcases runners_expireRunner hset with h | ⟨hidle, h⟩
  · exact ⟨_, h, .releases next⟩
  · exact ⟨_, h, .ends next hidle⟩

theorem changes_perform (hR : R ∈ n.world.runners[r]?) (s : Script σ) :
    ∃ R' ∈ (n.perform s).world.runners[r]?, R.Changes kinds r (.run s) R' := by
  have hsame : (n.perform s).world.runners[r]? = n.world.runners[r]? →
      ∃ R' ∈ (n.perform s).world.runners[r]?, R.Changes kinds r (.run s) R' :=
    fun h => ⟨R, h ▸ hR, .same (Frame.run_ne_dispatch _ _)⟩
  by_cases haside : ¬s.Aside
  · obtain ⟨next, -, hbuses⟩ := atBuses_perform n haside
    exact hsame (congrArg (·[r]?) hbuses.runners)
  rcases exists_other_or_own s.runner? r with ⟨r', hs, hne⟩ | hself
  · obtain ⟨next, -, hrunner⟩ := atRunner_perform n hs
    exact hsame (hrunner.others r hne.symm)
  cases s with
  | stop | panic p | look next | keep change next => exact hsame rfl
  | assign graph bus limit next =>
      refine hsame (List.getElem?_append_left ?_)
      exact (List.getElem?_eq_some_iff.1 hR).1
  | start r' next =>
      obtain rfl := hself r' rfl
      rw [perform, Option.mem_def.1 hR]
      dsimp only
      split
      · exact ⟨R, hR, .same (Frame.run_ne_dispatch _ _)⟩
      · rename_i id hentry
        rcases exists_given (n := n.push (.run (next none))) hR (.request (.goTo id)) with
          ⟨-, h⟩ | h
        · exact ⟨R, h, .same (Frame.run_ne_dispatch _ _)⟩
        · exact ⟨_, h, .starts next hentry⟩
  | ask r' request next =>
      obtain rfl := hself r' rfl
      rcases exists_given (n := n.push (.run next)) hR (.request request) with ⟨-, h⟩ | h
      · exact ⟨R, h, .same (Frame.run_ne_dispatch _ _)⟩
      · exact ⟨_, h, .asks request next⟩
  | done r' visit next =>
      obtain rfl := hself r' rfl
      exact changes_done hR visit next
  | onLeave r' visit leave next =>
      obtain rfl := hself r' rfl
      rw [perform, Option.mem_def.1 hR]
      exact ⟨_, runners_setRunner hR _, .lays visit leave next⟩
  | set r' key value next =>
      obtain rfl := hself r' rfl
      rw [perform, Option.mem_def.1 hR]
      exact ⟨_, runners_setRunner hR _, .sets key value next⟩
  | release r' next =>
      obtain rfl := hself r' rfl
      exact changes_release (n := n.push (.run next)) hR next
  | _ => exact absurd id haside

theorem runners_expireRunner_of_idle (hR : R ∈ n.world.runners[r]?) :
    R ∈ (n.expireRunner r).world.runners[r]? ∨ R.lifetime = .released ∧
      { R with lifetime := .over, current := none } ∈ (n.expireRunner r).world.runners[r]? := by
  by_cases hreleased : R.lifetime = .released
  · rcases runners_expireRunner hR with h | ⟨-, h⟩
    · exact .inl h
    · exact .inr ⟨hreleased, h⟩
  · rw [expireRunner_eq_self hR (.inl hreleased)]
    exact .inl hR

theorem changes_dispatch (hR : R ∈ n.world.runners[r]?) (entered : Nat) :
    ∃ R' ∈ (n.dispatch r R entered).world.runners[r]?,
      R.Changes kinds r (.dispatch r entered) R' := by
  unfold dispatch
  split
  · rename_i hqueue
    have hset := runners_setRunner hR { R with dispatching := false }
    rcases runners_expireRunner_of_idle hset with h | ⟨hreleased, h⟩
    · exact ⟨_, h, .rests entered hqueue⟩
    · exact ⟨_, h, .expires entered hqueue hreleased⟩
  · rename_i task queue hqueue
    split
    · rename_i hreached
      have hne : R.queue ≠ [] := by simp [hqueue]
      rcases runners_expireRunner_of_idle (runners_setRunner hR R.spent) with h | ⟨hreleased, h⟩
      · exact ⟨_, h, .quits hne hreached⟩
      · exact ⟨_, h, .collapses hne hreached hreleased⟩
    · rename_i hroom
      have hleave : ∀ {j : Machine σ}, j.world = n.world → ¬(R.move task).Stays →
          ∃ R' ∈ (j.leave r { R with queue }).world.runners[r]?,
            R.Changes kinds r (.dispatch r entered) R' := fun hj hmove =>
        ⟨_, runners_leave (hj ▸ hR) { R with queue }, .departs hroom hqueue hmove⟩
      split
      · rename_i hmove
        exact ⟨_, runners_setRunner hR _, .stays hroom hqueue hmove⟩
      · rename_i hmove
        exact ⟨_, runners_setRunner hR _, .halts hroom hqueue hmove⟩
      · rename_i hmove
        exact hleave rfl (by rw [hmove]; exact id)
      · rename_i node hmove
        exact hleave rfl (by rw [hmove]; exact id)

theorem changes_enter (hR : R ∈ n.world.runners[r]?) (node : Node) :
    ∃ R' ∈ (n.enter kinds r R node).world.runners[r]?,
      R.Changes kinds r (.leaving r (some node)) R' := by
  unfold enter
  dsimp only
  split
  · rename_i hbuild
    exact ⟨_, runners_setRunner hR _, .refused hbuild⟩
  · rename_i hbuild
    exact ⟨_, runners_setRunner hR _, .breaks hbuild⟩
  · rename_i hbuild
    exact ⟨_, runners_setRunner (m := n) hR _, .enters hbuild⟩

/-- What becomes of a runner when a session goes on with a frame. -/
theorem exists_changes_of_resume (hR : R ∈ n.world.runners[r]?) (f : Frame σ) :
    ∃ R' ∈ (n.resume kinds f).world.runners[r]?, R.Changes kinds r f R' := by
  have hsame : (n.resume kinds f).world.runners[r]? = n.world.runners[r]? →
      (∀ entered, f ≠ .dispatch r entered) →
      ∃ R' ∈ (n.resume kinds f).world.runners[r]?, R.Changes kinds r f R' :=
    fun h hidle => ⟨R, h ▸ hR, .same hidle⟩
  rcases exists_other_or_own f.runner? r with ⟨r', hf, hne⟩ | hself
  · refine hsame ((atRunner_resume n kinds hf).others r hne.symm) ?_
    rintro entered rfl
    exact hne (Option.some.inj hf).symm
  cases f with
  | run s => exact changes_perform hR s
  | deliver bus rest =>
      refine hsame ?_ fun _ hf => by cases hf
      cases rest with
      | nil =>
          cases bus with
          | none => rfl
          | some b => exact congrArg (·[r]?) (atBuses_expireBus n b).runners
      | cons s rest => rfl
  | dispatch r' entered =>
      obtain rfl := hself r' rfl
      rw [resume, Option.mem_def.1 hR]
      exact changes_dispatch hR entered
  | entering r' visit | exiting r' visit => exact hsame rfl fun _ hf => by cases hf
  | leaving r' target =>
      obtain rfl := hself r' rfl
      simp only [resume, Option.mem_def.1 hR]
      cases target with
      | none => exact ⟨_, runners_setRunner hR _, .relaxes⟩
      | some node => exact changes_enter hR node

/-- What becomes of a runner when a panic reaches a frame, be it this runner's or another's. -/
theorem exists_suffers_of_unwind (hR : R ∈ n.world.runners[r]?) (f : Frame σ) :
    ∃ R' ∈ (n.unwind f).world.runners[r]?, R.Suffers r f R' := by
  have hsame : (n.unwind f).world.runners[r]? = n.world.runners[r]? →
      ∃ R' ∈ (n.unwind f).world.runners[r]?, R.Suffers r f R' :=
    fun h => ⟨R, h ▸ hR, .same f⟩
  rcases exists_other_or_own f.runner? r with ⟨r', hf, hne⟩ | hself
  · obtain ⟨k, hk, heq | ⟨b, heq⟩⟩ := atRunner_unwind n hf
    · exact hsame (heq ▸ hk.others r hne.symm)
    · refine hsame ?_
      rw [heq, (atBuses_expireBus k b).runners]
      exact hk.others r hne.symm
  cases f with
  | run | deliver | exiting | leaving => exact hsame rfl
  | dispatch r' entered =>
      obtain rfl := hself r' rfl
      simp only [unwind, Option.mem_def.1 hR]
      split
      · rename_i hreleased
        rw [(atBuses_expireBus _ _).runners]
        exact ⟨_, runners_setRunner hR _, .ends entered hreleased⟩
      · exact ⟨_, runners_setRunner hR _, .breaksOff entered⟩
  | entering r' visit =>
      obtain rfl := hself r' rfl
      simp only [unwind, Option.mem_def.1 hR]
      exact ⟨_, runners_setRunner hR _, .givesUp visit⟩

/-- What becomes of a runner in one step. -/
theorem exists_changes_of_next (hR : R ∈ m.world.runners[r]?) (hn : Next kinds m k) :
    ∃ f below R', m.stack = f :: below ∧ R' ∈ k.world.runners[r]? ∧
      (m.panic = none ∧ R.Changes kinds r f R' ∨ m.panic ≠ none ∧ R.Suffers r f R') := by
  obtain ⟨f, below, hm, ⟨hp, rfl⟩ | ⟨hp, rfl⟩⟩ := exists_of_next hn
  · obtain ⟨R', hR', hchanges⟩ := exists_changes_of_resume (n := { m with stack := below }) hR f
    exact ⟨f, below, R', hm, hR', .inl ⟨hp, hchanges⟩⟩
  · obtain ⟨R', hR', hsuffers⟩ := exists_suffers_of_unwind (n := { m with stack := below }) hR f
    exact ⟨f, below, R', hm, hR', .inr ⟨hp, hsuffers⟩⟩

theorem exists_keeps_of_next (hR : R ∈ m.world.runners[r]?) (hn : Next kinds m k) :
    ∃ R' ∈ k.world.runners[r]?, R.Keeps R' := by
  obtain ⟨f, below, R', -, hR', ⟨-, hchanges⟩ | ⟨-, hsuffers⟩⟩ := exists_changes_of_next hR hn
  · exact ⟨R', hR', hchanges.keeps⟩
  · exact ⟨R', hR', hsuffers.keeps⟩

theorem Unlimited.next (h : m.Unlimited r) (hn : Next kinds m k) : k.Unlimited r := by
  obtain ⟨R, hR, hlimit⟩ := h
  obtain ⟨R', hR', hkeeps⟩ := exists_keeps_of_next hR hn
  exact ⟨R', hR', hkeeps.limit.trans hlimit⟩

theorem Unlimited.leads (h : m.Unlimited r) (hl : Leads kinds m k) : k.Unlimited r := by
  induction hl with
  | refl => exact h
  | tail _ next ih => exact ih.next next

/-- A runner that is there after a step was there before, or has been made in it. -/
theorem keeps_or_fresh (hn : Next kinds m k) {R' : Runner (Script σ)}
    (hR' : R' ∈ k.world.runners[r]?) :
    (∃ R ∈ m.world.runners[r]?, R.Keeps R') ∨ m.world.runners[r]? = none ∧ R'.Fresh := by
  cases hR : m.world.runners[r]? with
  | none => exact .inr ⟨rfl, fresh_of_next hn hR hR'⟩
  | some R =>
      obtain ⟨S, hS, hkeeps⟩ := exists_keeps_of_next hR hn
      obtain rfl := Option.some.inj (hR'.symm.trans hS)
      exact .inl ⟨R, rfl, hkeeps⟩

/-- What becomes of a runner in a step of a session in which nodes do not panic. No panic gets to a
runner at its queue. -/
theorem Covered.exists_changes {p : Nat → Nat → Script σ → Prop} (h : m.Covered p)
    (hR : R ∈ m.world.runners[r]?) (hn : Next kinds m k) :
    ∃ f below R', m.stack = f :: below ∧ R' ∈ k.world.runners[r]? ∧ R.Changes kinds r f R' ∧
      ∀ entered, f = .dispatch r entered → m.panic = none := by
  obtain ⟨f, below, R', hm, hR', ⟨hp, hchanges⟩ | ⟨hp, hsuffers⟩⟩ := exists_changes_of_next hR hn
  · exact ⟨f, below, R', hm, hR', hchanges, fun _ _ => hp⟩
  · have hcatches := h.caught hp f (by rw [hm]; rfl)
    cases hcatches with
    | deliver | exiting =>
        cases hsuffers
        exact ⟨_, below, R, hm, hR', .same (fun _ hf => by cases hf), fun _ hf => by cases hf⟩

end Machine

end StoryGraph
