import StoryGraph.Proofs.Flow.Change

/-!
# Tasks are taken in turn

All that moves a runner is a task from its queue. In one step a runner without a limit is given
tasks, or takes the one whose turn it is (`Machine.taken?`), and the visit to its current node goes
on unless the task that is taken moves it (`Machine.Passes`).

`Machine.Takes` collects the tasks that are taken over any number of steps. Tasks are taken in the
order in which they were given (`Machine.Takes.queue`).
-/

namespace StoryGraph

variable {σ : Type}

namespace Machine

variable {kinds : Registry (Behaviour σ)} {p : Nat → Nat → Script σ → Prop} {r : Nat}
  {m n k : Machine σ} {R R' : Runner (Script σ)}

def taken? (r : Nat) (m : Machine σ) : Option (Task × Move) :=
  match m.panic, m.stack with
  | none, .dispatch r' _ :: _ =>
    if r' = r then m.world.runners[r]?.bind fun R => R.queue.head?.map fun t => (t, R.move t)
    else none
  | _, _ => none

theorem taken?_eq_none {f : Frame σ} {stack : List (Frame σ)} (hm : m.stack = f :: stack)
    (hf : ∀ entered, f ≠ .dispatch r entered) : m.taken? r = none := by
  unfold taken?
  split
  · rename_i r' entered _ _ hstack
    rw [hm] at hstack
    obtain ⟨rfl, -⟩ := List.cons.inj hstack
    exact if_neg fun hr : r' = r => hf entered (hr ▸ rfl)
  · rfl

theorem taken?_of_dispatch {entered : Nat} {stack : List (Frame σ)}
    (hm : m.stack = .dispatch r entered :: stack) (hp : m.panic = none)
    (hR : R ∈ m.world.runners[r]?) :
    m.taken? r = R.queue.head?.map fun t => (t, R.move t) := by
  unfold taken?
  rw [hm, hp]
  simp [Option.mem_def.1 hR]

inductive VisitPasses (r : Nat) (m : Machine σ) (R R' : Runner (Script σ)) : Prop where
  | stays (current : R'.stance.current = R.stance.current) (visits : R'.visits = R.visits)
    (still : ∀ e ∈ m.taken? r, e.2.Stays)
  /-- The node is left because of a task, or because nobody keeps the runner and nothing is left to
  do. -/
  | leaves (current : R'.stance.current = none) (visits : R'.visits = R.visits)
    (why : (∃ e ∈ m.taken? r, ¬e.2.Stays) ∨ R.dispatching = false ∨ R.queue = [])
  | enters (current : R'.stance.current.map Current.visit = some (R.visits + 1))
    (visits : R'.visits = R.visits + 1) (none_taken : m.taken? r = none)
    (way : ∃ node, m.stack.head? = some (.leaving r (some node)))

structure Passes (r : Nat) (m : Machine σ) (R R' : Runner (Script σ)) : Prop where
  graph : R'.graph = R.graph
  limit : R'.limit = R.limit
  /-- The task that is taken is the first one, and tasks that are given go to the end. -/
  queue : ∃ given, R.queue ++ given = ((m.taken? r).map Prod.fst).toList ++ R'.queue
  visit : VisitPasses r m R R'

theorem passes_of_stance (h : R'.stance = R.stance) (hnone : m.taken? r = none) :
    Passes r m R R' where
  graph := congrArg (fun R : Runner Unit => R.graph) h
  limit := congrArg (fun R : Runner Unit => R.limit) h
  queue := by
    have hqueue : R'.queue = R.queue := congrArg (fun R : Runner Unit => R.queue) h
    exact ⟨[], by simp [hnone, hqueue]⟩
  visit := .stays (congrArg (fun R : Runner Unit => R.current) h)
    (congrArg (fun R : Runner Unit => R.visits) h) (by simp [hnone])

theorem passes_of_idle (hnone : m.taken? r = none) (hgraph : R'.graph = R.graph)
    (hlimit : R'.limit = R.limit) (given : List Task) (hqueue : R'.queue = R.queue ++ given)
    (hvisit : VisitPasses r m R R') : Passes r m R R' :=
  ⟨hgraph, hlimit, ⟨given, by simp [hnone, hqueue]⟩, hvisit⟩

/-- A runner without a limit is given tasks, or takes the one whose turn it is, or begins or ends a
visit. -/
theorem passes_of_changes {f : Frame σ} {below : List (Frame σ)} (h : R.Changes kinds r f R')
    (hm : m.stack = f :: below) (hp : ∀ entered, f = .dispatch r entered → m.panic = none)
    (hR : R ∈ m.world.runners[r]?) (hlimit : R.limit = none) : Passes r m R R' := by
  have hidle : (∀ entered, f ≠ .dispatch r entered) → m.taken? r = none := taken?_eq_none hm
  have hturn : ∀ entered, f = .dispatch r entered →
      m.taken? r = R.queue.head?.map fun t => (t, R.move t) := fun entered hf =>
    taken?_of_dispatch (hf ▸ hm) (hp entered hf) hR
  have hstill : m.taken? r = none → ∀ e ∈ m.taken? r, e.2.Stays := fun hnone => by simp [hnone]
  cases h with
  | same idle => exact passes_of_stance rfl (hidle idle)
  | starts next entry | asks request next | speaks next armed =>
      have hnone := hidle nofun
      exact passes_of_idle hnone rfl rfl [_] rfl (.stays rfl rfl (hstill hnone))
  | wastes next armed gone | sets key value next => exact passes_of_stance rfl (hidle nofun)
  | lays visit leave next => exact passes_of_stance (stance_onLeave R visit leave) (hidle nofun)
  | releases next =>
      have hnone := hidle nofun
      exact passes_of_idle hnone rfl rfl [] (List.append_nil _).symm
        (.stays rfl rfl (hstill hnone))
  | ends next idle =>
      exact passes_of_idle (hidle nofun) rfl rfl [] (List.append_nil _).symm
        (.leaves rfl rfl (.inr (.inl idle)))
  | rests entered queue =>
      have hnone : m.taken? r = none := by rw [hturn entered rfl, queue]; rfl
      exact passes_of_idle hnone rfl rfl [] (List.append_nil _).symm
        (.stays rfl rfl (hstill hnone))
  | expires entered queue released =>
      have hnone : m.taken? r = none := by rw [hturn entered rfl, queue]; rfl
      exact passes_of_idle hnone rfl rfl [] (List.append_nil _).symm
        (.leaves rfl rfl (.inr (.inr queue)))
  | quits queue reached | collapses queue reached released => simp [hlimit] at reached
  | @stays entered room task queue first move | @halts entered room task queue first move =>
      have htaken : m.taken? r = some (task, R.move task) := by rw [hturn entered rfl, first]; rfl
      refine ⟨rfl, rfl, ⟨[], by simp [htaken, first]⟩, .stays rfl rfl fun e he => ?_⟩
      obtain rfl := Option.some.inj (htaken.symm.trans he)
      rw [move]
      trivial
  | @departs entered room task queue first move =>
      have htaken : m.taken? r = some (task, R.move task) := by rw [hturn entered rfl, first]; rfl
      exact ⟨rfl, rfl, ⟨[], by simp [htaken, first]⟩,
        .leaves rfl rfl (.inl ⟨_, htaken, move⟩)⟩
  | relaxes =>
      have hnone := hidle nofun
      exact passes_of_idle hnone rfl rfl [] (List.append_nil _).symm
        (.stays rfl rfl (hstill hnone))
  | @refused node _ _ | @breaks node _ _ | @enters node _ _ =>
      have hnone := hidle nofun
      exact passes_of_idle hnone rfl rfl [] (List.append_nil _).symm
        (.enters rfl rfl hnone ⟨node, by rw [hm]; rfl⟩)

/-- What becomes of a runner without a limit in one step. -/
theorem exists_passes_of_next (hc : m.Covered p) (hR : R ∈ m.world.runners[r]?)
    (hlimit : R.limit = none) (hn : Next kinds m k) :
    ∃ R' ∈ k.world.runners[r]?, Passes r m R R' := by
  obtain ⟨f, below, R', hm, hR', hchanges, hp⟩ := hc.exists_changes hR hn
  exact ⟨R', hR', passes_of_changes hchanges hm hp hR hlimit⟩

/-- The tasks that a runner takes from one moment to another, and where they lead. -/
inductive Takes (kinds : Registry (Behaviour σ)) (r : Nat) (m : Machine σ) :
    List (Task × Move) → Machine σ → Prop where
  | refl : Takes kinds r m [] m
  | step {taken : List (Task × Move)} {n k : Machine σ} (h : Takes kinds r m taken n)
    (next : Next kinds n k) : Takes kinds r m (taken ++ (n.taken? r).toList) k

variable {taken : List (Task × Move)}

theorem Takes.leads (h : Takes kinds r m taken n) : Leads kinds m n := by
  induction h with
  | refl => exact .refl
  | step _ next ih => exact ih.tail next

theorem exists_takes_of_leads (h : Leads kinds m n) : ∃ taken, Takes kinds r m taken n := by
  induction h with
  | refl => exact ⟨[], .refl⟩
  | tail _ next ih =>
      obtain ⟨taken, h⟩ := ih
      exact ⟨_, h.step next⟩

def after (kinds : Registry (Behaviour σ)) (m : Machine σ) : Nat → Option (Machine σ)
  | 0 => some m
  | steps + 1 => (m.after kinds steps).bind (step kinds)

/-- The moments before the last of some steps, the last one first. -/
def moments (kinds : Registry (Behaviour σ)) (m : Machine σ) (steps : Nat) : List (Machine σ) :=
  ((List.range steps).filterMap (m.after kinds)).reverse

theorem moments_succ {steps : Nat} (hn : m.after kinds steps = some n) :
    m.moments kinds (steps + 1) = n :: m.moments kinds steps := by
  rw [moments, moments, List.range_succ, List.filterMap_append, List.filterMap_cons, hn,
    List.reverse_append]
  rfl

/-- What holds at the beginning, and goes on to hold with one step more, holds after any steps. -/
theorem moments_induction {motive : List (Machine σ) → Machine σ → Prop} (begins : motive [] m)
    (goesOn : ∀ past n k, motive past n → Next kinds n k → motive (n :: past) k) {steps : Nat}
    (h : m.after kinds steps = some n) : motive (m.moments kinds steps) n := by
  induction steps generalizing n with
  | zero =>
      obtain rfl := Option.some.inj h
      exact begins
  | succ steps ih =>
      obtain ⟨k, hk, next⟩ := Option.bind_eq_some_iff.1 h
      rw [moments_succ hk]
      exact goesOn _ _ _ (ih hk) next

/-- Which tasks are taken in a number of steps can be computed. -/
theorem takes_of_after {steps : Nat} (h : m.after kinds steps = some n) :
    Takes kinds r m ((List.range steps).flatMap fun i =>
      ((m.after kinds i).bind (taken? r)).toList) n := by
  induction steps generalizing n with
  | zero =>
      obtain rfl := Option.some.inj h
      exact .refl
  | succ steps ih =>
      obtain ⟨k, hk, next⟩ := Option.bind_eq_some_iff.1 h
      rw [List.range_succ, List.flatMap_append, List.flatMap_singleton, hk, Option.bind_some]
      exact (ih hk).step next

/-- Every task that has been taken was taken at some moment. -/
theorem Takes.exists_moment (h : Takes kinds r m taken n) {i : Nat} {e : Task × Move}
    (hi : taken[i]? = some e) :
    ∃ k, Takes kinds r m (taken.take i) k ∧ k.taken? r = some e ∧ Leads kinds k n := by
  induction h with
  | refl => cases hi
  | @step taken k n h next ih =>
      by_cases hlt : i < taken.length
      · rw [List.getElem?_append_left hlt] at hi
        obtain ⟨j, hj, htaken, hl⟩ := ih hi
        rw [List.take_append_of_le_length hlt.le]
        exact ⟨j, hj, htaken, hl.tail next⟩
      · rw [List.getElem?_append_right (not_lt.1 hlt)] at hi
        obtain ⟨hi, hk⟩ : i - taken.length = 0 ∧ k.taken? r = some e := by
          cases hk : k.taken? r with
          | none => simp [hk] at hi
          | some e' => simpa [hk, List.getElem?_singleton] using hi
        have hieq : i = taken.length := Nat.le_antisymm (Nat.sub_eq_zero_iff_le.1 hi) (not_lt.1 hlt)
        rw [hieq, List.take_left]
        exact ⟨k, h, hk, .single next⟩

section Turn

variable (hbuild : ∀ n e, kinds.build n ≠ .panicked e)
  (hkinds : ∀ n behaviour, kinds.build n = .ready behaviour →
    ∀ v : Visit, (behaviour v).All (p v.runner v.number))
  (hpanics : ∀ r visit e, ¬p r visit (.panic e))

include hbuild hkinds hpanics

/-- A runner without a limit takes tasks in the order in which they are given. -/
theorem Takes.queue (hc : m.Covered p) (hR : R ∈ m.world.runners[r]?) (hlimit : R.limit = none)
    (h : Takes kinds r m taken n) :
    n.Covered p ∧ ∃ R' ∈ n.world.runners[r]?, R'.limit = none ∧ R'.graph = R.graph ∧
      ∃ given, R.queue ++ given = taken.map Prod.fst ++ R'.queue := by
  induction h with
  | refl => exact ⟨hc, R, hR, hlimit, rfl, [], by simp⟩
  | @step taken n k h next ih =>
      obtain ⟨hcn, R', hR', hlimit', hgraph, given, hgiven⟩ := ih
      obtain ⟨R'', hR'', hpasses⟩ := exists_passes_of_next hcn hR' hlimit' next
      obtain ⟨more, hmore⟩ := hpasses.queue
      have hkinds' : ∀ n' behaviour, kinds.build n' = .ready behaviour → ∀ r',
          ∀ S ∈ n.world.runners[r']?, ∀ visit, (behaviour ⟨r', S.bus, visit⟩).All (p r' visit) :=
        fun n' behaviour h r' S _ visit => hkinds n' behaviour h ⟨r', S.bus, visit⟩
      refine ⟨hcn.next hbuild hkinds' hpanics next, R'', hR'', hpasses.limit.trans hlimit',
        hpasses.graph.trans hgraph, given ++ more, ?_⟩
      have hfirst : ((n.taken? r).map Prod.fst).toList = (n.taken? r).toList.map Prod.fst := by
        cases n.taken? r <;> rfl
      calc R.queue ++ (given ++ more) = taken.map Prod.fst ++ (R'.queue ++ more) := by
            rw [← List.append_assoc, hgiven, List.append_assoc]
        _ = (taken ++ (n.taken? r).toList).map Prod.fst ++ R''.queue := by
            rw [hmore, List.map_append, List.append_assoc, hfirst]

end Turn

end Machine

end StoryGraph
