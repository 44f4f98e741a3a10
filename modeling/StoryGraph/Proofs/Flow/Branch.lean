import StoryGraph.Proofs.Flow.Discipline
import StoryGraph.Proofs.Flow.Nodes
import StoryGraph.Proofs.Flow.Queue

/-!
# When the jump of a branch is taken

A branch that is entered asks for a jump, which goes to the end of the queue. Tasks that were given
while the runner was at work before are taken first, and may lead it elsewhere or to rest. The word
of a node that it is done counts in its own visit only; a jump names a node and a slot, but no
visit. So it ends the visit to the branch if no task before it moves the runner, and whatever visit
there is otherwise, or none (`Machine.branch_jumps_in_turn`).
-/

namespace StoryGraph

variable {σ : Type}

namespace Machine

variable {r : Nat} {m n k : Machine σ} {R : Runner (Script σ)} {g : Graph} {a : Activity}
  {past : List Happening} {taken : List (Task × Move)} {kinds : Registry (Behaviour σ)}

theorem exists_of_taken? {t : Task} {move : Move} (h : m.taken? r = some (t, move)) :
    ∃ R ∈ m.world.runners[r]?, ∃ queue entered stack, R.queue = t :: queue ∧ move = R.move t ∧
      m.panic = none ∧ m.stack = .dispatch r entered :: stack := by
  unfold taken? at h
  split at h
  · rename_i r' entered stack hp hm
    split at h
    · rename_i hr
      subst hr
      obtain ⟨R, hR, hhead⟩ := Option.bind_eq_some_iff.1 h
      obtain ⟨t', ht', heq⟩ := Option.map_eq_some_iff.1 hhead
      obtain ⟨rfl, rfl⟩ := Prod.mk.inj heq
      obtain ⟨queue, hqueue⟩ := List.head?_eq_some_iff.1 ht'
      exact ⟨R, hR, queue, entered, stack, hqueue, rfl, hp, hm⟩
    · cases h
  · cases h

/-- What is taken from a moment on is taken in the first step or from the next moment on. -/
theorem Takes.of_next (h : Takes kinds r m taken n) (hk : Next kinds m k) :
    (n = m ∧ taken = []) ∨
      ∃ later, taken = (m.taken? r).toList ++ later ∧ Takes kinds r k later n := by
  induction h with
  | refl => exact .inl ⟨rfl, rfl⟩
  | @step taken j n h next ih =>
      rcases ih with ⟨rfl, rfl⟩ | ⟨later, rfl, hlater⟩
      · obtain rfl := next.unique hk
        exact .inr ⟨[], by simp, .refl⟩
      · exact .inr ⟨_, List.append_assoc .., hlater.step next⟩

/-! ### The visit during which tasks are taken -/

/-- A runner with a current node and tasks that wait is at work. -/
theorem Conduct.dispatching_of_queue (h : Conduct kinds g r a past m)
    (hR : R ∈ m.world.runners[r]?) (hq : R.queue ≠ []) (hc : R.stance.current ≠ none) :
    R.dispatching = true := by
  obtain ⟨R₀, hR₀, hs⟩ := h.runner
  obtain rfl := Option.some.inj (hR.symm.trans hR₀)
  have hsuits := hs.suits
  cases a with
  | resting => exact absurd hsuits.2.1 hq
  | working | entering => exact hsuits.1
  | leaving => exact absurd hsuits.2.2.1 hc
  | exiting => exact absurd hsuits.2.2.1 hc

theorem Conduct.leads (h : Conduct kinds g r a past m) (hkinds : ∀ n e, kinds.build n ≠ .panicked e)
    (hl : Leads kinds m k) : ∃ a past, Conduct kinds g r a past k := by
  induction hl with
  | refl => exact ⟨a, past, h⟩
  | tail _ next ih =>
      obtain ⟨a, past, h⟩ := ih
      obtain ⟨a', h'⟩ := h.next hkinds next
      exact ⟨a', _, h'⟩

/-- On the way to a node, no node is current. -/
theorem Conduct.current_of_leaving (h : Conduct kinds g r a past m)
    (hR : R ∈ m.world.runners[r]?) {target : Option Node}
    (hm : m.stack.head? = some (.leaving r target)) : R.stance.current = none := by
  obtain ⟨stack, hstack⟩ := List.head?_eq_some_iff.1 hm
  obtain ⟨entered, rfl⟩ := h.eq_leaving hstack
  obtain ⟨R₀, hR₀, hs⟩ := h.runner
  obtain rfl := Option.some.inj (hR.symm.trans hR₀)
  exact hs.suits.2.2.1

structure Beyond (visit : Nat) (R : Runner (Script σ)) : Prop where
  visits : visit ≤ R.visits
  current : ∀ c ∈ R.stance.current, visit < c.visit

/-- The visits of a runner have come to a visit, or gone on beyond it because of a task. -/
inductive Progress (visit : Nat) (taken : List (Task × Move)) (R : Runner (Script σ)) : Prop where
  | stays (current : R.stance.current.map Current.visit = some visit) (visits : R.visits = visit)
    (still : ∀ e ∈ taken, e.2.Stays)
  | moved (beyond : Beyond visit R) (why : ∃ e ∈ taken, ¬e.2.Stays)

theorem Beyond.passes {visit : Nat} (h : Beyond visit R) {R' : Runner (Script σ)}
    (hp : Passes r m R R') : Beyond visit R' := by
  cases hp.visit with
  | stays current visits still => exact ⟨visits ▸ h.visits, current ▸ h.current⟩
  | leaves current visits why =>
      refine ⟨visits ▸ h.visits, fun c hc => ?_⟩
      rw [current] at hc
      cases hc
  | enters current visits none_taken way =>
      refine ⟨visits ▸ Nat.le_succ_of_le h.visits, fun c hc => ?_⟩
      rw [Option.mem_def.1 hc, Option.map_some, Option.some.injEq] at current
      rw [current]
      exact Nat.lt_succ_of_le h.visits

theorem Progress.passes {visit : Nat} (h : Progress visit taken R)
    (hconduct : Conduct kinds g r a past m) (hR : R ∈ m.world.runners[r]?) (hq : R.queue ≠ [])
    {R' : Runner (Script σ)} (hp : Passes r m R R') :
    Progress visit (taken ++ (m.taken? r).toList) R' := by
  cases h with
  | moved beyond why =>
      obtain ⟨e, he, hmoves⟩ := why
      exact .moved (beyond.passes hp) ⟨e, List.mem_append_left _ he, hmoves⟩
  | stays hcurrent hvisits hstill =>
      have hsome : R.stance.current ≠ none := by
        intro hnone
        rw [hnone] at hcurrent
        cases hcurrent
      cases hp.visit with
      | stays current visits still =>
          refine .stays (current ▸ hcurrent) (visits.trans hvisits) fun e he => ?_
          rcases List.mem_append.1 he with he | he
          · exact hstill e he
          · exact still e (Option.mem_toList.1 he)
      | leaves current visits why =>
          have hdispatching := hconduct.dispatching_of_queue hR hq hsome
          rcases why with ⟨e, he, hmoves⟩ | hnot | hempty
          · refine .moved ⟨(hvisits ▸ visits).ge, fun c hc => ?_⟩
              ⟨e, List.mem_append_right _ (Option.mem_toList.2 he), hmoves⟩
            rw [current] at hc
            cases hc
          · rw [hdispatching] at hnot
            cases hnot
          · exact absurd hempty hq
      | enters current visits none_taken way =>
          obtain ⟨node, hway⟩ := way
          exact absurd (hconduct.current_of_leaving hR hway) hsome

/-- While the tasks that waited at some moment are taken, the visit of that moment goes on until one
of them moves the runner. -/
theorem Takes.progress {p : Nat → Nat → Script σ → Prop}
    (hbuild : ∀ n e, kinds.build n ≠ .panicked e)
    (hkinds : ∀ n behaviour, kinds.build n = .ready behaviour →
      ∀ v : Visit, (behaviour v).All (p v.runner v.number))
    (hpanics : ∀ r visit e, ¬p r visit (.panic e)) (hc : m.Covered p)
    (hconduct : Conduct kinds g r a past m) (hR : R ∈ m.world.runners[r]?)
    (hlimit : R.limit = none) {visit : Nat}
    (hcurrent : R.stance.current.map Current.visit = some visit) (hvisits : R.visits = visit)
    (h : Takes kinds r m taken n) (hlen : taken.length < R.queue.length) :
    (∃ a past, Conduct kinds g r a past n) ∧
      ∃ R' ∈ n.world.runners[r]?, R'.queue ≠ [] ∧ Progress visit taken R' := by
  induction h with
  | refl =>
      have hq : R.queue ≠ [] := List.ne_nil_of_length_pos hlen
      exact ⟨⟨a, past, hconduct⟩, R, hR, hq, .stays hcurrent hvisits fun e he => by cases he⟩
  | @step taken n k h next ih =>
      have hshorter : taken.length < R.queue.length := by
        rw [List.length_append] at hlen
        exact Nat.lt_of_le_of_lt (Nat.le_add_right _ _) hlen
      obtain ⟨⟨a', past', hconduct'⟩, R', hR', hq, hprogress⟩ := ih hshorter
      obtain ⟨hcn, R₁, hR₁, hlimit', -⟩ := h.queue hbuild hkinds hpanics hc hR hlimit
      obtain rfl := Option.some.inj (hR'.symm.trans hR₁)
      obtain ⟨R'', hR'', hpasses⟩ := exists_passes_of_next hcn hR' hlimit' next
      obtain ⟨-, R₂, hR₂, -, -, given, hgiven⟩ :=
        (h.step next).queue hbuild hkinds hpanics hc hR hlimit
      obtain rfl := Option.some.inj (hR''.symm.trans hR₂)
      obtain ⟨a'', hconduct''⟩ := hconduct'.next hbuild next
      refine ⟨⟨a'', _, hconduct''⟩, R'', hR'', ?_, hprogress.passes hconduct' hR' hq hpasses⟩
      intro hnil
      have hlength := congrArg List.length hgiven
      rw [hnil, List.append_nil, List.length_append, List.length_map] at hlength
      omega

/-! ### What a task that is taken does -/

theorem visit?_of_taken_stay {t : Task} (htaken : m.taken? r = some (t, .stay))
    (hR : R ∈ m.world.runners[r]?) (hlimit : R.limit = none) (hn : Next kinds m k) :
    k.visit? r = m.visit? r := by
  obtain ⟨R', hR', queue, entered, stack, hqueue, hmove, hp, hm⟩ := exists_of_taken? htaken
  obtain rfl := Option.some.inj (hR.symm.trans hR')
  have hk : k = ({ m with stack }.setRunner r { R with queue }).push (.dispatch r entered) := by
    rw [eq_resume_of_next hm hp hn]
    simp only [resume, Option.mem_def.1 hR, dispatch, hqueue, hlimit, Option.any_none,
      Bool.false_eq_true, if_false, ← hmove]
  have hset : { R with queue } ∈ k.world.runners[r]? := by
    rw [hk]
    exact runners_setRunner (m := { m with stack }) hR _
  rw [visit?_eq hset, visit?_eq hR]
  rfl

/-- A task that leads to a node ends the visit that there is. -/
theorem leaving_of_taken_enter {t : Task} {node : Node}
    (htaken : m.taken? r = some (t, .enter node)) (hR : R ∈ m.world.runners[r]?)
    (hlimit : R.limit = none) (hn : Next kinds m k) :
    k.visit? r = none ∧ .leaving r (some node) ∈ k.stack := by
  obtain ⟨R', hR', queue, entered, stack, hqueue, hmove, hp, hm⟩ := exists_of_taken? htaken
  obtain rfl := Option.some.inj (hR.symm.trans hR')
  let n : Machine σ :=
    (({ m with stack } : Machine σ).push (.dispatch r (entered + 1))).push (.leaving r (some node))
  have hk : k = n.leave r { R with queue } := by
    rw [eq_resume_of_next hm hp hn]
    simp only [resume, Option.mem_def.1 hR, dispatch, hqueue, hlimit, Option.any_none,
      Bool.false_eq_true, if_false, ← hmove]
    rfl
  have hleft := runners_leave (n := n) hR { R with queue }
  rw [hk]
  refine ⟨by rw [visit?_eq hleft]; rfl, ?_⟩
  rcases stack_leave n r { R with queue } with h | ⟨s, visit, h⟩
  · rw [h]
    exact List.mem_cons_self
  · rw [h]
    exact List.mem_cons_of_mem _ (List.mem_cons_of_mem _ List.mem_cons_self)

/-- Whatever has happened, a runner without a limit has none. -/
theorem History.covered {p : Nat → Nat → Script σ → Prop}
    (hbuild : ∀ n e, kinds.build n ≠ .panicked e)
    (hkinds : ∀ n behaviour, kinds.build n = .ready behaviour →
      ∀ v : Visit, (behaviour v).All (p v.runner v.number))
    (hpanics : ∀ r visit e, ¬p r visit (.panic e)) (hc : m.Covered p)
    (hR : R ∈ m.world.runners[r]?) (hlimit : R.limit = none) (h : History kinds r m past n) :
    n.Covered p ∧ ∃ R' ∈ n.world.runners[r]?, R'.limit = none := by
  induction h with
  | refl => exact ⟨hc, R, hR, hlimit⟩
  | step h next ih =>
      obtain ⟨hcn, R', hR', hlimit'⟩ := ih
      have hstep := (Takes.refl : Takes kinds r _ [] _).step next
      obtain ⟨hck, R'', hR'', hlimit'', -⟩ := hstep.queue hbuild hkinds hpanics hcn hR' hlimit'
      exact ⟨hck, R'', hR'', hlimit''⟩
  | call h rests s ih => exact ⟨covered_call _ s, ih.2⟩

/-! ### Branches -/

def branchSlot (R : Runner (Script σ)) (key : String) : Nat :=
  if (R.blackboard.bool? key).getD false then 0 else 1

theorem move_jump_eq {R' : Runner (Script σ)} (h : R'.graph = R.graph) (id : NodeId) (slot : Nat) :
    R'.move (.request (.jump id slot)) = R.move (.request (.jump id slot)) := by
  simp only [Runner.move, h]

theorem move_jump_cases (R : Runner (Script σ)) (id : NodeId) (slot : Nat) :
    R.move (.request (.jump id slot)) = .stay ∨
      ∃ node, R.move (.request (.jump id slot)) = .enter node := by
  simp only [Runner.move]
  cases (R.graph.node? id).bind (·.outputAt slot) >>= R.graph.node? with
  | none => exact .inl rfl
  | some node => exact .inr ⟨node, rfl⟩

theorem Progress.visit?_iff {visit : Nat} (h : Progress visit taken R)
    (hR : R ∈ m.world.runners[r]?) :
    (m.visit? r).map Prod.fst = some visit ↔ ∀ e ∈ taken, e.2.Stays := by
  have hvisit : (m.visit? r).map Prod.fst = R.stance.current.map Current.visit := by
    rw [visit?_eq hR, Option.map_map]
    rfl
  rw [hvisit]
  cases h with
  | stays current visits still => exact iff_of_true current still
  | moved beyond why =>
      obtain ⟨e, he, hmoves⟩ := why
      refine iff_of_false (fun hcurrent => ?_) fun hall => hmoves (hall e he)
      obtain ⟨c, hc, hvisit⟩ := Option.map_eq_some_iff.1 hcurrent
      exact (hvisit ▸ beyond.current c hc).false

/-- A branch that has been entered has given its runner a jump, and nothing has been taken. -/
theorem exists_jump_given {id : NodeId} {key : String} {b visit : Nat} {stack : List (Frame σ)}
    (hn : n.stack = .run (Builtin.branch id key ⟨r, b, visit⟩) :: .entering r visit :: stack)
    (hp : n.panic = none) (hR : R ∈ n.world.runners[r]?) (hdispatching : R.dispatching = true)
    (hover : R.lifetime ≠ .over) :
    ∃ n₁ n₂, Next Builtin.registry n n₁ ∧ Next Builtin.registry n₁ n₂ ∧
      n₁.taken? r = none ∧ { R with
        queue := R.queue ++ [.request (.jump id (branchSlot R key))], dispatching := true } ∈
          n₂.world.runners[r]? := by
  let jump : Request := .jump id (branchSlot R key)
  let n₁ : Machine σ :=
    { n with stack := .run (.ask r jump .stop) :: .entering r visit :: stack }
  have hslot : (n.world.outline.runners[r]?.bind (·.blackboard.bool? key)) =
      R.blackboard.bool? key := by
    simp [World.outline, Option.mem_def.1 hR, Runner.map]
  have h₁ : Next Builtin.registry n n₁ := by
    have hstep : Next Builtin.registry n _ := next_resume hn hp
    simp only [resume, Builtin.branch, perform] at hstep
    rw [show ({ n with stack := .entering r visit :: stack } : Machine σ).world = n.world from rfl,
      hslot] at hstep
    exact hstep
  have halive : R.isAlive = true := by simpa [Runner.isAlive] using hover
  have h₂ : Next Builtin.registry n₁ _ := next_resume rfl hp
  simp only [resume, perform, submit] at h₂
  have hR₁ : (({ n₁ with stack := .entering r visit :: stack } : Machine σ).push
      (.run .stop)).world.runners[r]? = some R := hR
  simp only [hR₁, halive, hdispatching, Bool.not_true, Bool.false_eq_true, if_false, if_true] at h₂
  refine ⟨n₁, _, h₁, h₂, taken?_eq_none rfl (fun entered h => by cases h), ?_⟩
  exact runners_setRunner (m := n₁) hR _

/-- A branch that was entered at one moment has given its runner a jump at another, and no task has
been taken in between. -/
structure GivesJump (g : Graph) (r : Nat) (id : NodeId) (key : String) (visit : Nat)
    (R : Runner (Script σ)) (n k : Machine σ) : Prop where
  limit : R.limit = none
  visits : R.visits = visit
  current : R.stance.current.map Current.visit = some visit
  covered : k.Covered fun _ _ => Script.Calm
  conduct : ∃ a past, Conduct Builtin.registry g r a past k
  runner : { R with
    queue := R.queue ++ [.request (.jump id (branchSlot R key))], dispatching := true } ∈
      k.world.runners[r]?
  before : ∀ {taken j}, Takes Builtin.registry r n taken j →
    (j.taken? r = none ∧ j.stack ≠ []) ∨ Takes Builtin.registry r k taken j

section

variable {b b' : Nat} {blackboard : Blackboard} {exposed : Exposed} {id : NodeId} {key : String}
  {visit : Nat} {stack : List (Frame σ)}

theorem exists_givesJump (hm : m.stack = [])
    (hfresh : m.world.runners[r]? =
      some { graph := g, bus := b, limit := none, blackboard, exposed })
    (h : History Builtin.registry r m past n)
    (hn : n.stack = .run (Builtin.branch id key ⟨r, b', visit⟩) :: .entering r visit :: stack)
    (hp : n.panic = none) (hR : R ∈ n.world.runners[r]?) :
    ∃ k, GivesJump g r id key visit R n k := by
  obtain ⟨a, hconduct⟩ := h.conduct Builtin.build_ne_panicked
    (conduct_of_fresh (hm ▸ free_nil) hfresh (Option.some_ne_none 0).symm)
  obtain ⟨hc, R', hR', hlimit⟩ := h.covered (p := fun _ _ => Script.Calm)
    Builtin.build_ne_panicked (fun _ _ => Builtin.calm_of_build)
    (fun _ _ => Script.not_calm_panic) (covered_of_stack_eq_nil hm) hfresh rfl
  obtain rfl := Option.some.inj (hR.symm.trans hR')
  have hmem : .entering r visit ∈ n.stack := by
    rw [hn]
    exact List.mem_cons_of_mem _ List.mem_cons_self
  obtain ⟨-, R', hR', hvisits, hdispatching, hover, hcurrent⟩ := hconduct.current_of_entering hmem
  obtain rfl := Option.some.inj (hR.symm.trans hR')
  obtain ⟨n₁, n₂, h₁, h₂, htaken₁, hR₂⟩ := exists_jump_given hn hp hR hdispatching hover
  have htaken : n.taken? r = none := taken?_eq_none hn fun entered h => by cases h
  obtain ⟨a₁, hconduct₁⟩ := hconduct.next Builtin.build_ne_panicked h₁
  obtain ⟨a₂, hconduct₂⟩ := hconduct₁.next Builtin.build_ne_panicked h₂
  obtain ⟨hc₂, -⟩ := ((Takes.refl.step h₁).step h₂).queue Builtin.build_ne_panicked
    (fun _ _ => Builtin.calm_of_build) (fun _ _ => Script.not_calm_panic) hc hR hlimit
  refine ⟨n₂, hlimit, hvisits, hcurrent, hc₂, ⟨_, _, hconduct₂⟩, hR₂, fun hj => ?_⟩
  rcases hj.of_next h₁ with ⟨rfl, -⟩ | ⟨later, htake, hlater⟩
  · exact .inl ⟨htaken, h₁.stack_ne_nil⟩
  · rcases hlater.of_next h₂ with ⟨rfl, -⟩ | ⟨rest, hrest, hj₂⟩
    · exact .inl ⟨htaken₁, h₂.stack_ne_nil⟩
    · rw [htake, hrest, htaken, htaken₁]
      exact .inr hj₂

/-- The task that is taken when those have been taken that were given before is the jump. -/
theorem GivesJump.in_turn {j : Machine σ} (h : GivesJump g r id key visit R n j) {t : Task}
    {move : Move} (hk : Takes Builtin.registry r n taken k) (hnext : k.taken? r = some (t, move))
    (hlength : taken.length = R.queue.length) :
    taken.map Prod.fst = R.queue ∧ t = .request (.jump id (branchSlot R key)) ∧ move = R.move t ∧
      ((k.visit? r).map Prod.fst = some visit ↔ ∀ e ∈ taken, e.2.Stays) ∧
      ∀ k', Next Builtin.registry k k' → (move = .stay ∧ k'.visit? r = k.visit? r) ∨
        ∃ node, move = .enter node ∧ k'.visit? r = none ∧ .leaving r (some node) ∈ k'.stack := by
  have hj : Takes Builtin.registry r j taken k := by
    rcases h.before hk with ⟨hnone, -⟩ | hj
    · rw [hnone] at hnext
      cases hnext
    · exact hj
  obtain ⟨a, past, hconduct⟩ := h.conduct
  obtain ⟨-, S, hS, hSlimit, hSgraph, given, hgiven⟩ := hj.queue Builtin.build_ne_panicked
    (fun _ _ => Builtin.calm_of_build) (fun _ _ => Script.not_calm_panic) h.covered h.runner h.limit
  obtain ⟨-, S', hS', -, hprogress⟩ := hj.progress Builtin.build_ne_panicked
    (fun _ _ => Builtin.calm_of_build) (fun _ _ => Script.not_calm_panic) h.covered hconduct
    h.runner h.limit h.current h.visits (by simp [hlength])
  obtain rfl := Option.some.inj (hS.symm.trans hS')
  obtain ⟨S', hS', queue, entered, stack, hqueue, rfl, -⟩ := exists_of_taken? hnext
  obtain rfl := Option.some.inj (hS.symm.trans hS')
  rw [List.append_assoc] at hgiven
  obtain ⟨hall, hrest⟩ := List.append_inj hgiven (by simp [hlength])
  rw [hqueue] at hrest
  obtain ⟨rfl, -⟩ := List.cons.inj hrest
  have hmove := move_jump_eq hSgraph id (branchSlot R key)
  refine ⟨hall.symm, rfl, hmove, hprogress.visit?_iff hS, fun k' hk' => ?_⟩
  rcases move_jump_cases S id (branchSlot R key) with hstay | ⟨node, hnode⟩
  · rw [hstay] at hnext
    exact .inl ⟨hstay, visit?_of_taken_stay hnext hS hSlimit hk'⟩
  · rw [hnode] at hnext
    exact .inr ⟨node, hnode, leaving_of_taken_enter hnext hS hSlimit hk'⟩

/-- If the session ends, that task has been taken. -/
theorem GivesJump.exists_taken {e j : Machine σ} (h : GivesJump g r id key visit R n j)
    (he : Ends Builtin.registry n e) : ∃ k taken t move, Takes Builtin.registry r n taken k ∧
      k.taken? r = some (t, move) ∧ taken.length = R.queue.length ∧ Leads Builtin.registry k e := by
  obtain ⟨hl, hstack⟩ := ends_iff.1 he
  obtain ⟨taken, htakes⟩ := exists_takes_of_leads hl
  have hj : Takes Builtin.registry r j taken e := by
    rcases h.before htakes with ⟨-, hne⟩ | hj
    · exact absurd hstack hne
    · exact hj
  obtain ⟨-, S, hS, -, -, given, hgiven⟩ := hj.queue Builtin.build_ne_panicked
    (fun _ _ => Builtin.calm_of_build) (fun _ _ => Script.not_calm_panic) h.covered h.runner h.limit
  -- Where the session ends, nothing is left in the queue.
  have hempty : S.queue = [] := by
    obtain ⟨a, past, hconduct⟩ := h.conduct
    obtain ⟨a', past', hconduct'⟩ := hconduct.leads Builtin.build_ne_panicked hj.leads
    obtain rfl := hconduct'.eq_resting hstack
    obtain ⟨S', hS', hs⟩ := hconduct'.runner
    obtain rfl := Option.some.inj (hS.symm.trans hS')
    exact hs.suits.2.1
  have hlength := congrArg List.length hgiven
  simp only [hempty, List.append_nil, List.length_append, List.length_map,
    List.length_singleton] at hlength
  have hlt : R.queue.length < taken.length := by omega
  obtain ⟨k, hk, hnext, hke⟩ := htakes.exists_moment (List.getElem?_eq_getElem hlt)
  exact ⟨k, _, _, _, hk, hnext, by rw [List.length_take]; omega, hke⟩

/-- A branch asks its runner for a jump, which is taken when the tasks have been taken that were
given before; and if the session ends, it has been. It leads where the slot leads, from the visit
to the branch if all tasks before it let the runner stay, and from wherever the runner is if not. -/
theorem branch_jumps_in_turn (hm : m.stack = [])
    (hfresh : m.world.runners[r]? =
      some { graph := g, bus := b, limit := none, blackboard, exposed })
    (h : History Builtin.registry r m past n)
    (hn : n.stack = .run (Builtin.branch id key ⟨r, b', visit⟩) :: .entering r visit :: stack)
    (hp : n.panic = none) (hR : R ∈ n.world.runners[r]?) :
    (∀ k taken t move, Takes Builtin.registry r n taken k → k.taken? r = some (t, move) →
      taken.length = R.queue.length →
      taken.map Prod.fst = R.queue ∧ t = .request (.jump id (branchSlot R key)) ∧
      move = R.move t ∧
      ((k.visit? r).map Prod.fst = some visit ↔ ∀ e ∈ taken, e.2.Stays) ∧
      ∀ k', Next Builtin.registry k k' → (move = .stay ∧ k'.visit? r = k.visit? r) ∨
        ∃ node, move = .enter node ∧ k'.visit? r = none ∧ .leaving r (some node) ∈ k'.stack) ∧
    ∀ e, Ends Builtin.registry n e → ∃ k taken t move, Takes Builtin.registry r n taken k ∧
      k.taken? r = some (t, move) ∧ taken.length = R.queue.length ∧ Leads Builtin.registry k e := by
  obtain ⟨j, hj⟩ := exists_givesJump hm hfresh h hn hp hR
  exact ⟨fun _ _ _ _ hk hnext hlength => hj.in_turn hk hnext hlength,
    fun _ he => hj.exists_taken he⟩

end

def detourGraph : Graph where
  start := some ⟨"a"⟩
  nodes :=
    [{ kind := "raise_event", id := ⟨"a"⟩
       properties := ⟨[("key", .string "e")], by simp [Ascending]⟩ },
      { kind := "branch", id := ⟨"b"⟩, outputs := [none, some ⟨"c"⟩]
        properties := ⟨[("key", .string "f")], by simp [Ascending]⟩ },
      { kind := "note", id := ⟨"c"⟩ }]

def detour : Machine Unit where
  world :=
    { runners := [{ graph := detourGraph, bus := 0, limit := none }]
      buses := [{ subscribers := [⟨"e", 1, .ask 0 (.goTo ⟨"b"⟩) (.ask 0 .stop .stop)⟩] }] }
  data := ()

def detourBranch : Machine Unit where
  world :=
    { runners := [{ graph := detourGraph, bus := 0, limit := none
                    current := some ⟨⟨"b"⟩, 2, some .stop⟩, visits := 2, armed := [2]
                    queue := [.request .stop, .done 1], dispatching := true }]
      buses := detour.world.buses }
  data := ()
  stack := [.run (Builtin.branch ⟨"b"⟩ "f" ⟨0, 0, 2⟩), .entering 0 2, .dispatch 0 2, .run .stop]

theorem branch_jumps_detour : ∃ past k taken node,
    History Builtin.registry 0 detour past detourBranch ∧
      Takes Builtin.registry 0 detourBranch taken k ∧
      taken.map Prod.fst = [.request .stop, .done 1] ∧ k.visit? 0 = none ∧
      ∀ k', Next Builtin.registry k k' → .leaving 0 (some node) ∈ k'.stack := by
  have hn : (detour.call (.start 0 fun _ => .stop)).after Builtin.registry 16 =
      some detourBranch := rfl
  obtain ⟨k, hk, hlength, t, node, hnext, hidle⟩ : ∃ k,
      detourBranch.after Builtin.registry 9 = some k ∧
      ((List.range 9).flatMap fun i =>
        ((detourBranch.after Builtin.registry i).bind (taken? 0)).toList).length = 2 ∧
      ∃ t node, k.taken? 0 = some (t, .enter node) ∧ k.visit? 0 = none :=
    ⟨_, rfl, rfl, _, _, rfl, rfl⟩
  obtain ⟨past, hhistory⟩ := ((History.refl : History Builtin.registry 0 _ _ detour).call rfl
    (.start 0 fun _ => .stop)).leads (takes_of_after (r := 0) hn).leads
  have htakes := takes_of_after (r := 0) hk
  obtain ⟨hall, -, -, -, hleaves⟩ := (branch_jumps_in_turn rfl rfl hhistory rfl rfl rfl).1 k _ t
    (.enter node) htakes hnext hlength
  refine ⟨past, k, _, node, hhistory, htakes, hall, hidle, fun k' hk' => ?_⟩
  rcases hleaves k' hk' with ⟨hstay, -⟩ | ⟨node', hnode, -, hmem⟩
  · cases hstay
  · obtain rfl := Move.enter.inj hnode
    exact hmem

end Machine

end StoryGraph
