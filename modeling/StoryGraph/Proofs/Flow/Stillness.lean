import StoryGraph.Proofs.Flow.DeadEnds

/-!
# Flows that are halted

A halted flow may have a node that is still subscribed, waits for a quest, or has its chance to say
that it is done. What keeps the flow where it is is that the word of such a node would not lead
anywhere (`Runner.Halting`): it was halted because there is no way on, or the node was refused and
has no word to give.

So whatever goes on in a session, nothing moves a halted flow, or changes its blackboard, but those
who do so from outside (`Machine.Record.halted_stays`). A node may ask its own runner for a jump,
but it does so when it is entered, and a flow that is halted enters no node.
-/

namespace StoryGraph

variable {σ : Type}

namespace Runner

section Halting

variable {κ : Type _} {R R' : Runner κ}

theorem move_congr (hgraph : R'.graph = R.graph) (hcurrent : R'.stance.current = R.stance.current)
    (t : Task) : R'.move t = R.move t := by
  have honward : R'.stance.onward = R.stance.onward := by
    have hgraph' : R'.stance.graph = R.stance.graph := hgraph
    rw [onward, onward, hgraph', hcurrent]
  rw [← R'.move_stance, ← R.move_stance]
  cases t with
  | request request =>
      cases request with
      | advance => exact honward
      | goTo id | jump source slot => simp only [move, stance, map, hgraph]
      | stop => rfl
  | done visit => simp only [move, honward, hcurrent]

theorem onward_of_move {t : Task} (h : R.move t = .halt) : R.onward = .halt := by
  cases t with
  | request request =>
      cases request with
      | advance => exact h
      | goTo id => exact absurd h (ne_halt_of_elim (by simp))
      | jump source slot => exact absurd h (ne_halt_of_elim (by simp))
      | stop => cases h
  | done visit =>
      simp only [move] at h
      split at h
      · exact h
      · cases h

/-- Where a flow is halted there is no way on, or the node has been refused; and a node that has
been refused does not say that it is done. -/
structure Halting (R : Runner κ) : Prop where
  stuck : R.halted = true → ∀ c ∈ R.stance.current, R.onward = .halt ∨ c.leave = none
  mute : ∀ c ∈ R.stance.current, c.leave = none → c.visit ∉ R.words

theorem halting_of_idle (h : R.current = none) : R.Halting := by
  have hnone : R.stance.current = none := by simp [stance, map, h]
  exact ⟨fun _ c hc => by simp [hnone] at hc, fun c hc => by simp [hnone] at hc⟩

theorem Halting.of_eq (h : R.Halting) (hgraph : R'.graph = R.graph)
    (hcurrent : R'.stance.current = R.stance.current)
    (hhalted : R'.halted = true → R.halted = true) (hwords : R'.words ⊆ R.words) :
    R'.Halting := by
  have honward : R'.onward = R.onward := move_congr hgraph hcurrent (.request .advance)
  constructor
  · intro hhalted' c hc
    rw [honward]
    exact h.stuck (hhalted hhalted') c (hcurrent ▸ hc)
  · intro c hc hleave hmem
    exact h.mute c (hcurrent ▸ hc) hleave (hwords hmem)

theorem halting_of_begun {node : Node} {leave : Option κ} {visit : Nat}
    (hcurrent : R.current = some ⟨node.id, visit, leave⟩)
    (hhalted : R.halted = true → leave = none) (hwords : leave = none → visit ∉ R.words) :
    R.Halting := by
  have hstance : R.stance.current = some ⟨node.id, visit, leave.map fun _ => ()⟩ := by
    simp [stance, map, hcurrent]
  constructor
  · intro h c hc
    rw [hstance] at hc
    obtain rfl := Option.some.inj hc
    exact .inr (Option.map_eq_none_iff.2 (hhalted h))
  · intro c hc hleave
    rw [hstance] at hc
    obtain rfl := Option.some.inj hc
    exact hwords (Option.map_eq_none_iff.1 hleave)

/-- No word of a halted flow leads anywhere. -/
theorem Halting.stays (h : R.Halting) (hhalted : R.halted = true) {visit : Nat}
    (hword : visit ∈ R.words) : (R.move (.done visit)).Stays := by
  simp only [move]
  split
  · rename_i hany
    obtain ⟨c, hc, hvisit⟩ := (Option.any_eq_true _ _).1 hany
    have hmem : (⟨c.id, c.visit, c.leave.map fun _ => ()⟩ : Current Unit) ∈ R.stance.current := by
      simp [stance, map, Option.mem_def.1 hc]
    rcases h.stuck hhalted _ hmem with hhalt | hnone
    · rw [hhalt]
      trivial
    · have heq : c.visit = visit := by simpa using hvisit
      exact absurd (heq ▸ hword) (h.mute _ hmem hnone)
  · trivial

end Halting

variable {kinds : Registry (Behaviour σ)} {r : Nat} {f : Frame σ} {R R' S : Runner (Script σ)}

/-- A visit that begins has no words from before. -/
theorem Hears.not_mem_words (h : R.Hears []) : R.visits + 1 ∉ R.words := fun hmem =>
  Nat.not_succ_le_self _ (h.old _ hmem)

theorem words_subset_of_queue {queue : List Task} {task : Task} (h : R.queue = task :: queue) :
    ({ R with queue } : Runner (Script σ)).words ⊆ R.words := by
  intro visit hv
  rcases List.mem_append.1 hv with hv | hv
  · exact List.mem_append_left _ hv
  · refine List.mem_append_right _ ?_
    rw [h, List.filterMap_cons]
    split
    · exact hv
    · exact List.mem_cons_of_mem _ hv

theorem mem_words_given {task : Task} {visit : Nat} :
    visit ∈ (R.given task).words ↔ visit ∈ R.words ∨ task = .done visit := by
  have hword : visit ∈ [task].filterMap Task.word? ↔ task = .done visit := by
    cases task <;> simp [Task.word?, eq_comm]
  rw [words, words, List.mem_append, List.mem_append, ← hword, or_assoc, given,
    List.filterMap_append, List.mem_append]

theorem Halting.given (h : R.Halting) {task : Task} (hword : task.word? = none) :
    (R.given task).Halting := by
  refine h.of_eq rfl rfl id fun visit hv => ?_
  rcases mem_words_given.1 hv with hv | rfl
  · exact hv
  · cases hword

/-- Whatever becomes of a flow without a limit, it stays in order. -/
theorem Halting.changes (h : R.Halting) (hlimit : R.limit = none) (hears : R.Hears [])
    (hc : R.Changes kinds r f R') : R'.Halting := by
  cases hc with
  | same => exact h
  | starts next entry => exact h.given rfl
  | asks request next => exact h.given rfl
  | @speaks visit next armed =>
      refine h.of_eq rfl rfl id fun v hv => ?_
      rcases mem_words_given.1 hv with hv | hv
      · exact (List.erase_sublist.append_right _).subset hv
      · obtain rfl := Task.done.inj hv
        exact List.mem_append_left _ armed
  | wastes next armed gone =>
      exact h.of_eq rfl rfl id (List.erase_sublist.append_right _).subset
  | lays visit leave next =>
      have hstance := congrArg Runner.current (Machine.stance_onLeave R visit leave)
      exact h.of_eq rfl hstance id fun _ hv => hv
  | sets | releases | rests => exact h.of_eq rfl rfl id fun _ hv => hv
  | ends | expires | departs => exact halting_of_idle rfl
  | quits queue reached | collapses queue reached =>
      rw [hlimit] at reached
      cases reached
  | stays room first move => exact h.of_eq rfl rfl id (words_subset_of_queue first)
  | @halts entered room task queue first move =>
      have honward := onward_of_move move
      exact ⟨fun _ c hc => .inl honward, fun c hc hleave hmem =>
        h.mute c hc hleave (words_subset_of_queue first hmem)⟩
  | relaxes => exact h.of_eq rfl rfl (fun hf => by cases hf) fun _ hv => hv
  | refused build => exact halting_of_begun rfl (fun _ => rfl) fun _ => hears.not_mem_words
  | breaks build => exact halting_of_begun rfl (fun hf => by cases hf) fun _ => hears.not_mem_words
  | enters build => exact halting_of_begun rfl (fun hf => by cases hf) fun hf => by cases hf

end Runner

/-! ### Who is asked for what -/

def Script.commands? : Script σ → Option Nat
  | .start r _ | .ask r _ _ | .release r _ => some r
  | _ => none

def Script.writes? : Script σ → Option Nat
  | .set r _ _ _ => some r
  | _ => none

/-- A step that is no panic and has to do with no runner but one. -/
structure Script.Minds (r : Nat) (s : Script σ) : Prop where
  calm : s.Calm
  commands : ∀ r', s.commands? = some r' → r' = r
  writes : ∀ r', s.writes? = some r' → r' = r

theorem Builtin.Does.minds {act : Walk.Act} {v : Visit} {s : Script σ} (h : Does act v s) :
    s.Minds v.runner := by
  refine ⟨h.calm, fun r hr => ?_, fun r hr => ?_⟩
  · cases h with
    | enter id => cases act <;> cases hr
    | wait w | leave w => cases w <;> cases hr
    | ask request => exact (Option.some.inj hr).symm
    | _ => cases hr
  · cases h with
    | enter id =>
        cases act with
        | set key value => exact (Option.some.inj hr).symm
        | _ => cases hr
    | wait w | leave w => cases w <;> cases hr
    | _ => cases hr

/-- A flow without a limit that is halted where nothing is going on. -/
structure Runner.Rests {κ : Type _} (R : Runner κ) : Prop where
  halting : R.Halting
  halted : R.halted = true
  limit : R.limit = none
  lifetime : R.lifetime ≠ .released
  visit : R.lifetime ≠ .over → R.stance.current ≠ none
  queue : R.queue = []

/-- A halted flow goes on as it is, with no task but words of before. -/
structure Runner.StandsStill {κ : Type _} (R R' : Runner κ) : Prop where
  graph : R'.graph = R.graph
  visit : R'.stance.current = R.stance.current
  halted : R'.halted = true
  visits : R'.visits = R.visits
  limit : R'.limit = R.limit
  lifetime : R'.lifetime = R.lifetime
  armed : R'.armed ⊆ R.armed
  queue : ∀ t ∈ R'.queue, ∃ visit ∈ R.words, t = .done visit

namespace Runner.StandsStill

variable {kinds : Registry (Behaviour σ)} {r : Nat} {f : Frame σ} {R R₁ R' : Runner (Script σ)}

theorem of_rests (h : R.Rests) : R.StandsStill R :=
  ⟨rfl, rfl, h.halted, rfl, rfl, rfl, fun _ hv => hv, fun t ht => by simp [h.queue] at ht⟩

theorem stays (h : R.StandsStill R₁) (hR : R.Rests) {t : Task} (ht : t ∈ R₁.queue) :
    (R₁.move t).Stays := by
  obtain ⟨visit, hword, rfl⟩ := h.queue t ht
  rw [move_congr h.graph h.visit]
  exact hR.halting.stays hR.halted hword

/-- Whatever becomes of a halted flow that nobody commands, it stays as it is. -/
theorem changes (h : R.StandsStill R₁) (hR : R.Rests) (hc : R₁.Changes kinds r f R')
    (hfree : ∀ s, f = .run s → s.commands? ≠ some r) (hway : ∀ target, f ≠ .leaving r target) :
    R.StandsStill R' := by
  have hqueue : ∀ {task : Task} {queue : List Task}, R₁.queue = task :: queue →
      ∀ t ∈ queue, ∃ visit ∈ R.words, t = .done visit := fun first t ht =>
    h.queue t (first ▸ List.mem_cons_of_mem _ ht)
  cases hc with
  | same => exact h
  | starts | asks | releases | ends => exact absurd rfl (hfree _ rfl)
  | @speaks visit next armed =>
      have hword : visit ∈ R.words := List.mem_append_left _ (h.armed armed)
      refine ⟨h.graph, h.visit, h.halted, h.visits, h.limit, h.lifetime,
        fun v hv => h.armed (List.mem_of_mem_erase hv), fun t ht => ?_⟩
      rcases List.mem_append.1 ht with ht | ht
      · exact h.queue t ht
      · exact ⟨visit, hword, List.mem_singleton.1 ht⟩
  | wastes next armed gone =>
      exact ⟨h.graph, h.visit, h.halted, h.visits, h.limit, h.lifetime,
        fun v hv => h.armed (List.mem_of_mem_erase hv), h.queue⟩
  | lays visit leave next =>
      have hstance := congrArg Runner.current (Machine.stance_onLeave R₁ visit leave)
      exact ⟨h.graph, hstance.trans h.visit, h.halted, h.visits, h.limit, h.lifetime, h.armed,
        h.queue⟩
  | sets | rests =>
      exact ⟨h.graph, h.visit, h.halted, h.visits, h.limit, h.lifetime, h.armed, h.queue⟩
  | expires entered queue released => exact absurd (h.lifetime.symm.trans released) hR.lifetime
  | quits queue reached | collapses queue reached =>
      rw [h.limit, hR.limit] at reached
      cases reached
  | stays room first move =>
      exact ⟨h.graph, h.visit, h.halted, h.visits, h.limit, h.lifetime, h.armed, hqueue first⟩
  | halts room first move =>
      exact ⟨h.graph, h.visit, rfl, h.visits, h.limit, h.lifetime, h.armed, hqueue first⟩
  | departs room first move =>
      exact absurd (h.stays hR (first ▸ List.mem_cons_self)) move
  | relaxes | refused | breaks | enters => exact absurd rfl (hway _)

end Runner.StandsStill

theorem Runner.Changes.blackboard {kinds : Registry (Behaviour σ)} {r : Nat} {f : Frame σ}
    {R R' : Runner (Script σ)} (h : R.Changes kinds r f R')
    (hfree : ∀ s, f = .run s → s.writes? ≠ some r) : R'.blackboard = R.blackboard := by
  cases h with
  | sets => exact absurd rfl (hfree _ rfl)
  | _ => rfl

namespace Machine

variable {g : Graph} {r b : Nat} {m n k : Machine σ} {past later : List (Machine σ)}
  {R R' : Runner (Script σ)} {blackboard : Blackboard} {exposed : Exposed}

def outside? (m : Machine σ) : Option (Script σ) :=
  match m.panic, m.stack with
  | none, .run _ :: .entering _ _ :: _ => none
  | none, .run s :: _ => some s
  | _, _ => none

/-- A runner without a limit in whose session no node panics or meddles with others. -/
structure Guided (g : Graph) (r : Nat) (m : Machine σ) : Prop where
  covered : m.Covered fun r _ => Script.Minds r
  conduct : ∃ a past, Conduct Builtin.registry g r a past m
  runner : ∃ R ∈ m.world.runners[r]?, R.limit = none ∧ R.Hears [] ∧ R.Halting

theorem guided_of_fresh (hm : m.stack = []) (hfresh : m.world.runners[r]? =
    some { graph := g, bus := b, limit := none, blackboard, exposed }) : Guided g r m :=
  ⟨covered_of_stack_eq_nil hm,
    ⟨_, _, conduct_of_fresh (hm ▸ free_nil) hfresh (Option.some_ne_none 0).symm⟩, _, hfresh, rfl,
    ⟨List.nodup_nil, fun _ hv => by cases hv⟩, Runner.halting_of_idle rfl⟩

theorem Guided.next (h : Guided g r m) (hn : Next Builtin.registry m n) : Guided g r n := by
  obtain ⟨a, past, hconduct⟩ := h.conduct
  obtain ⟨a', hconduct'⟩ := hconduct.next Builtin.build_ne_panicked hn
  obtain ⟨R, hR, hlimit, hears, hhalting⟩ := h.runner
  obtain ⟨R', hR', hturns⟩ := exists_turns_of_next hR hlimit hn
  obtain ⟨f, below, R'', -, hR'', hchanges, -⟩ := h.covered.exists_changes hR hn
  obtain rfl := Option.some.inj (hR'.symm.trans hR'')
  refine ⟨?_, ⟨a', _, hconduct'⟩, R', hR', hchanges.keeps.limit.trans hlimit,
    (hears.turns hturns).unsaid, hhalting.changes hlimit hears hchanges⟩
  refine h.covered.next Builtin.build_ne_panicked (fun n behaviour hbuild r R hR visit => ?_)
    (fun _ _ e hminds => hminds.calm e rfl) hn
  exact Builtin.all_of_build hbuild ⟨r, R.bus, visit⟩ fun _ _ hs => hs.minds

theorem Guided.call (h : Guided g r m) (hm : m.stack = []) (s : Script σ) :
    Guided g r (m.call s) := by
  obtain ⟨a, past, hconduct⟩ := h.conduct
  exact ⟨covered_call m s, ⟨a, past, hconduct.call hm s⟩, h.runner⟩

theorem Record.guided (h : Record Builtin.registry m past n) (hm : Guided g r m) :
    Guided g r n := by
  induction h with
  | refl => exact hm
  | step _ next ih => exact ih.next next
  | call _ rests s ih => exact ih.call rests s

theorem Guided.rests (h : Guided g r m) (hm : m.stack = []) (hR : R ∈ m.world.runners[r]?)
    (hhalted : R.halted = true) : R.Rests := by
  obtain ⟨R', hR', hlimit, -, hhalting⟩ := h.runner
  obtain rfl := Option.some.inj (hR.symm.trans hR')
  obtain ⟨a, past, hconduct⟩ := h.conduct
  obtain rfl := hconduct.eq_resting hm
  obtain ⟨R', hR', hstanding⟩ := hconduct.runner
  obtain rfl := Option.some.inj (hR.symm.trans hR')
  obtain ⟨-, hqueue, hreleased, -, hat⟩ := hstanding.suits
  refine ⟨hhalting, hhalted, hlimit, hreleased, fun hover => ?_, hqueue⟩
  exact Option.isSome_iff_ne_none.1 (hat (Lifetime.eq_kept hreleased hover) hhalted)

/-- A halted flow is as it was, and none of its nodes is being entered. -/
structure Still (g : Graph) (r : Nat) (R : Runner (Script σ)) (m : Machine σ) : Prop where
  guided : Guided g r m
  runner : ∃ R' ∈ m.world.runners[r]?, R.StandsStill R'
  out : ∀ visit, .entering r visit ∉ m.stack

theorem Still.ne_leaving (h : Still g r R m) (hrests : R.Rests) {f : Frame σ}
    {below : List (Frame σ)} (hm : m.stack = f :: below) (target : Option Node) :
    f ≠ .leaving r target := by
  rintro rfl
  obtain ⟨R', hR', hstill⟩ := h.runner
  obtain ⟨a, past, hconduct⟩ := h.guided.conduct
  obtain ⟨entered, rfl⟩ := hconduct.eq_leaving hm
  obtain ⟨R₁, hR₁, hstanding⟩ := hconduct.runner
  obtain rfl := Option.some.inj (hR'.symm.trans hR₁)
  obtain ⟨-, hover, hnone, -⟩ := hstanding.suits
  have halive : R.lifetime ≠ .over := fun hl => hover (hstill.lifetime.trans hl)
  exact hrests.visit halive (hstill.visit ▸ hnone)

/-- What the script that runs has to do with the runner it has from outside. -/
theorem Still.eq_outside (h : Still g r R m) {s : Script σ} {below : List (Frame σ)}
    (hm : m.stack = .run s :: below) (hs : s.commands? = some r ∨ s.writes? = some r) :
    m.outside? = some s := by
  have hp : m.panic = none := by
    by_contra hp
    cases h.guided.covered.caught hp (.run s) (by rw [hm]; rfl)
  unfold outside?
  rw [hm, hp]
  cases below with
  | nil => rfl
  | cons f below =>
      cases f with
      | run | deliver | dispatch | exiting | leaving => rfl
      | entering r' visit =>
          -- A node that has been entered has to do with its own runner.
          have hcovers := (List.isChain_cons_cons.1 (hm ▸ h.guided.covered.chain)).1
          obtain ⟨s', hs', hall⟩ := hcovers
          obtain rfl := Frame.run.inj hs'
          have hr : r = r' := hs.elim (hall.self.commands r) (hall.self.writes r)
          subst hr
          exact absurd (by simp [hm]) (h.out visit)

/-- A step changes nothing of a halted flow unless it is asked for from outside. -/
theorem Still.next (h : Still g r R m) (hrests : R.Rests) (hn : Next Builtin.registry m n)
    (hfree : m.outside?.bind Script.commands? ≠ some r) : Still g r R n := by
  obtain ⟨R₁, hR₁, hstill⟩ := h.runner
  obtain ⟨f, below, R', hm, hR', hchanges, -⟩ := h.guided.covered.exists_changes hR₁ hn
  have hstill' : R.StandsStill R' := by
    refine hstill.changes hrests hchanges (fun s hs hcommands => hfree ?_)
      (h.ne_leaving hrests hm)
    rw [h.eq_outside (hs ▸ hm) (.inl hcommands), Option.bind_some, hcommands]
  have hguided := h.guided.next hn
  refine ⟨hguided, ⟨R', hR', hstill'⟩, fun visit hmem => ?_⟩
  obtain ⟨new, hstack, hnew⟩ := exists_new_of_next hm hn
  rcases List.mem_append.1 (hstack ▸ hmem) with hvisit | hvisit
  · -- Whoever enters a node is in a new visit.
    obtain ⟨R₂, hR₂, rfl⟩ := hnew r visit hvisit
    obtain rfl := Option.some.inj (hR₁.symm.trans hR₂)
    obtain ⟨a, past, hconduct⟩ := hguided.conduct
    obtain ⟨-, R₂, hR₂, hvisits, -⟩ := hconduct.current_of_entering hmem
    obtain rfl := Option.some.inj (hR'.symm.trans hR₂)
    rw [hstill'.visits, hstill.visits] at hvisits
    exact Nat.succ_ne_self _ hvisits.symm
  · exact h.out visit (hm ▸ List.mem_cons_of_mem f hvisit)

/-- A step writes nothing on the blackboard of a halted flow unless it is asked to from outside. -/
theorem Still.board_next (h : Still g r R m) (hn : Next Builtin.registry m n)
    {R₁ : Runner (Script σ)} (hR₁ : R₁ ∈ m.world.runners[r]?) (hR' : R' ∈ n.world.runners[r]?)
    (hfree : m.outside?.bind Script.writes? ≠ some r) : R'.blackboard = R₁.blackboard := by
  obtain ⟨f, below, R₂, hm, hR₂, hchanges, -⟩ := h.guided.covered.exists_changes hR₁ hn
  obtain rfl := Option.some.inj (hR'.symm.trans hR₂)
  refine hchanges.blackboard fun s hs hwrites => hfree ?_
  rw [h.eq_outside (hs ▸ hm) (.inr hwrites), Option.bind_some, hwrites]

theorem Record.still (h : Record Builtin.registry n later k) (hn : Still g r R n)
    (hrests : R.Rests) (hR : R ∈ n.world.runners[r]?)
    (hfree : ∀ i ∈ later, i.outside?.bind Script.commands? ≠ some r) :
    Still g r R k ∧ ((∀ i ∈ later, i.outside?.bind Script.writes? ≠ some r) →
      ∀ R' ∈ k.world.runners[r]?, R'.blackboard = R.blackboard) := by
  induction h with
  | refl =>
      refine ⟨hn, fun _ R' hR' => ?_⟩
      rw [Option.some.inj (hR'.symm.trans hR)]
  | @step later j k _ next ih =>
      obtain ⟨hj, hboard⟩ := ih fun i hi => hfree i (List.mem_cons_of_mem j hi)
      refine ⟨hj.next hrests next (hfree j List.mem_cons_self), fun hwrites R' hR' => ?_⟩
      obtain ⟨R₁, hR₁, -⟩ := hj.runner
      rw [hj.board_next next hR₁ hR' (hwrites j List.mem_cons_self)]
      exact hboard (fun i hi => hwrites i (List.mem_cons_of_mem j hi)) R₁ hR₁
  | call _ rests s ih =>
      obtain ⟨hj, hboard⟩ := ih hfree
      refine ⟨⟨hj.guided.call rests s, hj.runner, fun visit hmem => ?_⟩, hboard⟩
      cases List.mem_singleton.1 hmem

/-- A halted flow does not move by itself. From a moment on at which nothing is going on and a flow
is halted, whatever is raised, forgotten, offered, completed, attached or released, and whoever says
that a node is done, the flow stays halted in the same visit to the same node, and its blackboard
stays what it is, until somebody from outside commands the runner or writes on its blackboard. -/
theorem Record.halted_stays (hm : m.stack = []) (hfresh : m.world.runners[r]? =
      some { graph := g, bus := b, limit := none, blackboard, exposed })
    (h : Record Builtin.registry m past n) (hn : n.stack = [])
    (hR : n.world.runners[r]? = some R) (hhalted : R.halted = true)
    (hlater : Record Builtin.registry n later k)
    (hfree : ∀ i ∈ later, i.outside?.bind Script.commands? ≠ some r) :
    ∃ R', k.world.runners[r]? = some R' ∧ R'.halted = true ∧ R'.visits = R.visits ∧
      (R'.current.map fun c => (c.visit, c.id)) = R.current.map (fun c => (c.visit, c.id)) ∧
      ((∀ i ∈ later, i.outside?.bind Script.writes? ≠ some r) → R'.blackboard = R.blackboard) := by
  have hguided := h.guided (guided_of_fresh hm hfresh)
  have hrests := hguided.rests hn hR hhalted
  have hstill : Still g r R n :=
    ⟨hguided, ⟨R, hR, .of_rests hrests⟩, fun visit hmem => by simp [hn] at hmem⟩
  obtain ⟨hk, hboard⟩ := hlater.still hstill hrests hR hfree
  obtain ⟨R', hR', hsame⟩ := hk.runner
  refine ⟨R', hR', hsame.halted, hsame.visits, ?_, fun hwrites => hboard hwrites R' hR'⟩
  have hvisit := congrArg (Option.map fun c : Current Unit => (c.visit, c.id)) hsame.visit
  simpa [Runner.stance, Runner.map, Function.comp_def] using hvisit

def parlour : Machine Unit where
  world :=
    { runners :=
        [{ graph := { start := some ⟨"a"⟩
                      nodes :=
                        [{ kind := "wait_event", id := ⟨"a"⟩
                           properties := ⟨[("key", .string "bell")], by simp [Ascending]⟩ }] }
           bus := 0, limit := none }]
      buses := [{}] }
  data := ()

def sitDown : Script Unit := .start 0 fun _ => .ask 0 .advance .stop

def callers : Script Unit := .raise 0 "bell" (.done 0 1 fun _ => .raise 0 "bell" .stop)

theorem halted_stays_parlour : ∃ past n later k R R', Record Builtin.registry parlour past n ∧
    n.stack = [] ∧ n.world.runners[0]? = some R ∧ R.halted = true ∧ R.armed = [1] ∧
    Record Builtin.registry n later k ∧ k.world.runners[0]? = some R' ∧ R'.armed = [] ∧
    R'.halted = true ∧ R'.visits = R.visits ∧ R'.blackboard = R.blackboard := by
  obtain ⟨n, R, hn, hstack, hR, hhalted, harmed, k, R₁, hk, hR₁, hspent, hfree⟩ : ∃ n R,
      (parlour.call sitDown).after Builtin.registry 12 = some n ∧ n.stack = [] ∧
      n.world.runners[0]? = some R ∧ R.halted = true ∧ R.armed = [1] ∧ ∃ k R₁,
      (n.call callers).after Builtin.registry 14 = some k ∧ k.world.runners[0]? = some R₁ ∧
      R₁.armed = [] ∧ (((n.call callers).moments Builtin.registry 14 ++ []).all fun i =>
        (i.outside?.bind Script.commands?).isNone && (i.outside?.bind Script.writes?).isNone) =
        true :=
    ⟨_, _, rfl, rfl, rfl, rfl, rfl, _, _, rfl, rfl, rfl, rfl⟩
  have h := ((Record.refl : Record Builtin.registry parlour [] parlour).call rfl sitDown).after hn
  have hlater := ((Record.refl : Record Builtin.registry n [] n).call hstack callers).after hk
  have hnobody : ∀ i ∈ (n.call callers).moments Builtin.registry 14 ++ [],
      i.outside?.bind Script.commands? = none ∧ i.outside?.bind Script.writes? = none := by
    intro i hi
    simpa using List.all_eq_true.1 hfree i hi
  obtain ⟨R', hR', hhalted', hvisits, -, hboard⟩ := h.halted_stays rfl rfl hstack hR hhalted hlater
    fun i hi => by simp [(hnobody i hi).1]
  obtain rfl := Option.some.inj (hR₁.symm.trans hR')
  exact ⟨_, n, _, k, R, R₁, h, hstack, hR, hhalted, harmed, hlater, hR₁, hspent, hhalted', hvisits,
    hboard fun i hi => by simp [(hnobody i hi).2]⟩

end Machine

end StoryGraph
