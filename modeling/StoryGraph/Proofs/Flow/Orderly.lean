import StoryGraph.Proofs.Flow.Waiting

/-!
# Sessions stay orderly

A runner whose limit lets it enter nodes conducts itself (`Machine.Conduct`); one with the limit
zero never enters a node at all (`Machine.Barred`), and one that is yet to be made does nothing
(`Machine.Absent`). In any case a node is called because it is entered only while its runner is at
work, and one of its nodes at a time, which is what the books of a session rest on
(`Machine.Orderly`).

All runners of a session, however many are made in it, stay in order together (`Machine.Composed`).
-/

namespace StoryGraph

variable {σ : Type}

namespace Machine

variable {kinds : Registry (Behaviour σ)} {r : Nat} {m n k : Machine σ}

/-! ### Runners that may enter nothing -/

/-- A runner may enter no node, and is not about to. -/
structure Barred (r : Nat) (m : Machine σ) : Prop where
  runner : ∃ R ∈ m.world.runners[r]?, R.limit = some 0 ∧ R.current = none
  stack : ∀ f ∈ m.stack, f.runner? = some r → ∃ entered, f = .dispatch r entered

theorem Barred.spares (h : Barred r m) (hs : Spares r m n) : Barred r n := by
  obtain ⟨R, hR, hlimit, hcurrent⟩ := h.runner
  obtain ⟨R', hR', hstance⟩ := hs.stance R hR
  obtain ⟨new, hnew, hfree⟩ := hs.stack
  have hnone : R'.current.map (fun c => (⟨c.id, c.visit, c.leave.map fun _ => ()⟩ : Current Unit)) =
      none := by
    have hsame := congrArg Runner.current hstance
    simpa [Runner.stance, Runner.map, hcurrent] using hsame
  refine ⟨⟨R', hR', ?_, Option.map_eq_none_iff.1 hnone⟩, fun f hf hr => ?_⟩
  · exact (congrArg Runner.limit hstance).trans hlimit
  · rw [hnew] at hf
    rcases List.mem_append.1 hf with hf | hf
    · exact absurd hr (hfree f hf)
    · exact h.stack f hf hr

theorem Barred.setRunner (h : Barred r m) (R' : Runner (Script σ)) (hlimit : R'.limit = some 0)
    (hcurrent : R'.current = none) : Barred r (m.setRunner r R') := by
  obtain ⟨R, hR, -⟩ := h.runner
  exact ⟨⟨R', runners_setRunner hR R', hlimit, hcurrent⟩, h.stack⟩

theorem Barred.push (h : Barred r m) {f : Frame σ}
    (hf : f.runner? = some r → ∃ entered, f = .dispatch r entered) : Barred r (m.push f) :=
  ⟨h.runner, List.forall_mem_cons.2 ⟨hf, h.stack⟩⟩

theorem Barred.submit (h : Barred r m) (task : Task) : Barred r (m.submit r task) := by
  obtain ⟨R, hR, hlimit, hcurrent⟩ := h.runner
  unfold Machine.submit
  rw [Option.mem_def.1 hR]
  dsimp only
  split
  · exact h
  · have hset := h.setRunner
      { R with queue := R.queue ++ [task], dispatching := true } hlimit hcurrent
    split
    · exact hset
    · exact hset.push fun _ => ⟨0, rfl⟩

theorem Barred.expireRunner (h : Barred r m) : Barred r (m.expireRunner r) := by
  obtain ⟨R, hR, hlimit, hcurrent⟩ := h.runner
  unfold Machine.expireRunner
  rw [Option.mem_def.1 hR]
  dsimp only
  split
  · have hpush := h.push (f := .deliver (some R.bus) []) fun hr => by cases hr
    have hleave : (m.push (.deliver (some R.bus) [])).leave r { R with lifetime := .over } =
        (m.push (.deliver (some R.bus) [])).setRunner r
          { R with lifetime := .over, current := none } := by
      simp only [Machine.leave, hcurrent]
    rw [hleave]
    exact hpush.setRunner _ hlimit rfl
  · exact h

theorem Barred.release (h : Barred r m) : Barred r (m.release r) := by
  obtain ⟨R, hR, hlimit, hcurrent⟩ := h.runner
  unfold Machine.release
  rw [Option.mem_def.1 hR]
  exact (h.setRunner { R with lifetime := R.lifetime.release } hlimit hcurrent).expireRunner

theorem Barred.affects (h : Barred r m) (ha : Affects r m k) : Barred r k := by
  cases ha with
  | spares hs => exact h.spares hs
  | submits task hs hp hk => exact hk ▸ (h.spares hs).submit task
  | releases hs hk => exact hk ▸ (h.spares hs).release

theorem Barred.dispatch (h : Barred r m) {R : Runner (Script σ)}
    (hR : R ∈ m.world.runners[r]?) (entered : Nat) : Barred r (m.dispatch r R entered) := by
  obtain ⟨R', hR', hlimit, hcurrent⟩ := h.runner
  obtain rfl := Option.some.inj (hR.symm.trans hR')
  unfold Machine.dispatch
  split
  · exact (h.setRunner { R with dispatching := false } hlimit hcurrent).expireRunner
  · have hreached : R.limit.any (· ≤ entered) = true := by simp [hlimit]
    rw [if_pos hreached]
    exact (h.setRunner { R with queue := [], halted := true, dispatching := false } hlimit
      hcurrent).expireRunner

theorem Barred.next (h : Barred r m) (hn : Next kinds m n) : Barred r n := by
  obtain ⟨f, stack, hm, hstep⟩ := exists_of_next hn
  have hstack := List.forall_mem_cons.1 (hm ▸ h.stack)
  have hpop : Barred r { m with stack } := ⟨h.runner, hstack.2⟩
  obtain ⟨R, hR, hlimit, hcurrent⟩ := hpop.runner
  obtain ⟨hp, rfl⟩ | ⟨hp, rfl⟩ := hstep
  · by_cases hf : f.runner? = some r
    · obtain ⟨entered, rfl⟩ := hstack.1 hf
      simp only [resume, Option.mem_def.1 hR]
      exact hpop.dispatch hR entered
    · exact hpop.affects (affects_resume (m := { m with stack }) kinds hp hf)
  · by_cases hf : f.runner? = some r
    · obtain ⟨entered, rfl⟩ := hstack.1 hf
      simp only [unwind, Option.mem_def.1 hR]
      split
      · have hset := hpop.setRunner
          { R with dispatching := false, current := none, lifetime := .over } hlimit rfl
        exact hset.spares (Spares.atBuses (.refl _) (atBuses_expireBus _ _))
      · exact hpop.setRunner { R with dispatching := false } hlimit hcurrent
    · exact hpop.spares (spares_unwind _ hf)

theorem Barred.not_mem_entering (h : Barred r m) {visit : Nat} : .entering r visit ∉ m.stack := by
  intro hmem
  obtain ⟨entered, hf⟩ := h.stack _ hmem rfl
  cases hf

/-! ### Runners that are yet to be made -/

/-- There is no runner under a number, and nothing that goes on is its doing. -/
structure Absent (r : Nat) (m : Machine σ) : Prop where
  runner : m.world.runners[r]? = none
  free : Free r m.stack

theorem Absent.not_mem_entering (h : Absent r m) {visit : Nat} : .entering r visit ∉ m.stack :=
  fun hmem => h.free _ hmem rfl

theorem Absent.affects (h : Absent r m) (ha : Affects r m k) : Free r k.stack := by
  have hspares : ∀ {n : Machine σ}, Spares r m n → Free r n.stack := by
    intro n hs
    obtain ⟨new, hnew, hfree⟩ := hs.stack
    exact hnew ▸ hfree.append h.free
  have hnone : ∀ {n : Machine σ}, n.world.runners.length = m.world.runners.length →
      n.world.runners[r]? = none := fun hlength =>
    List.getElem?_eq_none_iff.2 (hlength ▸ List.getElem?_eq_none_iff.1 h.runner)
  cases ha with
  | spares hs => exact hspares hs
  | submits task hs hp hk hlength =>
      rw [hk, submit, hnone hlength]
      exact hspares hs
  | releases hs hk hlength =>
      rw [hk, release, hnone hlength]
      exact hspares hs

/-- A runner is made with nothing to do. -/
theorem Absent.next (h : Absent r m) (hn : Next kinds m n) :
    Free r n.stack ∧ ∀ R ∈ n.world.runners[r]?, R.Fresh := by
  refine ⟨?_, fun R hR => fresh_of_next hn h.runner hR⟩
  obtain ⟨f, stack, hm, hstep⟩ := exists_of_next hn
  obtain ⟨hf, hstack⟩ := List.forall_mem_cons.1 (hm ▸ h.free)
  have hpop : Absent r { m with stack } := ⟨h.runner, hstack⟩
  obtain ⟨hp, rfl⟩ | ⟨hp, rfl⟩ := hstep
  · exact hpop.affects (affects_resume (m := { m with stack }) kinds hp hf)
  · exact hpop.affects (.spares (spares_unwind _ hf))

/-! ### Runners that conduct themselves, and others -/

/-- A runner conducts itself, or may enter nothing, or is yet to be made. -/
def Conducted (kinds : Registry (Behaviour σ)) (r : Nat) (m : Machine σ) : Prop :=
  (∃ g a past, Conduct kinds g r a past m) ∨ Barred r m ∨ Absent r m

theorem conducted_of_fresh (hfree : Free r m.stack) (h : ∀ R ∈ m.world.runners[r]?, R.Fresh) :
    Conducted kinds r m := by
  cases hR : m.world.runners[r]? with
  | none => exact .inr (.inr ⟨hR, hfree⟩)
  | some R =>
      obtain ⟨graph, bus, limit, blackboard, exposed, rfl⟩ := h R hR
      by_cases hlimit : limit = some 0
      · exact .inr (.inl ⟨⟨_, hR, hlimit, rfl⟩, fun f hf hr => absurd hr (hfree f hf)⟩)
      · exact .inl ⟨graph, _, _, conduct_of_fresh hfree hR hlimit⟩

theorem Conducted.next (h : Conducted kinds r m) (hbuild : ∀ n e, kinds.build n ≠ .panicked e)
    (hn : Next kinds m n) : Conducted kinds r n := by
  rcases h with ⟨g, a, past, h⟩ | h | h
  · obtain ⟨a', h'⟩ := h.next hbuild hn
    exact .inl ⟨g, a', _, h'⟩
  · exact .inr (.inl (h.next hn))
  · obtain ⟨hfree, hfresh⟩ := h.next hn
    exact conducted_of_fresh hfree hfresh

theorem Conducted.call (h : Conducted kinds r m) (hm : m.stack = []) (s : Script σ) :
    Conducted kinds r (m.call s) := by
  rcases h with ⟨g, a, past, h⟩ | h | h
  · exact .inl ⟨g, a, past, h.call hm s⟩
  · refine .inr (.inl ⟨h.runner, fun f hf hr => ?_⟩)
    rw [List.mem_singleton.1 hf] at hr
    cases hr
  · exact .inr (.inr ⟨h.runner, free_run s⟩)

/-- A runner of which a node is entered conducts itself. -/
theorem Conducted.exists_conduct (h : Conducted kinds r m) {visit : Nat}
    (hmem : .entering r visit ∈ m.stack) : ∃ g a past, Conduct kinds g r a past m := by
  rcases h with hconduct | h | h
  · exact hconduct
  · exact absurd hmem h.not_mem_entering
  · exact absurd hmem h.not_mem_entering

theorem Conducted.dispatching_of_entering (h : Conducted kinds r m) {visit : Nat}
    (hmem : .entering r visit ∈ m.stack) {R : Runner (Script σ)}
    (hR : R ∈ m.world.runners[r]?) : R.dispatching = true := by
  obtain ⟨g, a, past, h⟩ := h.exists_conduct hmem
  obtain ⟨-, R', hR', -, hdispatching, -⟩ := h.current_of_entering hmem
  obtain rfl := Option.some.inj (hR.symm.trans hR')
  exact hdispatching

/-- A runner goes on with something else when none of its nodes is entered. -/
theorem Conducted.not_mem_entering (h : Conducted kinds r m) {f : Frame σ}
    {below : List (Frame σ)} (hm : m.stack = f :: below) (hf : f.runner? = some r)
    (hne : ∀ visit, f ≠ .entering r visit) (visit : Nat) : .entering r visit ∉ below := by
  intro hmem
  have hmem' : .entering r visit ∈ m.stack := by
    rw [hm]
    exact List.mem_cons_of_mem _ hmem
  obtain ⟨g, a, past, h⟩ := h.exists_conduct hmem'
  obtain ⟨⟨entered, rfl⟩, -⟩ := h.current_of_entering hmem'
  obtain ⟨rest, hstack, -⟩ := h.eq_frames_append hm hf
  exact hne visit (List.cons.inj hstack).1

/-- One node of a runner is entered at a time. -/
theorem Conducted.entering_once (h : Conducted kinds r m) {f : Frame σ} {visit visit' : Nat}
    {below : List (Frame σ)} (hm : m.stack = f :: .entering r visit :: below) :
    .entering r visit' ∉ below := by
  intro hmem
  have hmem' : .entering r visit ∈ m.stack := by
    rw [hm]
    exact List.mem_cons_of_mem _ List.mem_cons_self
  obtain ⟨g, a, past, h⟩ := h.exists_conduct hmem'
  obtain ⟨⟨entered, rfl⟩, -⟩ := h.current_of_entering hmem'
  have hcall : Callback.enter visit' ∈ below.filterMap (Frame.callback? r) :=
    List.mem_filterMap.2 ⟨_, hmem, if_pos rfl⟩
  have hsub : (Callback.enter visit :: below.filterMap (Frame.callback? r)).Sublist
      (m.callbacks r) := by
    have hcons : (Frame.entering r visit :: below).filterMap (Frame.callback? r) =
        .enter visit :: below.filterMap (Frame.callback? r) :=
      List.filterMap_cons_some (if_pos rfl)
    rw [← hcons, callbacks, hm]
    exact (List.sublist_cons_self f _).filterMap _
  rw [h.callbacks_eq, Activity.callbacks] at hsub
  have hnil := List.length_eq_zero_iff.1 (Nat.le_zero.1 (Nat.le_of_succ_le_succ hsub.length_le))
  rw [hnil] at hcall
  cases hcall

/-- On its way to a node a live runner rests. -/
theorem Conducted.at_leaving (h : Conducted kinds r m) {target : Option Node}
    {below : List (Frame σ)} (hm : m.stack = .leaving r target :: below)
    {R : Runner (Script σ)} (hR : R ∈ m.world.runners[r]?) :
    R.current = none ∧ R.isAlive = true ∧ ∀ node ∈ target, R.graph.node? node.id = some node := by
  rcases h with ⟨g, a, past, h⟩ | h | h
  · obtain ⟨entered, rfl⟩ := h.eq_leaving hm
    obtain ⟨R', hR', hs⟩ := h.runner
    obtain rfl := Option.some.inj (hR.symm.trans hR')
    obtain ⟨-, hover, hcurrent, hnode, -⟩ := hs.suits
    refine ⟨Option.map_eq_none_iff.1 hcurrent, ?_, hnode⟩
    have halive : R.lifetime ≠ .over := hover
    simpa [Runner.isAlive] using halive
  · obtain ⟨entered, hf⟩ := h.stack _ (hm ▸ List.mem_cons_self) rfl
    cases hf
  · cases h.runner.symm.trans hR

/-! ### Sessions -/

/-- Every runner is in order, and no node panics. -/
structure Composed (m : Machine σ) : Prop where
  conducted : ∀ r, Conducted Builtin.registry r m
  covered : m.Covered fun _ _ => Script.Calm

theorem Composed.next (h : m.Composed) (hn : Next Builtin.registry m n) : n.Composed := by
  refine ⟨fun r => (h.conducted r).next Builtin.build_ne_panicked hn, ?_⟩
  exact h.covered.next Builtin.build_ne_panicked
    (fun _ _ hbuild r R _ visit => Builtin.calm_of_build hbuild _)
    (fun _ _ => Script.not_calm_panic) hn

theorem Composed.call (h : m.Composed) (hm : m.stack = []) (s : Script σ) : (m.call s).Composed :=
  ⟨fun r => (h.conducted r).call hm s, covered_call m s⟩

theorem Composed.orderly (h : m.Composed) : m.Orderly := by
  refine ⟨fun r R hR hd visit hmem => ?_, fun r R hR f below hm hf => ?_,
    fun r target below hm R hR => (h.conducted r).at_leaving hm hR,
    fun r R hR visit f below hm visit' => (h.conducted r).entering_once hm, h.covered.caught⟩
  · rw [(h.conducted r).dispatching_of_entering hmem hR] at hd
    cases hd
  · rcases hf with ⟨entered, rfl⟩ | ⟨target, rfl⟩
    · exact (h.conducted r).not_mem_entering hm rfl fun visit hf => by cases hf
    · exact (h.conducted r).not_mem_entering hm rfl fun visit hf => by cases hf

end Machine

end StoryGraph
