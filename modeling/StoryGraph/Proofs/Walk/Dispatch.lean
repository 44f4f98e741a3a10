import StoryGraph.Proofs.Flow.Move
import StoryGraph.Proofs.Walk.Visit

/-!
# From one node to the next

A node leaves one task at most to its runner, so the queue never holds more while it is worked off.
A task takes a session to where it takes a walk, either to the end of the dispatch or to the next
node (`GetsTo`). A walk of one node after the other is followed by induction on the steps it takes
(`leads_of_follow`), and a dispatch that ends by induction on those that are left
(`follow_isSome_of_run`).
-/

namespace StoryGraph

namespace Setting

open Walk (State Attention)

variable {σ : Type} {x : Setting σ} {g : Graph} {S : Scene σ} {s : State}

section Dispatch

variable {K : List (Frame σ)}

theorem Hears.quiet (h : x.Hears S .nothing) : Quiet S := by
  cases h with
  | nothing quiet leave => exact quiet

theorem perform_visits (s : State) (act : Walk.Act) : (s.perform act).1.visits = s.visits := by
  cases act <;> simp only [State.perform, State.hold, State.advance] <;> split_ifs <;> rfl

def begun (S : Scene σ) (id : NodeId) : Scene σ :=
  { S with runner := { S.runner with
      visits := S.runner.visits + 1, halted := false
      armed := (S.runner.visits + 1) :: S.runner.armed
      current := some ⟨id, S.runner.visits + 1, some .stop⟩ } }

theorem Acted.fresh_begun (h : x.Acted g S s.leave []) (id : NodeId) :
    x.Fresh g (begun S id) (s.arrive id) id (S.runner.visits + 1) := by
  have hq : Quiet S := h.hears.quiet
  have hq' : Quiet (begun S id) := { hq with }
  exact
    { h with
      current_eq := rfl
      visit_eq := by simp [begun]
      halted_eq := rfl
      visits_eq := congrArg (· + 1) h.visits_eq
      armed_le := fun v hv => (List.mem_cons.1 hv).elim (fun he => he ▸ Nat.le_refl _)
        fun hm => Nat.le_succ_of_le (h.armed_le v hm)
      armed_nodup := List.nodup_cons.2
        ⟨fun hm => Nat.not_succ_le_self _ (h.armed_le _ hm), h.armed_nodup⟩
      hears := hears_fresh rfl hq' rfl
      quiet := hq'
      attention := rfl
      current := rfl
      armed := List.mem_cons_self
      queue := h.queue_eq }

theorem enter_machine {kinds : Registry (Behaviour σ)} {n : Node} {behaviour : Behaviour σ}
    (h : kinds.build n = .ready behaviour) :
    (x.machine S K).enter kinds x.runner S.runner n =
      x.machine (begun S n.id)
        (.run (behaviour ⟨x.runner, S.runner.bus, S.runner.visits + 1⟩) ::
          .entering x.runner (S.runner.visits + 1) :: K) := by
  simp only [Machine.enter, h, setRunner_machine, push_machine]
  rfl

/-- Entering a node takes a session to where it takes a walk. -/
theorem Acted.proceeds_enter (h : x.Acted g S s.leave []) (n : Node) :
    ∃ T, Machine.Proceeds Builtin.registry (x.machine S (.leaving x.runner (some n) :: K))
        (x.machine T K) ∧
      x.Acted g T (s.enter n).1 (tasks n.id (s.visits + 1) (s.enter n).2) := by
  have hn : Machine.Next Builtin.registry _ _ := x.next_resume S K
    (.leaving x.runner (some n))
  have hv : S.runner.visits = s.visits := h.visits_eq
  simp only [Machine.resume, world_machine, runners_place] at hn
  rcases Walk.build_registry (σ := σ) n with ⟨act, hact, hbuild⟩ | ⟨hact, e, hbuild⟩
  · rw [enter_machine hbuild, h.bus_eq] at hn
    obtain ⟨T, hl, ha⟩ := (h.fresh_begun n.id).leads_perform Builtin.registry
      (.entering x.runner (S.runner.visits + 1) :: K) act
    refine ⟨T, .head' hn (hl.trans (leads_entered _)), ?_⟩
    simpa only [State.enter, hact, hv] using ha
  · simp only [Machine.enter, hbuild, setRunner_machine] at hn
    refine ⟨_, .single hn, ?_⟩
    have hq : Quiet S := h.hears.quiet
    simp only [State.enter, hact]
    exact
      { h with
        current_eq := rfl
        visit_eq := by simp
        halted_eq := rfl
        visits_eq := congrArg (· + 1) h.visits_eq
        armed_le := fun v hm => Nat.le_succ_of_le (h.armed_le v hm)
        hears := .nothing { hq with } (by simp [Harmless.none]) }

/-! ### From one node to the next -/

/-- The flow rests, and the queue is worked off. -/
structure Settled (x : Setting σ) (g : Graph) (S : Scene σ) (s : State) : Prop
    extends x.Agrees g S s where
  queue_eq : S.runner.queue = []
  dispatching : S.runner.dispatching = false

/-- A session gets as far as a walk: to the end of the dispatch, or to the next node. -/
def GetsTo (x : Setting σ) (g : Graph) (K : List (Frame σ)) (m : Machine σ) :
    State × Option Node → Prop
  | (s, none) => ∃ T, Machine.Proceeds Builtin.registry m (x.machine T K) ∧ x.Settled g T s
  | (s, some n) => ∃ T entered, Machine.Proceeds Builtin.registry m
      (x.machine T (.leaving x.runner (some n) :: .dispatch x.runner entered :: K)) ∧
      x.Acted g T s.leave [] ∧ g.node? n.id = some n

theorem GetsTo.head {m n : Machine σ} {o : State × Option Node}
    (h : Machine.Leads Builtin.registry m n) (hg : x.GetsTo g K n o) : x.GetsTo g K m o := by
  obtain ⟨s, _ | next⟩ := o
  · obtain ⟨T, hp, hT⟩ := hg
    exact ⟨T, .trans_right h hp, hT⟩
  · obtain ⟨T, entered, hp, hT⟩ := hg
    exact ⟨T, entered, .trans_right h hp, hT⟩

/-- Where the queue is empty the dispatch ends. -/
theorem Acted.getsTo_end (h : x.Acted g S s []) (entered : Nat) :
    x.GetsTo g K (x.machine S (.dispatch x.runner entered :: K)) (s, none) := by
  have hn : Machine.Next Builtin.registry _ _ := x.next_resume S K
    (.dispatch x.runner entered)
  have ha : x.Agrees g (S.withQueue [] false) s := h.withQueue [] false
  simp only [Machine.resume, world_machine, runners_place, Machine.dispatch, h.queue_eq,
    setRunner_machine] at hn
  exact ⟨_, .single (ha.expireRunner_machine (K := K) ▸ hn), ha, rfl, rfl⟩

def after (s : State) : Move → State × Option Node
  | .stay => (s, none)
  | .halt => (s.halt, none)
  | .rest => (s.rest, none)
  | .enter n => (s, some n)

theorem Acted.withQueue (h : x.Acted g S s queue) (q : List Task) :
    x.Acted g { S with runner := { S.runner with queue := q } } s q :=
  { h.toAgrees.withQueue q S.runner.dispatching with
    queue_eq := rfl
    dispatching := h.dispatching }

theorem Acted.cleared (h : x.Acted g S s queue) : x.Acted g S.cleared s.leave queue :=
  { h.toAgrees.cleared with
    queue_eq := h.queue_eq
    dispatching := h.dispatching }

theorem Proper.dispatch_machine (h : x.Proper S) {task : Task} (hq : S.runner.queue = [task])
    (entered : Nat) :
    (x.machine S K).dispatch x.runner S.runner entered =
      let R : Runner (Script σ) := { S.runner with queue := [] }
      match S.runner.move task with
      | .stay => x.machine { S with runner := R } (.dispatch x.runner entered :: K)
      | .halt => x.machine { S with runner := { R with halted := true } }
          (.dispatch x.runner entered :: K)
      | .rest => (x.machine S (.leaving x.runner none :: .dispatch x.runner entered :: K)).leave
          x.runner R
      | .enter n => (x.machine S (.leaving x.runner (some n) ::
          .dispatch x.runner (entered + 1) :: K)).leave x.runner R := by
  have hlimit : S.runner.limit.any (· ≤ entered) = false := by rw [h.limit_eq]; rfl
  rw [Machine.dispatch, hq]
  cases hm : S.runner.move task <;>
    simp [hm, hlimit, setRunner_machine, push_machine]

theorem Acted.rest (h : x.Acted g S s.leave queue) :
    x.Acted g { S with runner := { S.runner with halted := false } } s.rest queue :=
  { h with
    halted_eq := rfl
    hears := h.hears.withRunner rfl rfl }

/-- A task takes a session to where it takes a walk. -/
theorem Acted.getsTo_move {task : Task} (h : x.Acted g S s [task]) (entered : Nat) :
    x.GetsTo g K (x.machine S (.dispatch x.runner entered :: K))
      (after s (S.runner.move task)) := by
  have hn : Machine.Next Builtin.registry _ _ := x.next_resume S K
    (.dispatch x.runner entered)
  have hq : x.Acted g { S with runner := { S.runner with queue := [] } } s [] := h.withQueue []
  simp only [Machine.resume, world_machine, runners_place,
    h.dispatch_machine h.queue_eq entered] at hn
  cases hm : S.runner.move task with
  | stay =>
      rw [hm] at hn
      exact (hq.getsTo_end entered).head (.single hn)
  | halt =>
      rw [hm] at hn
      have hh : x.Acted g
          { S with runner := { S.runner with queue := [], halted := true } } s.halt [] :=
        { hq.toAgrees.halt with
          queue_eq := rfl
          dispatching := h.dispatching }
      exact (hh.getsTo_end entered).head (.single hn)
  | rest =>
      rw [hm] at hn
      have hl : Machine.Leads Builtin.registry _
          (x.machine _ (.leaving x.runner none :: .dispatch x.runner entered :: K)) :=
        hq.hears.leads_leave hq.toProper S.runner
      have hr := hq.cleared.rest
      exact (hr.getsTo_end entered).head (.head hn (hl.trans leads_rested))
  | enter n =>
      rw [hm] at hn
      have hnode : g.node? n.id = some n := h.graph_eq ▸ Runner.node?_of_move hm
      have hl : Machine.Leads Builtin.registry _ (x.machine _
          (.leaving x.runner (some n) :: .dispatch x.runner (entered + 1) :: K)) :=
        hq.hears.leads_leave hq.toProper S.runner
      exact ⟨_, entered + 1, .head' hn hl, hq.cleared, hnode⟩

theorem after_elim (s : State) (o : Option Node) :
    after s (o.elim .halt .enter) = (if o.isNone then s.halt else s, o) := by
  cases o <;> rfl

theorem after_elim_stay (s : State) (o : Option Node) :
    after s (o.elim .stay .enter) = (s, o) := by
  cases o <;> rfl

theorem Agrees.move_jump (h : x.Agrees g S s) (source : NodeId) (slot : Nat) :
    S.runner.move (.request (.jump source slot)) =
      ((g.node? source).bind fun n => Walk.target g n slot).elim .stay .enter := by
  simp only [Runner.move, h.graph_eq]
  cases g.node? source <;> rfl

theorem Agrees.onward_eq (h : x.Agrees g S s) {id : NodeId} (hc : s.current = some id) :
    S.runner.onward = ((g.node? id).bind (Walk.successor g)).elim .halt .enter := by
  obtain ⟨c, hcur, hid⟩ := Option.map_eq_some_iff.1 (h.current_eq.trans hc)
  unfold Runner.onward
  simp only [hcur, hid, h.graph_eq]
  cases g.node? id <;> rfl

/-- The word of the current visit leads on. -/
theorem Agrees.move_done (h : x.Agrees g S s) {id : NodeId} (hc : s.current = some id) :
    S.runner.move (.done s.visits) = S.runner.onward := by
  obtain ⟨c, hcur, -⟩ := Option.map_eq_some_iff.1 (h.current_eq.trans hc)
  have hv : c.visit = s.visits := (h.visit_eq c hcur).trans h.visits_eq
  simp [Runner.move, hcur, hv]

theorem perform_current (s : State) (act : Walk.Act) :
    (s.perform act).1.current = s.current := by
  cases act <;> simp only [State.perform, State.hold, State.advance] <;> split_ifs <;> rfl

theorem enter_current (s : State) (n : Node) : (s.enter n).1.current = some n.id := by
  unfold State.enter
  cases Walk.Act.ofNode? n with
  | none => rfl
  | some act => exact perform_current _ act

theorem enter_visits (s : State) (n : Node) : (s.enter n).1.visits = s.visits + 1 := by
  unfold State.enter
  cases Walk.Act.ofNode? n with
  | none => rfl
  | some act => exact perform_visits _ act

/-- From one node to the next, a session gets as far as a walk. -/
theorem Acted.getsTo_stride (h : x.Acted g S s.leave []) {n : Node}
    (hn : g.node? n.id = some n) (entered : Nat) :
    x.GetsTo g K
      (x.machine S (.leaving x.runner (some n) :: .dispatch x.runner entered :: K))
      (Walk.stride g s n) := by
  obtain ⟨T, hp, hT⟩ := h.proceeds_enter (K := .dispatch x.runner entered :: K) n
  have hc : (s.enter n).1.current = some n.id := enter_current s n
  have hv : s.visits + 1 = (s.enter n).1.visits := (enter_visits s n).symm
  rw [hv] at hT
  unfold Walk.stride
  generalize s.enter n = o at hT hc
  obtain ⟨s', _ | slot | _⟩ := o
  · have hg := hT.getsTo_move (K := K) entered
    rw [hT.move_done hc, hT.onward_eq hc, after_elim, hn, Option.bind_some] at hg
    exact hg.head hp.to_reflTransGen
  · have hg := hT.getsTo_move (K := K) entered
    rw [hT.move_jump, after_elim_stay, hn, Option.bind_some] at hg
    exact hg.head hp.to_reflTransGen
  · exact (hT.getsTo_end entered).head hp.to_reflTransGen

def complete (g : Graph) : State × Option Node → Option State
  | (s, none) => some s
  | (s, some n) => State.follow g s n

theorem follow_eq (g : Graph) (s : State) (n : Node) :
    State.follow g s n = complete g (Walk.stride g s n) := by
  rw [State.follow]
  rfl

/-- Where a walk ends, the dispatch ends too, and the flow is where the walk is. -/
theorem leads_of_follow {s' : State} (n : Node) (hs : State.follow g s n = some s') (S : Scene σ)
    (h : x.Acted g S s.leave []) (hn : g.node? n.id = some n) (entered : Nat) :
    ∃ T, Machine.Leads Builtin.registry
        (x.machine S (.leaving x.runner (some n) :: .dispatch x.runner entered :: K))
        (x.machine T K) ∧ x.Settled g T s' := by
  refine Walk.State.follow.partial_correctness g (fun s n s' => ∀ (S : Scene σ) (entered : Nat),
    x.Acted g S s.leave [] → g.node? n.id = some n → ∃ T, Machine.Leads Builtin.registry
      (x.machine S (.leaving x.runner (some n) :: .dispatch x.runner entered :: K))
      (x.machine T K) ∧ x.Settled g T s') ?_ s n s' hs S entered h hn
  intro follow ih s n s' hs S entered h hn
  have hg := h.getsTo_stride (K := K) hn entered
  generalize Walk.stride g s n = o at hg hs
  obtain ⟨t, _ | next⟩ := o
  · obtain ⟨T, hp, hT⟩ := hg
    obtain rfl := Option.some.inj hs
    exact ⟨T, hp.to_reflTransGen, hT⟩
  · obtain ⟨T, entered', hp, hT, hnext⟩ := hg
    obtain ⟨U, hl, hU⟩ := ih t next s' hs T entered' hT hnext
    exact ⟨U, hp.to_reflTransGen.trans hl, hU⟩

/-- Where a dispatch ends, the walk ends too. -/
theorem follow_isSome_of_run (steps : Nat) {m : Machine σ} (n : Node)
    (h : x.Acted g S s.leave []) (hn : g.node? n.id = some n) (entered : Nat)
    (hr : (x.machine S (.leaving x.runner (some n) :: .dispatch x.runner entered :: K)).run
      Builtin.registry steps = some m) : (State.follow g s n).isSome := by
  induction steps using Nat.strong_induction_on generalizing S s n entered with
  | _ steps ih =>
      rw [follow_eq]
      have hg := h.getsTo_stride (K := K) hn entered
      generalize Walk.stride g s n = o at hg
      obtain ⟨s', _ | next⟩ := o
      · rfl
      · obtain ⟨T, entered', hp, hT, hnext⟩ := hg
        obtain ⟨fewer, hlt, hr'⟩ := Machine.exists_run_of_proceeds hp hr
        exact ih fewer hlt next hT hnext entered' hr'

end Dispatch

end Setting

end StoryGraph
