import StoryGraph.Proofs.Walk.Agreement

/-!
# What a node does

A visit is `Fresh` as long as its node has done nothing but ask the quest service, and `Acted` once
the script of the node has come to its end. In between lies the act of the node in a walk
(`Fresh.leads_perform`): what a walk answers with an outcome a node leaves to its runner as a task
(`tasks`), and where the walk rests the visit listens.
-/

namespace StoryGraph

namespace Setting

open Walk (State Attention)

variable {σ : Type} {x : Setting σ} {g : Graph} {S : Scene σ} {s : State}

theorem leads_entered {kinds : Registry (Behaviour σ)} {K : List (Frame σ)} (visit : Nat) :
    Machine.Leads kinds (x.machine S (.entering x.runner visit :: K)) (x.machine S K) :=
  .single (x.next_resume S K (.entering x.runner visit))

structure Fresh (x : Setting σ) (g : Graph) (S : Scene σ) (s : State) (id : NodeId) (visit : Nat) :
    Prop extends x.Agrees g S s where
  quiet : Quiet S
  attention : s.attention = .nothing
  current : S.runner.current = some ⟨id, visit, some .stop⟩
  armed : visit ∈ S.runner.armed
  queue : S.runner.queue = []
  dispatching : S.runner.dispatching = true

def tasks (id : NodeId) (visit : Nat) : Walk.Outcome → List Task
  | .done => [.done visit]
  | .jumps slot => [.request (.jump id slot)]
  | .rests => []

structure Acted (x : Setting σ) (g : Graph) (S : Scene σ) (s : State) (queue : List Task) : Prop
    extends x.Agrees g S s where
  queue_eq : S.runner.queue = queue
  dispatching : S.runner.dispatching = true

section Enter

variable (kinds : Registry (Behaviour σ)) (K : List (Frame σ)) {id : NodeId} {visit : Nat}

theorem Fresh.number_eq (h : x.Fresh g S s id visit) : visit = S.runner.visits :=
  h.visit_eq _ h.current

theorem hears_fresh (ha : s.attention = .nothing) (hq : Quiet S)
    (hc : S.runner.current = some ⟨id, visit, some .stop⟩) : x.Hears S s.attention := by
  rw [ha]
  refine .nothing hq fun c h => ?_
  have hcs : c = ⟨id, visit, some .stop⟩ := Option.some.inj (h.symm.trans hc)
  rw [hcs]
  exact .stop

theorem Fresh.of_agrees (h : x.Fresh g S s id visit) {T : Scene σ} {t : State}
    (ha : x.Agrees g T t) (hq : Quiet T) (hr : T.runner = S.runner)
    (ht : t.attention = s.attention) : x.Fresh g T t id visit where
  toAgrees := ha
  quiet := hq
  attention := ht.trans h.attention
  current := hr ▸ h.current
  armed := hr ▸ h.armed
  queue := hr ▸ h.queue
  dispatching := hr ▸ h.dispatching

def disarmed (S : Scene σ) (visit : Nat) : Scene σ :=
  { S with runner := { S.runner with armed := S.runner.armed.erase visit } }

theorem next_word (visit : Nat) :
    Machine.Next kinds (x.machine S (.run (x.word visit) :: K))
      (if visit ∈ S.runner.armed then
        (x.machine (disarmed S visit) (.run .stop :: K)).submit x.runner (.done visit)
      else x.machine S (.run .stop :: K)) := by
  have hn : Machine.Next kinds _ _ := x.next_resume S K (.run (x.word visit))
  simp only [Machine.resume, word, Builtin.done, Machine.perform, Machine.done, world_machine,
    runners_place, setRunner_machine, push_machine] at hn
  exact hn

def said (S : Scene σ) (visit : Nat) : Scene σ :=
  { S with runner := { S.runner with
      armed := S.runner.armed.erase visit
      queue := S.runner.queue ++ [.done visit], dispatching := true } }

theorem Proper.leads_word (h : x.Proper S) (hv : visit ∈ S.runner.armed)
    (hd : S.runner.dispatching = true) :
    Machine.Leads kinds (x.machine S (.run (x.word visit) :: K)) (x.machine (said S visit) K) := by
  have hn := next_word (x := x) (S := S) kinds K visit
  have hp : x.Proper (disarmed S visit) := { h with }
  rw [if_pos hv, hp.submit_machine, disarmed, if_pos hd] at hn
  exact .head hn leads_stop

theorem Fresh.acted_said (h : x.Fresh g S s id visit) :
    x.Acted g (said S visit) s [.done visit] :=
  { h with
    armed_le := fun v hv => h.armed_le v (List.mem_of_mem_erase hv)
    armed_nodup := h.armed_nodup.erase visit
    hears := hears_fresh h.attention { h.quiet with } h.current
    queue_eq := by simp [said, h.queue]
    dispatching := rfl }

theorem Fresh.leads_ask (h : x.Fresh g S s id visit) (r : Request) :
    ∃ T, Machine.Leads kinds (x.machine S (.run (.ask x.runner r .stop) :: K))
        (x.machine T K) ∧ x.Acted g T s [.request r] := by
  have hn : Machine.Next kinds _ _ := x.next_resume S K
    (.run (.ask x.runner r .stop))
  simp only [Machine.resume, Machine.perform, push_machine] at hn
  rw [h.submit_machine, if_pos h.dispatching, h.queue] at hn
  exact ⟨_, .head hn leads_stop, h.withQueue [.request r] true, rfl, rfl⟩

theorem Fresh.leads_done (h : x.Fresh g S s id visit) :
    ∃ T, Machine.Leads kinds (x.machine S (.run (x.word visit) :: K)) (x.machine T K) ∧
      x.Acted g T s [.done visit] :=
  ⟨_, h.leads_word kinds K h.armed h.dispatching, h.acted_said⟩

theorem Fresh.leads_quest (h : x.Fresh g S s id visit) (quest : String) (step : QuestStep)
    (next : Script σ) :
    ∃ T, Machine.Leads kinds (x.machine S (.run (.quest x.bus quest step next) :: K))
        (x.machine T (.run next :: K)) ∧ x.Fresh g T (s.advance quest step) id visit := by
  have hn : Machine.Next kinds _ _ := x.next_resume S K
    (.run (.quest x.bus quest step next))
  simp only [Machine.resume, Machine.perform, world_machine, h.bus?_place, Option.bind_some,
    h.service_eq, push_machine] at hn
  cases hlog : x.log? with
  | none =>
      simp only [hlog, Option.map_none] at hn
      exact ⟨S, .single hn, (h.advance_of_none hlog quest step).symm ▸ h⟩
  | some l =>
      simp only [hlog, Option.map_some, advance_machine hlog] at hn
      cases hstep : S.log.advance? quest step with
      | none =>
          simp only [hstep] at hn
          exact ⟨S, .single hn, (h.advance_of_advance?_none hlog hstep).symm ▸ h⟩
      | some log =>
          have hlisten : log.listeners = [] :=
            (state_of_advance? hstep).2.2.trans h.quiet.listeners
          simp only [hstep, hlisten] at hn
          have hq : Quiet { S with log } := ⟨h.quiet.1, h.quiet.2, h.quiet.3, hlisten⟩
          have hf : x.Fresh g { S with log } (s.advance quest step) id visit :=
            { h with
              quests_eq := by rw [h.advance_of_advance? hlog hstep]
              quiet := hq
              hears := hears_fresh h.attention hq h.current }
          exact ⟨_, .head hn hf.leads_delivered, hf⟩

theorem Fresh.leads_called (h : x.Fresh g S s id visit) :
    ∃ T, Machine.Leads kinds
        (x.machine S (.deliver (some x.bus) [x.word visit] :: .run .stop :: K))
        (x.machine T K) ∧ x.Acted g T s [.done visit] := by
  obtain ⟨T, hl, ha⟩ := h.leads_done kinds (.deliver (some x.bus) [] :: .run .stop :: K)
  exact ⟨T, .head (next_deliver _ _) (hl.trans (ha.leads_delivered.trans leads_stop)), ha⟩

theorem leads_onLeave {node : NodeId} {t : Script σ} (leave : Script σ)
    (hc : S.runner.current = some ⟨node, visit, some t⟩) :
    Machine.Leads kinds (x.machine S (.run (.onLeave x.runner visit leave .stop) :: K))
      (x.machine { S with runner := { S.runner with
        current := some ⟨node, visit, some leave⟩ } } K) := by
  have hn : Machine.Next kinds _ _ := x.next_resume S K
    (.run (.onLeave x.runner visit leave .stop))
  simp only [Machine.resume, Machine.perform, world_machine, runners_place, setRunner_machine,
    push_machine, hc, Option.map_some, if_true] at hn
  exact .head hn leads_stop

/-- Whoever listens to an event is called at once if it is pending, and is kept otherwise. -/
theorem Fresh.leads_subscribe (h : x.Fresh g S s id visit) (key : String) :
    ∃ T, Machine.Leads kinds
        (x.machine S (.run (Builtin.waitEvent key ⟨x.runner, x.bus, visit⟩) :: K))
        (x.machine T K) ∧
      if key ∈ s.pending then x.Acted g T { s with pending := s.pending.erase key } [.done visit]
      else x.Acted g T { s with attention := .event key false } [] := by
  have hn : Machine.Next kinds _ _ := x.next_resume S K
    (.run (Builtin.waitEvent key ⟨x.runner, x.bus, visit⟩))
  simp only [Machine.resume, Builtin.waitEvent, Machine.perform, h.subscribe_machine,
    h.mem_pending_iff] at hn
  split_ifs at hn ⊢ with hk
  · have hf : x.Fresh g { S with bus := S.bus.consume key }
        { s with pending := s.pending.erase key } id visit :=
      h.of_agrees (h.consume key) { h.quiet with } rfl rfl
    obtain ⟨T, hl, ha⟩ := hf.leads_called kinds K
    exact ⟨T, .head hn hl, ha⟩
  · refine ⟨_, .head hn (leads_onLeave kinds K (x.ignore key (S.bus.lastId + 1)) h.current), ?_⟩
    exact
      { h with
        current_eq := by rw [← h.current_eq, h.current]; rfl
        visit_eq := fun c hc => Option.some.inj hc ▸ h.number_eq
        hears := .event id visit (S.bus.lastId + 1) rfl
          (by simp [Bus.subscribe, h.quiet.subscribers, word]) (by simp [h.armed]) h.quiet.waiters
          h.quiet.watch h.quiet.listeners
        queue_eq := h.queue }

def held (x : Setting σ) (S : Scene σ) (quest : String) (id : NodeId) (visit : Nat) : Scene σ :=
  let T := x.awaited S quest (x.word visit)
  { T with runner := { T.runner with
      current := some ⟨id, visit, some (x.abandon quest (S.bus.lastId + 1))⟩ } }

theorem state_awaited (S : Scene σ) (quest : String) (callback : Script σ) :
    (x.awaited S quest callback).log.state = S.log.state := by
  unfold awaited
  cases x.log? <;> rfl

theorem Fresh.watches_held (h : x.Fresh g S s id visit) (quest : String) :
    x.Watches (x.held S quest id visit) := by
  unfold Watches held awaited
  cases x.log? with
  | none => exact ⟨h.quiet.watch, h.quiet.listeners⟩
  | some l => exact ⟨_, rfl, by simp [QuestLog.listen, h.quiet.listeners]⟩

theorem Fresh.acted_held (h : x.Fresh g S s id visit) {quest : String} (hk : ¬s.Completed quest) :
    x.Acted g (x.held S quest id visit) { s with attention := .quest quest } [] := by
  have hstate : (x.held S quest id visit).log.state = S.log.state :=
    state_awaited S quest (x.word visit)
  have hopen : ¬x.Knows (x.held S quest id visit) quest := by
    rw [← h.knows_iff quest, Knows, QuestLog.Completed, ← hstate] at hk
    exact hk
  have hwaiters : S.bus.waiters ++ [⟨quest, S.bus.lastId + 1, x.word visit⟩] =
      [⟨quest, S.bus.lastId + 1, x.word visit⟩] := by rw [h.quiet.waiters, List.nil_append]
  exact
    { h with
      current_eq := by rw [← h.current_eq, h.current]; rfl
      visit_eq := fun c hc => Option.some.inj hc ▸ h.number_eq
      quests_eq := by rw [hstate, ← h.quests_eq]
      hears := .quest id visit (S.bus.lastId + 1) rfl hwaiters h.armed hopen h.quiet.subscribers
        (h.watches_held quest)
      queue_eq := h.queue }

/-- Whoever waits for a quest is called at once if it is completed, and is kept otherwise. -/
theorem Fresh.leads_await (h : x.Fresh g S s id visit) (quest : String) :
    ∃ T, Machine.Leads kinds
        (x.machine S (.run (Builtin.waitQuest quest ⟨x.runner, x.bus, visit⟩) :: K))
        (x.machine T K) ∧
      if s.Completed quest then x.Acted g T s [.done visit]
      else x.Acted g T { s with attention := .quest quest } [] := by
  have hn : Machine.Next kinds _ _ := x.next_resume S K
    (.run (Builtin.waitQuest quest ⟨x.runner, x.bus, visit⟩))
  simp only [Machine.resume, Builtin.waitQuest, Machine.perform, h.await_machine h.quiet.watch,
    h.knows_iff] at hn
  split_ifs at hn ⊢ with hk
  · obtain ⟨T, hl, ha⟩ := h.leads_called kinds K
    exact ⟨T, .head hn hl, ha⟩
  · exact ⟨x.held S quest id visit,
      .head hn (leads_onLeave kinds K (x.abandon quest (S.bus.lastId + 1)) h.current),
      h.acted_held hk⟩

/-- The act of a node in a session is its act in a walk. -/
theorem Fresh.leads_perform (h : x.Fresh g S s id visit) (act : Walk.Act) :
    ∃ T, Machine.Leads kinds
        (x.machine S (.run (act.behaviour id ⟨x.runner, x.bus, visit⟩) :: K))
        (x.machine T K) ∧
      x.Acted g T (s.perform act).1 (tasks id visit (s.perform act).2) := by
  cases act with
  | note => exact h.leads_done kinds K
  | set key value =>
      have hf : x.Fresh g
          { S with runner := { S.runner with blackboard := S.runner.blackboard.set key value } }
          { s with blackboard := s.blackboard.set key value } id visit :=
        { h with
          blackboard_eq := by rw [← h.blackboard_eq]
          quiet := { h.quiet with }
          hears := hears_fresh h.attention { h.quiet with }
            h.current }
      have hn : Machine.Next kinds _ _ := x.next_resume S K
        (.run (Builtin.setValue key value ⟨x.runner, x.bus, visit⟩))
      simp only [Machine.resume, Builtin.setValue, Machine.perform, world_machine, runners_place,
        setRunner_machine, push_machine] at hn
      obtain ⟨T, hl, ha⟩ := hf.leads_done kinds K
      exact ⟨T, .head hn hl, ha⟩
  | raise key =>
      have hn : Machine.Next kinds _ _ := x.next_resume S K
        (.run (Builtin.raiseEvent key ⟨x.runner, x.bus, visit⟩))
      have hnobody : (S.bus.listeners key).isEmpty := by
        simp [Bus.listeners, h.quiet.subscribers]
      simp only [Machine.resume, Builtin.raiseEvent, Machine.perform, push_machine,
        h.raise_machine, if_pos hnobody] at hn
      have hf : x.Fresh g { S with bus := S.bus.hold key } (s.hold key) id visit :=
        h.of_agrees (h.hold key) (hold_eq S.bus key ▸
          { h.quiet with }) rfl rfl
      obtain ⟨T, hl, ha⟩ := hf.leads_done kinds K
      exact ⟨T, .head hn hl, ha⟩
  | wait key =>
      obtain ⟨T, hl, ha⟩ := h.leads_subscribe kinds K key
      refine ⟨T, hl, ?_⟩
      by_cases hk : key ∈ s.pending <;> simpa [State.perform, hk, tasks] using ha
  | quest name source autoStart =>
      obtain ⟨T, hl, hT⟩ := h.leads_quest kinds K name (.offer source)
        (if autoStart then .quest x.bus name .start
            (Builtin.waitQuest name ⟨x.runner, x.bus, visit⟩)
          else Builtin.waitQuest name ⟨x.runner, x.bus, visit⟩)
      obtain ⟨U, hl', hU⟩ : ∃ U, Machine.Leads kinds
          (x.machine T (.run (if autoStart then .quest x.bus name .start
              (Builtin.waitQuest name ⟨x.runner, x.bus, visit⟩)
            else Builtin.waitQuest name ⟨x.runner, x.bus, visit⟩) :: K))
          (x.machine U (.run (Builtin.waitQuest name ⟨x.runner, x.bus, visit⟩) :: K)) ∧
          x.Fresh g U (if autoStart then (s.advance name (.offer source)).advance name .start
            else s.advance name (.offer source)) id visit := by
        cases autoStart with
        | true => exact hT.leads_quest kinds K name .start _
        | false => exact ⟨T, .refl, hT⟩
      obtain ⟨V, hl'', hV⟩ := hU.leads_await kinds K name
      refine ⟨V, hl.trans (hl'.trans hl''), ?_⟩
      simp only [State.perform]
      split_ifs at hV ⊢ <;> exact hV
  | branch key =>
      have hn : Machine.Next kinds _ _ := x.next_resume S K
        (.run (Builtin.branch id key ⟨x.runner, x.bus, visit⟩))
      have hboard : (x.place S).outline.runners[x.runner]?.bind (·.blackboard.bool? key) =
          s.blackboard.bool? key := by
        simp [World.outline, Runner.map, h.blackboard_eq]
      simp only [Machine.resume, Builtin.branch, Machine.perform, world_machine, push_machine,
        hboard] at hn
      obtain ⟨T, hl, ha⟩ := h.leads_ask kinds K
        (.jump id (if (s.blackboard.bool? key).getD false then 0 else 1))
      exact ⟨T, .head hn hl, ha⟩

end Enter

end Setting

end StoryGraph
