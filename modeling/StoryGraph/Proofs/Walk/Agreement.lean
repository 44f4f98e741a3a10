import StoryGraph.Proofs.Quest
import StoryGraph.Proofs.Walk.Scene

/-!
# Scenes and walks

`Setting.Agrees` relates a scene to the state of a walk. What a walk listens for is spread over
three places in a scene: a subscriber or a waiter on the bus, the word that the visit has not
used, and what is to be done when the node is left (`Setting.Hears`).
-/

namespace StoryGraph

namespace Setting

open Walk (State Attention)

variable {σ : Type}

/-- Nobody listens to the bus, and the bus does not listen to its quest log. -/
structure Quiet (S : Scene σ) : Prop where
  subscribers : S.bus.subscribers = []
  waiters : S.bus.waiters = []
  watch : S.bus.watch = none
  listeners : S.log.listeners = []

def ignore (x : Setting σ) (key : String) (id : Nat) : Script σ :=
  .unsubscribe x.bus key id fun _ => .stop

def abandon (x : Setting σ) (quest : String) (id : Nat) : Script σ :=
  .unawait x.bus quest id fun _ => .stop

def word (x : Setting σ) (visit : Nat) : Script σ := Builtin.done ⟨x.runner, x.bus, visit⟩

/-- What is done when a node is left that listens for nothing, or no longer. -/
inductive Harmless (x : Setting σ) : Option (Script σ) → Prop where
  | none : Harmless x none
  | stop : Harmless x (some .stop)
  | abandon (quest : String) (id : Nat) : Harmless x (some (x.abandon quest id))

def Watches (x : Setting σ) (S : Scene σ) : Prop :=
  match x.log? with
  | none => S.bus.watch = none ∧ S.log.listeners = []
  | some _ => ∃ id, S.bus.watch = some id ∧ S.log.listeners = [(id, .notify x.bus .stop)]

inductive Hears (x : Setting σ) (S : Scene σ) : Attention → Prop where
  | nothing (quiet : Quiet S) (leave : ∀ c ∈ S.runner.current, x.Harmless c.leave) :
    Hears x S .nothing
  | event {key : String} {heard : Bool} (node : NodeId) (visit id : Nat)
    (current : S.runner.current = some ⟨node, visit, some (x.ignore key id)⟩)
    (subscribers : S.bus.subscribers = [⟨key, id, x.word visit⟩])
    (armed : visit ∈ S.runner.armed ↔ heard = false)
    (waiters : S.bus.waiters = []) (watch : S.bus.watch = none) (listeners : S.log.listeners = []) :
    Hears x S (.event key heard)
  | quest {quest : String} (node : NodeId) (visit id : Nat)
    (current : S.runner.current = some ⟨node, visit, some (x.abandon quest id)⟩)
    (waiters : S.bus.waiters = [⟨quest, id, x.word visit⟩])
    (armed : visit ∈ S.runner.armed) (open_ : ¬x.Knows S quest)
    (subscribers : S.bus.subscribers = []) (watches : x.Watches S) :
    Hears x S (.quest quest)

/-- A scene shows the state of a walk. What the runner has in its queue is left open. -/
structure Agrees (x : Setting σ) (g : Graph) (S : Scene σ) (s : State) : Prop
    extends x.Proper S where
  graph_eq : S.runner.graph = g
  current_eq : S.runner.current.map Current.id = s.current
  visit_eq : ∀ c ∈ S.runner.current, c.visit = S.runner.visits
  halted_eq : S.runner.halted = s.halted
  visits_eq : S.runner.visits = s.visits
  armed_le : ∀ v ∈ S.runner.armed, v ≤ S.runner.visits
  armed_nodup : S.runner.armed.Nodup
  blackboard_eq : S.runner.blackboard = s.blackboard
  mem_pending_iff : ∀ key, key ∈ S.bus.pending ↔ key ∈ s.pending
  quests_eq : s.quests = x.log?.map fun _ => S.log.state
  hears : x.Hears S s.attention

end Setting

def Scene.withQueue {σ : Type} (S : Scene σ) (queue : List Task) (dispatching : Bool) : Scene σ :=
  { S with runner := { S.runner with queue, dispatching } }

def Scene.cleared {σ : Type} (S : Scene σ) : Scene σ where
  runner := { S.runner with current := none }
  bus := { S.bus with subscribers := [], waiters := [], watch := none }
  log := { S.log with listeners := [] }

def Walk.State.leave (s : Walk.State) : Walk.State :=
  { s with current := none, attention := .nothing }

namespace Setting

open Walk (State Attention)

variable {σ : Type} {x : Setting σ} {g : Graph} {S : Scene σ} {s : State}

theorem Hears.withRunner {a : Attention} (h : x.Hears S a) {R : Runner (Script σ)}
    (hc : R.current = S.runner.current) (ha : R.armed = S.runner.armed) :
    x.Hears { S with runner := R } a := by
  cases h with
  | nothing quiet leave =>
      exact .nothing ⟨quiet.1, quiet.2, quiet.3, quiet.4⟩ (hc ▸ leave)
  | event node visit id current subscribers armed waiters watch listeners =>
      exact .event node visit id (hc ▸ current) subscribers (ha ▸ armed) waiters watch listeners
  | quest node visit id current waiters armed open_ subscribers watches =>
      exact .quest node visit id (hc ▸ current) waiters (ha ▸ armed) open_ subscribers watches

theorem Agrees.withQueue (h : x.Agrees g S s) (queue : List Task) (dispatching : Bool) :
    x.Agrees g (S.withQueue queue dispatching) s :=
  { h with hears := h.hears.withRunner rfl rfl }

theorem Agrees.halt (h : x.Agrees g S s) :
    x.Agrees g { S with runner := { S.runner with halted := true } } s.halt :=
  { h with
    halted_eq := rfl
    hears := h.hears.withRunner rfl rfl }

theorem Hears.withPending {a : Attention} (h : x.Hears S a) (pending : List String) :
    x.Hears { S with bus := { S.bus with pending } } a := by
  cases h with
  | nothing quiet leave => exact .nothing ⟨quiet.1, quiet.2, quiet.3, quiet.4⟩ leave
  | event node visit id current subscribers armed waiters watch listeners =>
      exact .event node visit id current subscribers armed waiters watch listeners
  | quest node visit id current waiters armed open_ subscribers watches =>
      exact .quest node visit id current waiters armed open_ subscribers watches

theorem Agrees.withPending (h : x.Agrees g S s) {pending : List String} {keys : Finset String}
    (hk : ∀ key, key ∈ pending ↔ key ∈ keys) :
    x.Agrees g { S with bus := { S.bus with pending } } { s with pending := keys } :=
  { h with
    mem_pending_iff := hk
    hears := h.hears.withPending pending }

theorem hold_eq (B : Bus (Script σ)) (key : String) :
    B.hold key = { B with pending := if key ∈ B.pending then B.pending else key :: B.pending } := by
  unfold Bus.hold
  split_ifs <;> rfl

theorem Agrees.hold (h : x.Agrees g S s) (key : String) :
    x.Agrees g { S with bus := S.bus.hold key } (s.hold key) := by
  rw [hold_eq]
  refine h.withPending fun k => ?_
  rw [Finset.mem_insert, ← h.mem_pending_iff]
  split_ifs with hk
  · exact ⟨.inr, fun hs => hs.elim (fun he => he ▸ hk) id⟩
  · exact List.mem_cons

theorem Agrees.consume (h : x.Agrees g S s) (key : String) :
    x.Agrees g { S with bus := S.bus.consume key }
      { s with pending := s.pending.erase key } := by
  refine h.withPending fun k => ?_
  rw [Finset.mem_erase, ← h.mem_pending_iff]
  simp [and_comm]

theorem Agrees.cleared (h : x.Agrees g S s) : x.Agrees g S.cleared s.leave :=
  { h with
    current_eq := rfl
    visit_eq := by simp [Scene.cleared]
    hears := .nothing ⟨rfl, rfl, rfl, rfl⟩ (by simp [Scene.cleared]) }

theorem knows_iff_completed (h : s.quests = x.log?.map fun _ => S.log.state) (quest : String) :
    x.Knows S quest ↔ s.Completed quest := by
  cases hlog : x.log? <;> simp [Knows, State.Completed, h, hlog, QuestLog.Completed]

theorem Agrees.knows_iff (h : x.Agrees g S s) (quest : String) :
    x.Knows S quest ↔ s.Completed quest := knows_iff_completed h.quests_eq quest

/-! ### Steps of quests -/

theorem state_of_advance? {log next : QuestLog (Script σ)} {quest : String} {step : QuestStep}
    (h : log.advance? quest step = some next) :
    (log.state quest).rank < step.target.rank ∧
      next.state = Function.update log.state quest step.target ∧
      next.listeners = log.listeners := by
  obtain ⟨hlt, rfl⟩ := QuestLog.eq_ask_of_advance? (e := ⟨quest, step⟩) h
  exact ⟨hlt, QuestLog.state_ask_of_lt hlt, (QuestLog.listeners_ask log _).1⟩

theorem not_lt_of_advance? {log : QuestLog (Script σ)} {quest : String} {step : QuestStep}
    (h : log.advance? quest step = none) : ¬(log.state quest).rank < step.target.rank :=
  QuestLog.advance?_eq_none_iff (e := ⟨quest, step⟩).1 h

theorem Agrees.advance_of_none (h : x.Agrees g S s) (hlog : x.log? = none) (quest : String)
    (step : QuestStep) : s.advance quest step = s := by
  have hq : s.quests = none := by rw [h.quests_eq, hlog, Option.map_none]
  rw [State.advance, hq, Option.map_none, ← hq]

theorem Agrees.advance_of_advance?_none (h : x.Agrees g S s) {l : Nat} (hlog : x.log? = some l)
    {quest : String} {step : QuestStep} (hstep : S.log.advance? quest step = none) :
    s.advance quest step = s := by
  have hq : s.quests = some S.log.state := by rw [h.quests_eq, hlog, Option.map_some]
  rw [State.advance, hq, Option.map_some, if_neg (not_lt_of_advance? hstep), ← hq]

theorem Agrees.advance_of_advance? (h : x.Agrees g S s) {l : Nat} (hlog : x.log? = some l)
    {quest : String} {step : QuestStep} {log : QuestLog (Script σ)}
    (hstep : S.log.advance? quest step = some log) :
    s.advance quest step = { s with quests := x.log?.map fun _ => log.state } := by
  obtain ⟨hlt, hstate, -⟩ := state_of_advance? hstep
  have hq : s.quests = some S.log.state := by rw [h.quests_eq, hlog, Option.map_some]
  rw [State.advance, hq, Option.map_some, if_pos hlt, hlog, Option.map_some, hstate]

/-! ### Leaving a node -/

section Leave

variable {kinds : Registry (Behaviour σ)} {K : List (Frame σ)}

/-- A node that listens for nothing leaves nothing behind. -/
theorem Quiet.cleared_eq (h : Quiet S) :
    S.cleared = { S with runner := { S.runner with current := none } } := by
  obtain ⟨R, B, L⟩ := S
  obtain ⟨hs, hw, hl, hL⟩ := h
  cases B
  cases L
  simp_all [Scene.cleared]

theorem leads_exited (visit : Nat) :
    Machine.Leads kinds (x.machine S (.exiting x.runner visit :: K)) (x.machine S K) :=
  .single (x.next_resume S K (.exiting x.runner visit))

theorem Proper.next_unsubscribe (h : x.Proper S) (key : String) (id : Nat)
    (next : Bool → Script σ) :
    Machine.Next kinds (x.machine S (.run (.unsubscribe x.bus key id next) :: K))
      (x.machine { S with bus := (S.bus.unsubscribe key id).2 }
        (.run (next (S.bus.unsubscribe key id).1) :: K)) := by
  have hn : Machine.Next kinds _ _ := x.next_resume S K
    (.run (.unsubscribe x.bus key id next))
  simp only [Machine.resume, Machine.perform, world_machine, h.bus?_place, setBus_place] at hn
  exact hn

theorem Proper.next_unawait (h : x.Proper S) (quest : String) (id : Nat)
    (next : Bool → Script σ) {T : Scene σ}
    (hT : (x.place S).settle x.bus (S.bus.unawait quest id).2 = x.place T) :
    Machine.Next kinds (x.machine S (.run (.unawait x.bus quest id next) :: K))
      (x.machine T (.run (next (S.bus.unawait quest id).1) :: K)) := by
  have hn : Machine.Next kinds _ _ := x.next_resume S K
    (.run (.unawait x.bus quest id next))
  simp only [Machine.resume, Machine.perform, world_machine, h.bus?_place, hT] at hn
  exact hn

/-- Where nobody waits any more, the bus stops listening to its quest log. -/
theorem Proper.settle_place_nil (h : x.Proper S) {B : Bus (Script σ)} (hB : B.waiters = [])
    (hs : B.service = S.bus.service)
    (hw : B.watch = none ∧ S.log.listeners = [] ∨ x.Watches S ∧ B.watch = S.bus.watch) :
    (x.place S).settle x.bus B =
      x.place { S with bus := { B with watch := none }, log := { S.log with listeners := [] } } := by
  have hempty : S.log.listeners = [] → { S.log with listeners := [] } = S.log := by
    intro hl
    rw [← hl]
  simp only [World.settle, hB, List.isEmpty_nil, if_true, World.unwatch, setBus_place]
  rcases hw with ⟨hw, hl⟩ | ⟨hw, hwB⟩
  · simp [hw, hempty hl]
  · unfold Watches at hw
    cases hlog : x.log? with
    | none =>
        rw [hlog] at hw
        simp [hwB, hw.1, hempty hw.2]
    | some l =>
        rw [hlog] at hw
        obtain ⟨id, hid, hl⟩ := hw
        have hservice : B.service = some ⟨l, true⟩ := by rw [hs, h.service_eq, hlog]; rfl
        simp only [hwB, hid, hservice, x.logs_place _ hlog, x.setLog_place _ hlog]
        simp [QuestLog.unlisten, hl]

/-- Whoever gives up waiting for a quest and was the only one leaves the bus quiet. -/
theorem Proper.next_abandon (h : x.Proper S) (quest : String) (id : Nat)
    (hc : S.runner.current = none) (hs : S.bus.subscribers = [])
    (hw : ∀ w ∈ S.bus.waiters, w.topic = quest ∧ w.id = id)
    (hl : S.bus.watch = none ∧ S.log.listeners = [] ∨ x.Watches S) :
    Machine.Next kinds (x.machine S (.run (x.abandon quest id) :: K))
      (x.machine S.cleared (.run .stop :: K)) := by
  have hun : (S.bus.unawait quest id).2.waiters = [] := by
    simpa [Bus.unawait] using hw
  refine h.next_unawait quest id _ ?_
  rw [h.settle_place_nil hun rfl (hl.imp_right fun hl => ⟨hl, rfl⟩)]
  have hR : { S.runner with current := none } = S.runner := by rw [← hc]
  have hB : { (S.bus.unawait quest id).2 with watch := none } = S.cleared.bus := by
    obtain ⟨R, B, L⟩ := S
    cases B
    simp_all [Bus.unawait, Scene.cleared]
  rw [hB, Scene.cleared, hR]

theorem leave_machine_some (R₀ : Runner (Script σ)) {node : NodeId} {visit : Nat} {t : Script σ}
    (hc : S.runner.current = some ⟨node, visit, some t⟩) :
    (x.machine { S with runner := R₀ } K).leave x.runner S.runner =
      x.machine { S with runner := { S.runner with current := none } }
        (.run t :: .exiting x.runner visit :: K) := by
  simp [Machine.leave, hc]

/-- However a node is left, the bus is quiet afterwards. -/
theorem Hears.leads_leave {a : Attention} (h : x.Hears S a) (hp : x.Proper S)
    (R₀ : Runner (Script σ)) :
    Machine.Leads kinds ((x.machine { S with runner := R₀ } K).leave x.runner S.runner)
      (x.machine S.cleared K) := by
  have hp₀ : x.Proper { S with runner := { S.runner with current := none } } := { hp with }
  cases h with
  | nothing quiet leave =>
      have hq : S.cleared = { S with runner := { S.runner with current := none } } :=
        quiet.cleared_eq
      cases hc : S.runner.current with
      | none => simp [Machine.leave, hc, hq, Relation.ReflTransGen.refl]
      | some c =>
          obtain ⟨node, visit, l⟩ := c
          have hl : x.Harmless l := leave _ hc
          cases hl with
          | none => simp [Machine.leave, hc, hq, Relation.ReflTransGen.refl]
          | stop =>
              rw [leave_machine_some R₀ hc, hq]
              exact leads_stop.trans (leads_exited visit)
          | abandon quest id =>
              rw [leave_machine_some R₀ hc]
              refine .head (hp₀.next_abandon quest id rfl quiet.subscribers ?_
                (.inl ⟨quiet.watch, quiet.listeners⟩)) (leads_stop.trans (leads_exited visit))
              simp [quiet.waiters]
  | @event key heard node visit id current subscribers armed waiters watch listeners =>
      rw [leave_machine_some R₀ current]
      have hun : (S.bus.unsubscribe key id).2 = S.cleared.bus := by
        obtain ⟨R, B, L⟩ := S
        cases B
        simp_all [Bus.unsubscribe, Scene.cleared]
      refine .head (hp₀.next_unsubscribe key id _) (leads_stop.trans ?_)
      have hT : { S with runner := { S.runner with current := none }
                         bus := (S.bus.unsubscribe key id).2 } = S.cleared := by
        rw [hun]
        simp [Scene.cleared, ← listeners]
      exact hT ▸ leads_exited visit
  | @quest quest node visit id current waiters armed open_ subscribers watches =>
      rw [leave_machine_some R₀ current]
      refine .head (hp₀.next_abandon quest id rfl subscribers ?_ (.inr watches))
        (leads_stop.trans (leads_exited visit))
      simp [waiters]

end Leave

end Setting

end StoryGraph
