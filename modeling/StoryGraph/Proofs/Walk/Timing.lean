import StoryGraph.Proofs.Walk.Refinement

/-!
# Raised early or in time

An event that is raised before anybody listens stays pending, and is handed to the node that asks
for it next. So a flow that begins at a node that waits gets equally far whether the event is raised
before the flow is started or after it (`Machine.plays_raise_start_iff`).

The walk says why. Entering a node does not depend on the node before it, nor on what that one
listened for (`Walk.follow_rest`); and a node that finds its event pending leaves the walk where a
node that has heard its event leaves it, apart from these two (`Walk.play_raise_start`).
-/

namespace StoryGraph

namespace Walk

variable {g : Graph} {s : State} {n next : Node} {key : String}

/-- Entering a node does not depend on the node before it. -/
theorem stride_rest (g : Graph) (s : State) (n : Node) : stride g s.rest n = stride g s n := rfl

theorem follow_rest (g : Graph) (s : State) (n : Node) :
    State.follow g s.rest n = State.follow g s n := by
  rw [Setting.follow_eq, stride_rest, ← Setting.follow_eq]

/-- A node listens for its event if that is not pending. -/
theorem follow_wait_of_not_mem (hact : Act.ofNode? n = some (.wait key)) (hkey : key ∉ s.pending) :
    State.follow g s n = some { s.arrive n.id with attention := .event key false } := by
  have henter : s.enter n =
      ({ s.arrive n.id with attention := .event key false }, .rests) := by
    simp only [State.enter, hact, State.perform]
    exact if_neg hkey
  rw [Setting.follow_eq, stride, henter]
  rfl

/-- A node whose event is pending takes it and is done. -/
theorem follow_wait_of_mem (hact : Act.ofNode? n = some (.wait key)) (hkey : key ∈ s.pending)
    (hnext : successor g n = some next) :
    State.follow g s n =
      State.follow g { s.arrive n.id with pending := s.pending.erase key } next := by
  have henter : s.enter n = ({ s.arrive n.id with pending := s.pending.erase key }, .done) := by
    simp only [State.enter, hact, State.perform]
    exact if_pos hkey
  rw [Setting.follow_eq, stride, henter]
  simp only [hnext, Option.isNone_some, Bool.false_eq_true, if_false]
  rfl

/-- A walk that begins at a node that waits gets equally far whether the event is raised before or
after. -/
theorem play_raise_start {id : NodeId} (hentry : g.entry = .ok id) (hn : g.node? id = some n)
    (hact : Act.ofNode? n = some (.wait key)) (hnext : successor g n = some next)
    (hkey : key ∉ s.pending) (ha : s.attention = .nothing) :
    play g s [.raise key, .start] = play g s [.start, .raise key] := by
  have hstart : ∀ s, call g s .start = State.follow g s n := by
    intro s
    simp only [call, hentry, goTo, hn, Option.elim_some]
  have hraised : (s.hold key).pending.erase key = s.pending := Finset.erase_insert hkey
  have hearly : play g s [.raise key, .start] =
      State.follow g { (s.hold key).arrive n.id with pending := s.pending } next := by
    simp only [play, List.foldlM_cons, List.foldlM_nil, hstart]
    simp only [call, ha, Option.bind_eq_bind, Option.bind_some, Option.pure_def,
      Option.bind_fun_some]
    rw [follow_wait_of_mem hact (Finset.mem_insert_self key s.pending) hnext, hraised]
  have hlate : play g s [.start, .raise key] =
      State.follow g { s.arrive n.id with attention := .event key true } next := by
    simp only [play, List.foldlM_cons, List.foldlM_nil, hstart,
      follow_wait_of_not_mem hact hkey, Option.bind_eq_bind, Option.bind_some]
    simp only [call, Option.pure_def, Option.bind_fun_some, if_true, goOn, State.arrive,
      Bool.false_eq_true, if_false, Graph.node?_id hn, Option.bind_some, hnext, Option.elim_some]
  calc play g s [.raise key, .start]
      = State.follow g { (s.hold key).arrive n.id with pending := s.pending }.rest next := by
        rw [hearly, follow_rest]
    _ = State.follow g { s.arrive n.id with attention := .event key true }.rest next := rfl
    _ = play g s [.start, .raise key] := by rw [hlate, follow_rest]

/-- How often somebody is called when an event is raised. -/
def Attention.listens (key : String) : Attention → Nat
  | .event k _ => if k = key then 1 else 0
  | .nothing | .quest _ => 0

end Walk

namespace Setting

open Walk (State)

variable {σ : Type} {x : Setting σ} {g : Graph} {S : Scene σ} {s : State}

theorem Hears.length_listeners {a : Walk.Attention} (h : x.Hears S a) (key : String) :
    (S.bus.listeners key).length = a.listens key := by
  cases h with
  | nothing quiet leave => rw [listeners_eq_nil quiet.subscribers]; rfl
  | @event k heard node visit id current subscribers armed waiters watch listeners =>
      rw [Bus.listeners, subscribers, Walk.Attention.listens]
      by_cases hk : k = key <;> simp [hk]
  | quest node visit id current waiters armed open_ subscribers watches =>
      rw [listeners_eq_nil subscribers]; rfl

end Setting

namespace World

variable {σ : Type} {w w' : World (Script σ)} {r b : Nat} {log? : Option Nat}

structure Alike (w w' : World (Script σ)) (r b : Nat) (log? : Option Nat) : Prop where
  runner : ∃ R ∈ w.runners[r]?, ∃ R' ∈ w'.runners[r]?,
    R'.current.map Current.id = R.current.map Current.id ∧ R'.halted = R.halted ∧
      R'.visits = R.visits ∧ R'.blackboard = R.blackboard
  bus : ∃ B ∈ w.buses[b]?, ∃ B' ∈ w'.buses[b]?, ∀ key,
    (key ∈ B'.pending ↔ key ∈ B.pending) ∧
      (B'.listeners key).length = (B.listeners key).length
  quests : (log?.bind fun l => w'.logs[l]?.map QuestLog.state) =
    log?.bind fun l => w.logs[l]?.map QuestLog.state

theorem alike_of_settled {x : Setting σ} {g : Graph} {S T : Scene σ} {s : Walk.State}
    (hS : x.Settled g S s) (hT : x.Settled g T s) :
    (x.place S).Alike (x.place T) x.runner x.bus x.log? where
  runner := ⟨S.runner, x.runners_place S, T.runner, x.runners_place T,
    hT.current_eq.trans hS.current_eq.symm, hT.halted_eq.trans hS.halted_eq.symm,
    hT.visits_eq.trans hS.visits_eq.symm, hT.blackboard_eq.trans hS.blackboard_eq.symm⟩
  bus := ⟨S.bus, x.buses_place S, T.bus, x.buses_place T, fun key =>
    ⟨(hT.mem_pending_iff key).trans (hS.mem_pending_iff key).symm,
      (hT.hears.length_listeners key).trans (hS.hears.length_listeners key).symm⟩⟩
  quests := hT.shows.quests.symm.trans hS.shows.quests

theorem Solitary.exists_shows {g : Graph} (h : w.Solitary g r b log?) :
    ∃ s : Walk.State, w.Shows r b log? s ∧ s.attention = .nothing ∧
      ∀ B ∈ w.buses[b]?, ∀ key, key ∈ s.pending ↔ key ∈ B.pending := by
  obtain ⟨blackboard, exposed, hR⟩ := h.runner
  obtain ⟨pending, lastId, hB⟩ := h.bus
  refine ⟨{ blackboard, pending := pending.toFinset
            quests := log?.bind fun l => w.logs[l]?.map QuestLog.state },
    ⟨⟨_, hR, rfl, rfl, rfl, rfl⟩, ⟨_, hB, fun key => List.mem_toFinset.symm⟩, rfl⟩, rfl, ?_⟩
  intro B hB' key
  obtain rfl := Option.some.inj (hB.symm.trans hB')
  exact List.mem_toFinset

end World

namespace Machine

variable {σ : Type} {m : Machine σ} {g : Graph} {r b : Nat} {log? : Option Nat}

/-- A session with a runner that is alone on its bus, in which nothing is going on, is a scene of
its world. -/
theorem exists_eq_machine {s : Walk.State} (hstack : m.stack = []) (hpanic : m.panic = none)
    (h : m.world.Solitary g r b log?) (hs : m.world.Shows r b log? s)
    (ha : s.attention = .nothing) :
    ∃ (x : Setting σ) (S : Scene σ), x.runner = r ∧ x.bus = b ∧ x.log? = log? ∧
      m = x.machine S [] ∧ x.Settled g S s := by
  obtain ⟨x, S, hr, hb, hlog, hdata, hw, hS⟩ := h.exists_scene hs ha m.data
  refine ⟨x, S, hr, hb, hlog, ?_, hS⟩
  obtain ⟨world, data, stack, panic⟩ := m
  dsimp only at hstack hpanic hdata hw
  rw [hstack, hpanic, ← hdata, ← hw]
  rfl

/-- A flow begins at a node that waits for an event and has a way on, in a runner without a limit
that is alone on its bus, and the event is not pending. Whether the event is raised before the flow
is started or after, both calls come to an end or not, and what can be seen then is the same: where
the runner is, the blackboard, the pending events, how many listen to each, and the quests. -/
theorem plays_raise_start_iff {id next : NodeId} {node : Node} {key : String}
    (hstack : m.stack = []) (hpanic : m.panic = none) (h : m.world.Solitary g r b log?)
    (hstart : g.start = some id) (hnode : g.node? id = some node)
    (hkind : node.kind = "wait_event") (htext : node.text? "key" = some key) (hne : key ≠ "")
    (hnext : node.firstOutput = some next) (hway : next ∈ g)
    (hpending : ∀ B ∈ m.world.buses[b]?, key ∉ B.pending) :
    ((∃ n, Plays Builtin.registry m [.raise b key .stop, .start r fun _ => .stop] n) ↔
      ∃ n, Plays Builtin.registry m [.start r fun _ => .stop, .raise b key .stop] n) ∧
    ∀ n n', Plays Builtin.registry m [.raise b key .stop, .start r fun _ => .stop] n →
      Plays Builtin.registry m [.start r fun _ => .stop, .raise b key .stop] n' →
      n.world.Alike n'.world r b log? := by
  obtain ⟨s, hs, ha, hshown⟩ := h.exists_shows
  obtain ⟨pending, lastId, hB⟩ := h.bus
  have hkey : key ∉ s.pending := fun hmem => hpending _ hB ((hshown _ hB key).1 hmem)
  have hmem : id ∈ g := Graph.node?_isSome_iff.1 (hnode ▸ rfl)
  have hentry : g.entry = .ok id := by
    obtain ⟨n, hn, -⟩ := Graph.mem_iff.1 hmem
    simp [Graph.entry, hstart, hmem, List.ne_nil_of_mem hn]
  have hact : Walk.Act.ofNode? node = some (.wait key) := by
    simp [Walk.Act.ofNode?, Walk.setting?, hkind, htext, hne]
  obtain ⟨target, htarget⟩ := Option.isSome_iff_exists.1 (Graph.node?_isSome_iff.2 hway)
  have hsuccessor : Walk.successor g node = some target := by
    rw [Walk.successor, hnext, Option.bind_some, htarget]
  have hplay := Walk.play_raise_start hentry hnode hact hsuccessor hkey ha
  obtain ⟨x, S, rfl, rfl, rfl, rfl, hS⟩ := exists_eq_machine hstack hpanic h hs ha
  have hearly : ∀ n, Plays Builtin.registry (x.machine S [])
      [.raise x.bus key .stop, .start x.runner fun _ => .stop] n →
      ∃ T t, n = x.machine T [] ∧ Walk.play g s [.raise key, .start] = some t ∧
        x.Settled g T t := by
    intro n hn
    have hplays : Plays Builtin.registry (x.machine S []) (x.scripts [.raise key, .start]) n := hn
    exact hS.exists_play hplays
  have hlate : ∀ n, Plays Builtin.registry (x.machine S [])
      [.start x.runner fun _ => .stop, .raise x.bus key .stop] n →
      ∃ T t, n = x.machine T [] ∧ Walk.play g s [.start, .raise key] = some t ∧
        x.Settled g T t := by
    intro n hn
    have hplays : Plays Builtin.registry (x.machine S []) (x.scripts [.start, .raise key]) n := hn
    exact hS.exists_play hplays
  refine ⟨⟨?_, ?_⟩, ?_⟩
  · rintro ⟨n, hn⟩
    obtain ⟨-, t, -, ht, -⟩ := hearly n hn
    obtain ⟨T, hT, -⟩ := hS.exists_plays (hplay.symm.trans ht)
    exact ⟨_, hT⟩
  · rintro ⟨n, hn⟩
    obtain ⟨-, t, -, ht, -⟩ := hlate n hn
    obtain ⟨T, hT, -⟩ := hS.exists_plays (hplay.trans ht)
    exact ⟨_, hT⟩
  · intro n n' hn hn'
    obtain ⟨T, t, rfl, ht, hT⟩ := hearly n hn
    obtain ⟨T', t', rfl, ht', hT'⟩ := hlate n' hn'
    obtain rfl := Option.some.inj (ht.symm.trans (hplay.trans ht'))
    exact World.alike_of_settled hT hT'

end Machine

def Graph.carillon : Graph where
  start := some ⟨"bell"⟩
  nodes :=
    [{ kind := "wait_event", id := ⟨"bell"⟩, outputs := [none, some ⟨"rope"⟩]
       properties := ⟨[("key", .string "ring")], by simp [Ascending]⟩ },
      { kind := "raise_event", id := ⟨"rope"⟩, outputs := [some ⟨"clock"⟩]
        properties := ⟨[("key", .string "ring")], by simp [Ascending]⟩ },
      { kind := "wait_event", id := ⟨"clock"⟩, outputs := [some ⟨"bell"⟩]
        properties := ⟨[("key", .string "ring")], by simp [Ascending]⟩ }]

/-- Either way the runner goes round once, and waits at the first node again. -/
theorem Machine.plays_carillon :
    let m : Machine Unit :=
      { world := { runners := [{ graph := .carillon, bus := 0, limit := none }], buses := [{}] }
        data := () }
    ∃ n n', Plays Builtin.registry m [.raise 0 "ring" .stop, .start 0 fun _ => .stop] n ∧
      Plays Builtin.registry m [.start 0 fun _ => .stop, .raise 0 "ring" .stop] n' ∧
      n.world.Alike n'.world 0 0 none ∧
      n.world.Shows 0 0 none
        { current := some ⟨"bell"⟩, attention := .event "ring" false, visits := 4 } := by
  intro m
  have hsolitary : m.world.Solitary .carillon 0 0 none :=
    ⟨⟨∅, ∅, rfl⟩, ⟨[], 0, rfl⟩, by simp⟩
  have hshows : m.world.Shows 0 0 none {} :=
    ⟨⟨_, rfl, rfl, rfl, rfl, rfl⟩, ⟨_, rfl, fun key => by simp⟩, rfl⟩
  have hplay : Walk.play .carillon {} [.raise "ring", .start] =
      some { current := some ⟨"bell"⟩, attention := .event "ring" false, visits := 4 } := by cbv
  obtain ⟨n, hn, hshown⟩ : ∃ n, Plays Builtin.registry m
      [.raise 0 "ring" .stop, .start 0 fun _ => .stop] n ∧ n.world.Shows 0 0 none _ := by
    obtain ⟨x, S, hr, hb, hlog, hm, hS⟩ := exists_eq_machine rfl rfl hsolitary hshows rfl
    obtain ⟨T, hp, hT⟩ := hS.exists_plays hplay
    have hshown := hT.shows
    rw [Setting.scripts, hr, hb, hlog] at hp
    rw [hr, hb, hlog] at hshown
    exact ⟨x.machine T [], hm ▸ hp, hshown⟩
  have hne : "ring" ≠ "" := by decide
  obtain ⟨hends, halike⟩ := plays_raise_start_iff (m := m) rfl rfl hsolitary rfl rfl rfl rfl hne rfl
    (by decide) (by simp [m])
  obtain ⟨n', hn'⟩ := hends.1 ⟨n, hn⟩
  exact ⟨n, n', hn, hn', halike n n' hn hn', hshown⟩

end StoryGraph
