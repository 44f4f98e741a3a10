import StoryGraph.Proofs.Flow.Conduct

/-!
# Nodes are entered and left in turn

Whatever scripts do, what happens to a runner is the beginning of a story: the nodes it visits are
called when they are entered and called when they are left, one call after the other and one visit
after the other. When nothing is going on, the story has been told to its end, or up to the current
visit.
-/

namespace StoryGraph

namespace Machine

variable {σ : Type} {kinds : Registry (Behaviour σ)} {r : Nat} {m n k : Machine σ}
  {past : List Happening}

theorem length_callbacks_le {R : Runner Unit} {a : Activity} (h : a.Suits R) :
    a.callbacks.length ≤ 1 := by
  cases a with
  | resting | working | leaving => exact Nat.zero_le 1
  | entering => exact Nat.le_refl 1
  | exiting visit after =>
      rw [Activity.callbacks, h.2.1]
      exact Nat.le_refl 1

/-- How far the story of a runner has been told when nothing is going on. -/
structure ToldUpTo (kinds : Registry (Behaviour σ)) (nodes : List Node) (past : List Happening)
    (R : Runner (Script σ)) : Prop where
  visits_eq : R.visits = nodes.length
  queue_eq : R.queue = []
  dispatching_eq : R.dispatching = false
  /-- A runner that is let go of is over, and has left its node. -/
  lifetime_ne : R.lifetime ≠ .released
  left_of_over : R.lifetime = .over → R.current = none
  active_of_halted : R.lifetime = .kept → R.halted = true → R.current.isSome
  /-- Where no node is current, every visit has ended. -/
  of_idle : R.current = none → past = story kinds 1 nodes
  /-- A node that is current is that of the last visit, which has not ended. -/
  of_active : ∀ c ∈ R.current, c.visit = nodes.length ∧ ∃ before last,
    nodes = before ++ [last] ∧ last.id = c.id ∧
      past = story kinds 1 before ++ opening kinds nodes.length last

theorem current_eq_none_of_stance {R : Runner (Script σ)} (h : R.stance.current = none) :
    R.current = none :=
  Option.map_eq_none_iff.1 h

theorem toldUpTo_of_tale {R : Runner (Script σ)} (hs : Activity.resting.Suits R.stance)
    {nodes : List Node} (hvisits : R.visits = nodes.length)
    (hidle : R.stance.current = none → past = story kinds 1 nodes)
    (hactive : ∀ c ∈ R.stance.current, c.visit = nodes.length ∧ ∃ before last,
      nodes = before ++ [last] ∧ last.id = c.id ∧
        past = story kinds 1 before ++ opening kinds nodes.length last) :
    ToldUpTo kinds nodes past R := by
  obtain ⟨hd, hq, hl, hover, hhalted⟩ := hs
  have hcurrent : R.stance.current.isSome = R.current.isSome := Option.isSome_map
  refine ⟨hvisits, hq, hd, hl, fun h => current_eq_none_of_stance (hover h), ?_, ?_, ?_⟩
  · intro hkept hh
    rw [← hcurrent]
    exact hhalted hkept hh
  · intro hnone
    apply hidle
    exact Option.map_eq_none_iff.2 hnone
  · intro c hc
    have hstance : R.stance.current = some ⟨c.id, c.visit, c.leave.map fun _ => ()⟩ := by
      rw [Runner.stance, Runner.map, Option.mem_def.1 hc]
      rfl
    exact hactive _ hstance

/-- What happens to a runner is the beginning of a story about nodes of its graph, with never more
than one call to a node at a time. -/
theorem History.discipline (hkinds : ∀ n p, kinds.build n ≠ .panicked p) {g : Graph} {b : Nat}
    {limit : Option Nat} {blackboard : Blackboard} {exposed : Exposed} (hm : m.stack = [])
    (hR : m.world.runners[r]? = some { graph := g, bus := b, limit, blackboard, exposed })
    (hlimit : limit ≠ some 0) (h : History kinds r m past n) :
    ∃ nodes : List Node, (∀ node ∈ nodes, node ∈ g.nodes) ∧ past <+: story kinds 1 nodes ∧
      (n.callbacks r).length ≤ 1 ∧
      (n.stack = [] → ∃ R ∈ n.world.runners[r]?, ToldUpTo kinds nodes past R) := by
  have hfresh : Conduct kinds g r .resting [] m := conduct_of_fresh (hm ▸ free_nil) hR hlimit
  obtain ⟨a, ha⟩ := h.conduct hkinds hfresh
  obtain ⟨R, hRn, hgraph, -, hsuits, htale⟩ := ha.runner
  have hcalls : (n.callbacks r).length ≤ 1 := by
    rw [ha.callbacks_eq]
    exact length_callbacks_le hsuits
  cases htale with
  | idle nodes mem current visits past_eq =>
      refine ⟨nodes, hgraph ▸ mem, ⟨_, past_eq⟩, hcalls, fun hn => ⟨R, hRn, ?_⟩⟩
      obtain rfl := ha.eq_resting hn
      rw [Activity.callbacks, List.map_nil, List.append_nil] at past_eq
      refine toldUpTo_of_tale hsuits visits (fun _ => past_eq) fun c hc => ?_
      rw [current] at hc
      cases hc
  | active nodes last leave mem node current built visits past_eq =>
      have hstory : story kinds 1 (nodes ++ [last]) = past ++ (a.callbacks.map .returns ++
          closing kinds (nodes.length + 1) last) := by
        rw [story_append_singleton, Nat.add_comm 1, ← List.append_assoc, ← past_eq,
          List.append_assoc]
      have hlength : (nodes ++ [last]).length = nodes.length + 1 := List.length_append
      refine ⟨nodes ++ [last], ?_, ⟨_, hstory.symm⟩, hcalls, fun hn => ⟨R, hRn, ?_⟩⟩
      · intro k hk
        rw [← hgraph]
        rcases List.mem_append.1 hk with hk | hk
        · exact mem k hk
        · rw [List.mem_singleton.1 hk]
          exact Graph.mem_of_node? node
      · obtain rfl := ha.eq_resting hn
        rw [Activity.callbacks, List.map_nil, List.append_nil] at past_eq
        refine toldUpTo_of_tale hsuits (visits.trans hlength.symm) (fun hnone => ?_) fun c hc => ?_
        · rw [current] at hnone
          cases hnone
        · rw [current] at hc
          obtain rfl := Option.some.inj hc
          exact ⟨hlength.symm, nodes, last, rfl, rfl, by rw [hlength]; exact past_eq⟩

theorem History.leads (h : History kinds r m past n) (hl : Leads kinds n k) :
    ∃ later, History kinds r m later k := by
  induction hl with
  | refl => exact ⟨past, h⟩
  | tail _ next ih =>
      obtain ⟨later, hlater⟩ := ih
      exact ⟨_, hlater.step next⟩

def echoNode : Node := { kind := "echo", id := ⟨"echo"⟩ }

def echoKinds : Registry (Behaviour Unit) :=
  ⟨[{ tag := "echo", label := "Echo"
      build := fun n => .ready fun v => .ask v.runner (.goTo n.id) .stop }]⟩

def echoMachine : Machine Unit where
  world :=
    { runners := [{ graph := { start := some ⟨"echo"⟩, nodes := [echoNode] }, bus := 0
                    limit := some 2 }]
      buses := [{}] }
  data := ()

theorem discipline_echo : ∃ past n, History echoKinds 0 echoMachine past n ∧
    past = story echoKinds 1 [echoNode] ++ opening echoKinds 2 echoNode := by
  obtain ⟨n, hrun, hvisits⟩ : ∃ n, (echoMachine.call (.start 0 fun _ => .stop)).run echoKinds 30 =
      some n ∧ n.world.runners[0]?.map (fun R => (R.visits, R.current.isSome)) = some (2, true) :=
    ⟨_, rfl, rfl⟩
  obtain ⟨hl, hstack⟩ := leads_of_run hrun
  obtain ⟨past, h⟩ := ((History.refl : History echoKinds 0 _ _ echoMachine).call rfl
    (.start 0 fun _ => .stop)).leads hl
  refine ⟨past, n, h, ?_⟩
  have hkinds : ∀ n p, echoKinds.build n ≠ .panicked p := by
    intro n p
    simp only [Registry.build, Registry.kind?, echoKinds, List.find?]
    by_cases htag : "echo" = n.kind <;> simp [htag]
  obtain ⟨nodes, hmem, -, -, hrest⟩ := h.discipline hkinds rfl rfl (by decide)
  obtain ⟨R, hR, htold⟩ := hrest hstack
  rw [Option.mem_def.1 hR] at hvisits
  obtain ⟨hv, hc⟩ := Prod.mk.inj (Option.some.inj hvisits)
  obtain ⟨c, hc⟩ := Option.isSome_iff_exists.1 hc
  obtain ⟨-, before, last, rfl, -, hpast⟩ := htold.of_active c hc
  have hlength : (before ++ [last]).length = 2 := htold.visits_eq.symm.trans hv
  have hall : ∀ k ∈ before ++ [last], k = echoNode := fun k hk => List.mem_singleton.1 (hmem k hk)
  obtain ⟨first, rfl⟩ := List.length_eq_one_iff.1 (Nat.succ.inj (List.length_append ▸ hlength))
  obtain rfl := hall first (List.mem_append_left _ List.mem_cons_self)
  obtain rfl := hall last (List.mem_append_right _ List.mem_cons_self)
  exact hpast

end Machine

end StoryGraph
