import StoryGraph.Proofs.Flow.Pledges

/-!
# Dead ends

A flow that is not halted where nothing is going on has a node that waits for something, or has come
to a dead end that nobody reports. The second happens to branches alone: a node that is done halts
the flow where there is no way on, but a jump that leads nowhere is passed over
(`Machine.Chronicle.awaits_or_strands`).

What carries this is that somebody answers for every visit that goes on unhalted
(`Machine.AnswersFor`): the node waits, somebody is going to speak for it, its word or its jump is
in the queue, or the jump has been passed over. A step loses none of these but to the next one
(`Machine.Attended.next`), because a visit that goes on unhalted loses no task but those that let it
stay (`Runner.Endures`).
-/

namespace StoryGraph

variable {σ : Type}

open Builtin (Wait)

namespace Runner

variable {κ : Type _} {R R' R₁ : Runner κ} {c c' : Current κ}

/-- A visit goes on, and no task is lost but those that let the runner stay. -/
structure Bides (R R' : Runner κ) (c c' : Current κ) : Prop where
  mem : c ∈ R.current
  id : c.id = c'.id
  visit : c.visit = c'.visit
  graph : R'.graph = R.graph
  queue : ∀ t ∈ R.queue, t ∈ R'.queue ∨ R.move t = .stay

/-- A runner goes on. If it is in a visit and not halted, it was so before. -/
structure Endures (R R' : Runner κ) : Prop where
  bus : R'.bus = R.bus
  limit : R'.limit = R.limit
  visit : ∀ c' ∈ R'.current, R'.halted = false → R.halted = false ∧ ∃ c, R.Bides R' c c'

theorem Endures.refl (R : Runner κ) : R.Endures R :=
  ⟨rfl, rfl, fun c hc hgoes => ⟨hgoes, c, hc, rfl, rfl, rfl, fun _ ht => .inl ht⟩⟩

theorem endures_of_eq (hgraph : R'.graph = R.graph) (hbus : R'.bus = R.bus)
    (hlimit : R'.limit = R.limit) (hhalted : R'.halted = R.halted)
    (hcurrent : R'.current = R.current) (hqueue : ∀ t ∈ R.queue, t ∈ R'.queue ∨ R.move t = .stay) :
    R.Endures R' :=
  ⟨hbus, hlimit, fun c hc hgoes =>
    ⟨hhalted ▸ hgoes, c, hcurrent ▸ hc, rfl, rfl, hgraph, hqueue⟩⟩

theorem endures_of_over (hbus : R'.bus = R.bus) (hlimit : R'.limit = R.limit)
    (h : R'.current = none ∨ R'.halted = true) : R.Endures R' := by
  refine ⟨hbus, hlimit, fun c' hc' hgoes => ?_⟩
  rcases h with hnone | hhalted
  · rw [hnone] at hc'
    cases hc'
  · rw [hhalted] at hgoes
    cases hgoes

theorem move_stance (R : Runner κ) (t : Task) : R.stance.move t = R.move t := by
  have honward : R.stance.onward = R.onward := by
    unfold onward
    cases hc : R.current <;> simp [stance, map, hc]
  cases t with
  | request request =>
      cases request with
      | advance => exact honward
      | goTo | jump | stop => rfl
  | done visit =>
      simp only [move, honward]
      cases hc : R.current <;> simp [stance, map, hc]

end Runner

namespace Machine

variable {b r visit : Nat} {past : List (Machine σ)} {m n k : Machine σ}
  {R R' : Runner (Script σ)} {c c' : Current (Script σ)} {act : Walk.Act}
  {below : List (Frame σ)}

/-! ### Visits that go on -/

/-- A runner without a limit goes on in its visit, halts, or leaves its node, unless it enters
one. -/
theorem endures_of_changes {kinds : Registry (Behaviour σ)} {f : Frame σ}
    (h : R.Changes kinds r f R') (hlimit : R.limit = none)
    (hway : ∀ node, f ≠ .leaving r (some node)) (hleft : f = .leaving r none → R.current = none) :
    R.Endures R' := by
  have hkept : ∀ t ∈ R.queue, t ∈ R.queue ∨ R.move t = .stay := fun _ ht => .inl ht
  cases h with
  | same => exact .refl R
  | starts | asks | speaks =>
      exact Runner.endures_of_eq rfl rfl rfl rfl rfl fun t ht =>
        .inl (List.mem_append_left _ ht)
  | wastes | sets | releases | rests => exact Runner.endures_of_eq rfl rfl rfl rfl rfl hkept
  | lays visit leave next =>
      refine ⟨rfl, rfl, fun c' hc' hgoes => ⟨hgoes, ?_⟩⟩
      obtain ⟨c, hc, rfl⟩ := Option.map_eq_some_iff.1 hc'
      refine ⟨c, hc, ?_, ?_, rfl, hkept⟩ <;> split <;> rfl
  | ends | expires => exact Runner.endures_of_over rfl rfl (.inl rfl)
  | quits queue reached | collapses queue reached released => simp [hlimit] at reached
  | @stays entered room task queue first move =>
      refine Runner.endures_of_eq rfl rfl rfl rfl rfl fun t ht => ?_
      rcases List.mem_cons.1 (first ▸ ht) with rfl | ht
      · exact .inr move
      · exact .inl ht
  | halts => exact Runner.endures_of_over rfl rfl (.inr rfl)
  | departs => exact Runner.endures_of_over rfl rfl (.inl rfl)
  | relaxes => exact Runner.endures_of_over rfl rfl (.inl (hleft rfl))
  | refused | breaks | enters => exact absurd rfl (hway _)

/-- A step by which the runner enters no node. -/
theorem exists_endures_of_next (hk : Kept b past m) (hR : R ∈ m.world.runners[r]?)
    (hlimit : R.limit = none) (hn : Next Builtin.registry m n)
    (hway : ∀ node, m.stack.head? ≠ some (.leaving r (some node))) :
    ∃ R' ∈ n.world.runners[r]?, R.Endures R' := by
  obtain ⟨f, below, R', hm, hR', hchanges, -⟩ := hk.covered.exists_changes hR hn
  refine ⟨R', hR', endures_of_changes hchanges hlimit ?_ ?_⟩
  · rintro node rfl
    exact hway node (by rw [hm]; rfl)
  · rintro rfl
    exact ((hk.conducted r).at_leaving hm hR).1

/-! ### Who answers for a visit -/

inductive AnswersFor (b : Nat) (past : List (Machine σ)) (m : Machine σ) (r : Nat)
    (R : Runner (Script σ)) (c : Current (Script σ)) (act : Walk.Act) : Prop where
  | waits (armed : c.visit ∈ R.armed) {w : Wait} (waits : Waits b past r c.visit w)
  | promised (armed : c.visit ∈ R.armed)
    (promised : Promised act c.id b r c.visit (Chosen act c.id b past r c.visit) m.stack)
  | answered {t : Task} (answers : t.Answers c.id c.visit (Chosen act c.id b past r c.visit))
    (queued : t ∈ R.queue)
  /-- The jump of a branch led nowhere, and has been passed over. -/
  | stuck {slot : Nat} (chosen : Chosen act c.id b past r c.visit slot)
    (stays : R.move (.request (.jump c.id slot)) = .stay)

/-- Somebody answers for the current visit of a runner without a limit, unless the flow is
halted. -/
structure Attended (b : Nat) (past : List (Machine σ)) (m : Machine σ) (r : Nat)
    (R : Runner (Script σ)) : Prop where
  mem : R ∈ m.world.runners[r]?
  limit : R.limit = none
  bus : R.bus = b
  visit : ∀ c ∈ R.current, R.halted = false → ∃ act,
    R.graph.node? c.id >>= Walk.Act.ofNode? = some act ∧ AnswersFor b past m r R c act

theorem Attended.isAlive (h : Attended b past m r R) (hk : Kept b past m) (hc : c ∈ R.current) :
    R.isAlive = true := by
  obtain ⟨g, a, happened, hconduct⟩ := hk.exists_conduct h.mem h.limit
  exact hconduct.isAlive h.mem (by simp [Runner.stance, Runner.map, Option.mem_def.1 hc])

/-- A jump that has led nowhere leads nowhere as long as the visit goes on. -/
theorem AnswersFor.of_stuck {slot : Nat} (chosen : Chosen act c.id b past r c.visit slot)
    (stays : R.move (.request (.jump c.id slot)) = .stay) (hbides : R.Bides R' c c') :
    AnswersFor b past m r R' c' act := by
  refine .stuck (hbides.id ▸ hbides.visit ▸ chosen) ?_
  rw [move_jump_eq hbides.graph, ← hbides.id]
  exact stays

/-- What a task in the queue is there for happens, or was a jump that is passed over. -/
theorem AnswersFor.of_task {t : Task}
    (answers : t.Answers c.id c.visit (Chosen act c.id b past r c.visit)) (queued : t ∈ R.queue)
    (hbides : R.Bides R' c c') : AnswersFor b past m r R' c' act := by
  rcases hbides.queue t queued with queued | hstay
  · exact .answered (hbides.id ▸ hbides.visit ▸ answers) queued
  · cases answers with
    | done =>
        have hmove : R.move (.done c.visit) = R.onward := by
          simp [Runner.move, Option.mem_def.1 hbides.mem]
        have hin : R.visit?.isSome := by rw [Runner.visit?, Option.mem_def.1 hbides.mem]; rfl
        rcases onward_cases hin with hhalt | ⟨node, hnode⟩
        · cases hstay.symm.trans (hmove.trans hhalt)
        · cases hstay.symm.trans (hmove.trans hnode)
    | jump chosen => exact .of_stuck chosen hstay hbides

/-- A node that has its chance to say that it is done still has it, or has said so. -/
theorem Attended.armed_or_done (h : Attended b past m r R) (hk : Kept b past m)
    (hn : Next Builtin.registry m n) (hR' : R' ∈ n.world.runners[r]?) (hc : c ∈ R.current)
    (armed : c.visit ∈ R.armed) :
    (m.given? r ≠ some c.visit ∧ c.visit ∈ R'.armed) ∨ .done c.visit ∈ R'.queue := by
  by_cases hgiven : m.given? r = some c.visit
  · obtain ⟨S, hS, hdone⟩ := exists_done_of_given h.mem (h.isAlive hk hc) armed hgiven hn
    obtain rfl := Option.some.inj (hR'.symm.trans hS)
    exact .inr hdone
  · obtain ⟨S, hS, hturns⟩ := exists_turns_of_next h.mem h.limit hn
    obtain rfl := Option.some.inj (hR'.symm.trans hS)
    exact .inl ⟨hgiven, not_not.1 fun hused => hgiven (hturns.given_of_armed armed hused)⟩

/-- A visit goes on that somebody answers for. -/
theorem Attended.answersFor_next (h : Attended b past m r R) (hk : Kept b past m)
    (hn : Next Builtin.registry m n) (hR' : R' ∈ n.world.runners[r]?)
    (hbides : R.Bides R' c c') (hanswers : AnswersFor b past m r R c act) :
    AnswersFor b (m :: past) n r R' c' act := by
  have hc := hbides.mem
  cases hanswers with
  | answered answers queued =>
      exact .of_task (answers.mono fun slot hslot => hslot.later m) queued hbides
  | stuck chosen stays => exact .of_stuck (chosen.later m) stays hbides
  | @waits armed w waits =>
      rcases h.armed_or_done hk hn hR' hc armed with ⟨hgiven, harmed⟩ | hdone
      · rw [hbides.visit] at harmed
        by_cases hnotifies : m.Notifies b w
        · have hin : R.visit? = some c.visit := by
            rw [Runner.visit?, Option.mem_def.1 hc, Option.map_some]
          have hpromised : Promised act c.id b r c.visit
              (Chosen act c.id b (m :: past) r c.visit) n.stack :=
            promised_of_notifies hk waits h.mem h.bus hin hnotifies hn
          exact .promised harmed (hbides.id ▸ hbides.visit ▸ hpromised)
        · exact .waits harmed (.inr ⟨hbides.visit ▸ waits, hnotifies⟩)
      · exact .answered .done (hbides.visit ▸ hdone)
  | promised armed promised =>
      rcases h.armed_or_done hk hn hR' hc armed with ⟨hgiven, harmed⟩ | hdone
      · rw [hbides.visit] at harmed
        rcases promised.next hk h.mem (h.isAlive hk hc) hgiven hn with
          hpromised | ⟨w, hbegins⟩ | ⟨t, answers, S, hS, queued⟩
        · exact .promised harmed (hbides.id ▸ hbides.visit ▸ hpromised)
        · exact .waits harmed (.inl (hbides.visit ▸ hbegins))
        · obtain rfl := Option.some.inj (hR'.symm.trans hS)
          exact .answered (hbides.id ▸ hbides.visit ▸ answers) queued
      · exact .answered .done (hbides.visit ▸ hdone)

/-- The node of a visit that begins answers for it, unless it is refused. -/
theorem Attended.enter (h : Attended b past m r R) (hk : Kept b past m) {node : Node}
    (hm : m.stack = .leaving r (some node) :: below) (hn : Next Builtin.registry m n) :
    ∃ R', Attended b (m :: past) n r R' := by
  have hp : m.panic = none := by
    by_contra hp
    cases hk.covered.caught hp _ (by rw [hm]; rfl)
  have hn' : n = ({ m with stack := below } : Machine σ).enter Builtin.registry r R node := by
    rw [eq_resume_of_next hm hp hn]
    simp only [resume, Option.mem_def.1 h.mem]
  have hnode : R.graph.node? node.id = some node :=
    ((hk.conducted r).at_leaving hm h.mem).2.2 node rfl
  have hset : ∀ R', R' ∈
      (({ m with stack := below } : Machine σ).setRunner r R').world.runners[r]? :=
    runners_setRunner (m := { m with stack := below }) h.mem
  unfold Machine.enter at hn'
  dsimp only at hn'
  split at hn'
  · let refused : Runner (Script σ) :=
      { R with visits := R.visits + 1, halted := true
               current := some ⟨node.id, R.visits + 1, none⟩ }
    exact ⟨refused, hn' ▸ hset refused, h.limit, h.bus, fun c hc hgoes => by cases hgoes⟩
  · rename_i e he
    exact absurd he (Builtin.build_ne_panicked node e)
  · rename_i behaviour hbuild
    obtain ⟨act, hact, rfl⟩ := Builtin.exists_act_of_build hbuild
    let begun : Runner (Script σ) :=
      { R with visits := R.visits + 1, halted := false, armed := (R.visits + 1) :: R.armed
               current := some ⟨node.id, R.visits + 1, some .stop⟩ }
    refine ⟨begun, hn' ▸ hset begun, h.limit, h.bus, fun c hc _ => ⟨act, ?_, ?_⟩⟩
    · obtain rfl := Option.some.inj hc
      exact Option.bind_eq_some_iff.2 ⟨node, hnode, hact⟩
    · obtain rfl := Option.some.inj hc
      refine .promised List.mem_cons_self ?_
      rw [hn', h.bus]
      exact .works (act.pledges_behaviour node.id _ _) below

theorem Attended.next (h : Attended b past m r R) (hk : Kept b past m)
    (hn : Next Builtin.registry m n) : ∃ R', Attended b (m :: past) n r R' := by
  by_cases hway : ∃ node, m.stack.head? = some (.leaving r (some node))
  · obtain ⟨node, hhead⟩ := hway
    obtain ⟨below, hm⟩ := List.head?_eq_some_iff.1 hhead
    exact h.enter hk hm hn
  · obtain ⟨R', hR', hendures⟩ :=
      exists_endures_of_next hk h.mem h.limit hn fun node hhead => hway ⟨node, hhead⟩
    refine ⟨R', hR', hendures.limit.trans h.limit, hendures.bus.trans h.bus,
      fun c' hc' hgoes => ?_⟩
    obtain ⟨hbefore, c, hbides⟩ := hendures.visit c' hc' hgoes
    obtain ⟨act, hact, hanswers⟩ := h.visit c hbides.mem hbefore
    refine ⟨act, ?_, h.answersFor_next hk hn hR' hbides hanswers⟩
    rw [hbides.graph, ← hbides.id]
    exact hact

theorem Attended.call (h : Attended b past m r R) (hm : m.stack = []) (s : Script σ) :
    Attended b past (m.call s) r R := by
  refine ⟨h.mem, h.limit, h.bus, fun c hc hgoes => ?_⟩
  obtain ⟨act, hact, hanswers⟩ := h.visit c hc hgoes
  refine ⟨act, hact, ?_⟩
  cases hanswers with
  | waits armed waits => exact .waits armed waits
  | promised armed promised =>
      rw [hm] at promised
      cases promised
  | answered answers queued => exact .answered answers queued
  | stuck chosen stays => exact .stuck chosen stays

theorem attended_of_fresh (hR : R ∈ m.world.runners[r]?) (hfresh : R.Fresh)
    (hlimit : R.limit = none) (hbus : R.bus = b) : Attended b past m r R := by
  refine ⟨hR, hlimit, hbus, fun c hc => ?_⟩
  obtain ⟨graph, bus, limit, blackboard, exposed, rfl⟩ := hfresh
  cases hc

/-- Somebody answers for every runner without a limit, whenever it was made. -/
theorem Chronicle.attended (h : Chronicle Builtin.registry m past n) (hm : m.Fresh)
    (hb : b < m.world.buses.length) (hR : R ∈ n.world.runners[r]?) (hlimit : R.limit = none)
    (hbus : R.bus = b) : Attended b past n r R := by
  induction h generalizing R with
  | refl =>
      exact attended_of_fresh hR (hm.runners R (List.mem_of_getElem? hR)) hlimit hbus
  | @step past n k h fair next ih =>
      rcases keeps_or_fresh next hR with ⟨S, hS, hkeeps⟩ | ⟨-, hfresh⟩
      · have hattended := ih hS (hkeeps.limit.symm.trans hlimit) (hkeeps.bus.symm.trans hbus)
        obtain ⟨R', hattended'⟩ := hattended.next (h.kept hm hb) next
        obtain rfl := Option.some.inj (hR.symm.trans hattended'.mem)
        exact hattended'
      · exact attended_of_fresh hR hfresh hlimit hbus
  | call h rests outside ih => exact (ih hR hlimit hbus).call rests _

/-! ### Where nothing is going on -/

theorem Attended.queue_eq_nil (h : Attended b past m r R) (hk : Kept b past m)
    (hm : m.stack = []) : R.queue = [] := by
  obtain ⟨g, a, happened, hconduct⟩ := hk.exists_conduct h.mem h.limit
  obtain rfl := hconduct.eq_resting hm
  obtain ⟨S, hS, hs⟩ := hconduct.runner
  obtain rfl := Option.some.inj (h.mem.symm.trans hS)
  exact hs.suits.2.1

/-- The node of a visit waits for something on a bus, and will be called for it: it is registered
there, and has not used its chance to say that it is done. -/
def Awaits (b : Nat) (past : List (Machine σ)) (n : Machine σ) (r : Nat) (R : Runner (Script σ))
    (c : Current (Script σ)) : Prop :=
  c.visit ∈ R.armed ∧ ∃ w, n.Waiting b past r w ∧ ∃ B, n.world.bus? b = some B ∧
    ∃ e ∈ B.entries, e.wait = w ∧ e.callback.speaker? = some (r, c.visit)

/-- The node of a visit is a branch, and the slot that it chose when it was entered leads nowhere.
Its runner waits for nothing. -/
def Strands (b : Nat) (past : List (Machine σ)) (n : Machine σ) (r : Nat) (R : Runner (Script σ))
    (c : Current (Script σ)) : Prop :=
  (∃ key slot, R.graph.node? c.id >>= Walk.Act.ofNode? = some (.branch key) ∧
    Chosen (.branch key) c.id b past r c.visit slot ∧
    R.move (.request (.jump c.id slot)) = .stay) ∧ ∀ w, ¬n.Waiting b past r w

/-- Nothing is waited for at a branch. -/
theorem not_waiting_of_branch {key : String} (hR : R ∈ n.world.runners[r]?) (hc : c ∈ R.current)
    (hact : R.graph.node? c.id >>= Walk.Act.ofNode? = some (.branch key)) (w : Wait) :
    ¬n.Waiting b past r w := by
  rintro ⟨S, hS, -, -, c', hc', hwait, -⟩
  obtain rfl := Option.some.inj (hR.symm.trans hS)
  obtain rfl := Option.some.inj (hc.symm.trans hc')
  obtain ⟨act, hact', hwait⟩ := Option.bind_eq_some_iff.1 hwait
  obtain rfl := Option.some.inj (hact.symm.trans hact')
  cases hwait

theorem Chronicle.exists_keeps {kinds : Registry (Behaviour σ)} (h : Chronicle kinds m past n)
    (hR : R ∈ m.world.runners[r]?) : ∃ R' ∈ n.world.runners[r]?, R.Keeps R' := by
  induction h with
  | refl => exact ⟨R, hR, rfl, rfl, rfl, le_rfl⟩
  | step h fair next ih =>
      obtain ⟨S, hS, hkeeps⟩ := ih
      obtain ⟨R', hR', hkeeps'⟩ := exists_keeps_of_next hS next
      exact ⟨R', hR', hkeeps.trans hkeeps'⟩
  | call h rests outside ih => exact ih

/-- Runners last. Whenever nothing is going on, the node of a flow without a limit that is not
halted is registered on the bus for what it waits for; or it is a branch whose choice leads nowhere,
and then its runner waits for nothing. -/
theorem Chronicle.awaits_or_strands (h : Chronicle Builtin.registry m past n) (hm : m.Fresh)
    (hn : n.stack = []) :
    (∀ (r : Nat) (R : Runner (Script σ)), m.world.runners[r]? = some R →
      ∃ R', n.world.runners[r]? = some R' ∧ R.Keeps R') ∧
    ∀ (r : Nat) (R : Runner (Script σ)), n.world.runners[r]? = some R → R.limit = none →
      R.bus < m.world.buses.length → ∀ c, R.current = some c → R.halted = false →
        n.Awaits R.bus past r R c ∨ n.Strands R.bus past r R c := by
  refine ⟨fun r R hR => h.exists_keeps hR, fun r R hR hlimit hb c hc hgoes => ?_⟩
  have hattended := h.attended hm hb hR hlimit rfl
  have hk := h.kept hm hb
  obtain ⟨act, hact, hanswers⟩ := hattended.visit c hc hgoes
  cases hanswers with
  | @waits armed w waits =>
      obtain ⟨p, hpage, hledger⟩ := (hk.nearly.balanced hn).ledger
      obtain ⟨B, hB, -, rfl⟩ := World.exists_bus?_of_mem_page? hpage
      have hcard := World.mem_card? hattended.mem
      obtain ⟨e, he, hwait, hs⟩ := hledger.found r _ hcard hattended.bus c hc w waits
      obtain ⟨hwaiting, -⟩ := waiting_of_speaker hB ⟨_, hpage, hledger⟩ he hs
      exact .inl ⟨armed, w, hwait ▸ hwaiting, B, hB, e, he, hwait, hs⟩
  | promised armed promised =>
      rw [hn] at promised
      cases promised
  | answered answers queued =>
      rw [hattended.queue_eq_nil hk hn] at queued
      cases queued
  | @stuck slot chosen stays =>
      obtain ⟨key, rfl, -⟩ := id chosen
      exact .inr ⟨⟨key, slot, hact, chosen, stays⟩,
        not_waiting_of_branch hattended.mem hc hact⟩

def crossroads : Machine Unit where
  world :=
    { runners :=
        [{ bus := 0, limit := none
           graph :=
             { start := some ⟨"a"⟩
               nodes := [{ kind := "wait_event", id := ⟨"a"⟩
                           properties := ⟨[("key", .string "knock")], by simp [Ascending]⟩ }] } },
          { bus := 0, limit := none
            graph :=
              { start := some ⟨"b"⟩
                nodes := [{ kind := "branch", id := ⟨"b"⟩, outputs := [none, some ⟨"ghost"⟩]
                            properties := ⟨[("key", .string "lit")], by simp [Ascending]⟩ }] } }]
      buses := [{}] }
  data := ()

def reachCrossroads : Script Unit := .start 0 fun _ => .start 1 fun _ => .stop

theorem awaits_or_strands_crossroads : ∃ past n, Chronicle Builtin.registry crossroads past n ∧
    n.stack = [] ∧
    (∃ R c, n.world.runners[0]? = some R ∧ R.current = some c ∧ R.halted = false ∧
      n.Awaits 0 past 0 R c) ∧
    ∃ R c, n.world.runners[1]? = some R ∧ R.current = some c ∧ R.halted = false ∧
      n.Strands 0 past 1 R c := by
  obtain ⟨n, hafter, hn, hfair, ⟨R₀, c₀, hR₀, hlimit₀, hbus₀, hc₀, hgoes₀, hact₀⟩, R₁, c₁, hR₁,
      hlimit₁, hbus₁, hc₁, hgoes₁, hact₁⟩ : ∃ n,
      (crossroads.call reachCrossroads).after Builtin.registry 18 = some n ∧ n.stack = [] ∧
      ((crossroads.call reachCrossroads).moments Builtin.registry 18).all
        (fun i => decide i.Fair) = true ∧
      (∃ R c, n.world.runners[0]? = some R ∧ R.limit = none ∧ R.bus = 0 ∧ R.current = some c ∧
        R.halted = false ∧ R.graph.node? c.id >>= Walk.Act.ofNode? = some (.wait "knock")) ∧
      ∃ R c, n.world.runners[1]? = some R ∧ R.limit = none ∧ R.bus = 0 ∧ R.current = some c ∧
        R.halted = false ∧ R.graph.node? c.id >>= Walk.Act.ofNode? = some (.branch "lit") :=
    ⟨_, rfl, rfl, rfl, ⟨_, _, rfl, rfl, rfl, rfl, rfl, rfl⟩, _, _, rfl, rfl, rfl, rfl, rfl, rfl⟩
  have hfresh : crossroads.Fresh := by
    refine ⟨rfl, ?_, List.forall_mem_singleton.2 ⟨none, rfl⟩, fun l hl => ?_⟩
    · rintro R hR
      rcases List.mem_pair.1 hR with rfl | rfl <;> exact ⟨_, _, _, _, _, rfl⟩
    · cases hl
  have houtside : reachCrossroads.All Script.Outside :=
    ⟨trivial, fun _ => ⟨trivial, fun _ => trivial⟩⟩
  have h := chronicle_of_after rfl houtside hafter hfair
  have hrests := (h.awaits_or_strands hfresh hn).2
  refine ⟨_, n, h, hn, ⟨R₀, c₀, hR₀, hc₀, hgoes₀, ?_⟩, R₁, c₁, hR₁, hc₁, hgoes₁, ?_⟩
  · have hrest := hrests 0 R₀ hR₀ hlimit₀ (hbus₀ ▸ by decide) c₀ hc₀ hgoes₀
    rw [hbus₀] at hrest
    rcases hrest with hawaits | ⟨⟨key, slot, hbranch, -⟩, -⟩
    · exact hawaits
    · cases hact₀.symm.trans hbranch
  · have hrest := hrests 1 R₁ hR₁ hlimit₁ (hbus₁ ▸ by decide) c₁ hc₁ hgoes₁
    rw [hbus₁] at hrest
    rcases hrest with ⟨-, w, hwaiting, -⟩ | hstrands
    · exact absurd hwaiting (not_waiting_of_branch hR₁ hc₁ hact₁ w)
    · exact hstrands

end Machine

end StoryGraph
