import StoryGraph.Proofs.Flow.Orderly
import StoryGraph.Proofs.Flow.Queue

/-!
# Nobody is registered in vain

`Machine.Chronicle` keeps the moments of a session in which scripts are called from outside whenever
nothing is going on: they make runners and command them, subscribe and wait and give back their
numbers, and attach other quest services. What nodes wait for is read off these moments
(`Machine.Waits`).

Whenever nothing is going on, a bus has as many subscribers and as many who wait for quests as there
are such from outside and live runners whose current visit is one in which the node waits
(`Machine.Chronicle.registered`). So nothing is left of a visit that has ended.
-/

namespace StoryGraph

variable {σ : Type}

open Builtin (Wait)

def Builtin.Wait.isQuest : Wait → Bool
  | .event _ => false
  | .quest _ => true

namespace Bus

variable (B : Bus (Script σ)) (f : Script σ → Bool)

theorem length_filter_event (key : String) :
    (B.entries.filter fun e => decide (e.wait = .event key) && f e.callback).length =
      (B.subscribers.filter fun s => s.topic = key && f s.callback).length := by
  rw [filter_entries]
  simp

theorem length_filter_quest :
    (B.entries.filter fun e => e.wait.isQuest && f e.callback).length =
      (B.waiters.filter fun s => f s.callback).length := by
  rw [filter_entries]
  simp [Wait.isQuest]

end Bus

namespace Machine

structure Fresh (m : Machine σ) : Prop where
  stack : m.stack = []
  runners : ∀ R ∈ m.world.runners, R.Fresh
  buses : ∀ B ∈ m.world.buses, ∃ service, B = { service }
  logs : ∀ l ∈ m.world.logs, l.listeners = []

/-- The moments before a moment of a session, the last one first. Whenever nothing is going on,
scripts may be called from outside. They may do all but speak for visits and let go of buses, and
nobody gives back the number of a node but the node. -/
inductive Chronicle (kinds : Registry (Behaviour σ)) (m : Machine σ) :
    List (Machine σ) → Machine σ → Prop where
  | refl : Chronicle kinds m [] m
  | step {past : List (Machine σ)} {n k : Machine σ} (h : Chronicle kinds m past n) (fair : n.Fair)
    (next : Next kinds n k) : Chronicle kinds m (n :: past) k
  | call {past : List (Machine σ)} {n : Machine σ} (h : Chronicle kinds m past n)
    (rests : n.stack = []) {s : Script σ} (outside : s.All Script.Outside) :
    Chronicle kinds m past (n.call s)

/-- What the node of a visit has begun to wait for on a bus, and still waits for. -/
def Waits (b : Nat) : List (Machine σ) → Nat → Nat → Wait → Prop
  | [], _, _, _ => False
  | m :: past, r, visit, w => m.Begins b r visit w ∨ Waits b past r visit w ∧ ¬m.Notifies b w

/-- A live runner is at a node that is there to wait for something on a bus, and waits for it in the
current visit. -/
def Waiting (b : Nat) (past : List (Machine σ)) (r : Nat) (w : Wait) (m : Machine σ) : Prop :=
  ∃ R ∈ m.world.runners[r]?, R.isAlive = true ∧ R.bus = b ∧
    ∃ c ∈ R.current, R.graph.wait? c.id = some w ∧ Waits b past r c.visit w

variable {b : Nat} {past : List (Machine σ)} {m n : Machine σ}

/-! ### Every moment -/

structure Kept (b : Nat) (past : List (Machine σ)) (m : Machine σ) : Prop extends Composed m where
  nearly : m.Nearly Builtin.registry b (Waits b past)

theorem Nearly.balanced {kinds : Registry (Behaviour σ)} {waits : Nat → Nat → Wait → Prop}
    (h : m.Nearly kinds b waits) (hm : m.stack = []) : m.Balanced b waits := by
  rcases h with h | ⟨-, n, hn, -⟩
  · exact h
  · exact absurd hm hn.stack_ne_nil

theorem Fresh.composed (h : m.Fresh) : m.Composed := by
  refine ⟨fun r => conducted_of_fresh (h.stack ▸ free_nil) fun R hR => ?_,
    covered_of_stack_eq_nil h.stack⟩
  exact h.runners R (List.mem_of_getElem? hR)

theorem Fresh.balanced (h : m.Fresh) (hb : b < m.world.buses.length) :
    m.Balanced b (Waits b ([] : List (Machine σ))) := by
  refine ⟨?_, ⟨fun B hB => ?_, fun l hl e he => ?_⟩, h.stack ▸ trivial⟩
  · obtain ⟨service, hB⟩ := h.buses _ (List.getElem_mem hb)
    have hpage : m.world.page? b = some ⟨[], 0⟩ := by
      rw [World.page?, List.getElem?_eq_getElem hb, hB]
      rfl
    refine ⟨_, hpage, Ledger.of_idle (fun r c hc => ?_) 0⟩
    obtain ⟨R, hR, rfl⟩ := World.exists_of_mem_card? hc
    obtain ⟨graph, bus, limit, blackboard, exposed, rfl⟩ := h.runners R (List.mem_of_getElem? hR)
    rfl
  · obtain ⟨service, rfl⟩ := h.buses B hB
    exact ⟨fun s hs => (List.not_mem_nil hs).elim, fun s hs => (List.not_mem_nil hs).elim⟩
  · rw [h.logs l hl] at he
    cases he

theorem Kept.next (h : Kept b past m) (hfair : m.Fair) (hn : Next Builtin.registry m n) :
    Kept b (m :: past) n := by
  have hafter : m.After b (Waits b past) (Waits b (m :: past)) := fun _ _ _ => Iff.rfl
  refine ⟨h.toComposed.next hn, ?_⟩
  rcases h.nearly with hbalanced | ⟨hquiet, k, hk, hbalanced⟩
  · exact hbalanced.next h.orderly hfair hafter hn
  · rw [hafter.eq_of_quiet hquiet, hn.unique hk]
    exact .inl hbalanced

theorem Kept.call (h : Kept b past m) (hm : m.stack = []) {s : Script σ}
    (hs : s.All Script.Outside) : Kept b past (m.call s) := by
  have hbalanced := h.nearly.balanced hm
  exact ⟨h.toComposed.call hm s,
    .inl ⟨hbalanced.ledger, hbalanced.calls, .inl hs, trivial⟩⟩

theorem Chronicle.kept (h : Chronicle Builtin.registry m past n) (hm : m.Fresh)
    (hb : b < m.world.buses.length) : Kept b past n := by
  induction h with
  | refl => exact ⟨hm.composed, .inl (hm.balanced hb)⟩
  | step h fair next ih => exact ih.next fair next
  | call h rests outside ih => exact ih.call rests outside

/-! ### Moments at which nothing is going on -/

theorem exists_waiting_iff (q : Wait → Bool) {r : Nat} :
    (∃ w, q w = true ∧ m.Waiting b past r w) ↔ ∃ c ∈ m.world.card? r, c.alive = true ∧ c.bus = b ∧
      ∃ cur ∈ c.current, ∃ w, q w = true ∧ c.graph.wait? cur.id = some w ∧
        Waits b past r cur.visit w := by
  constructor
  · rintro ⟨w, hq, R, hR, halive, hbus, c, hc, hsuits, hw⟩
    exact ⟨R.card, World.mem_card? hR, halive, hbus, c, hc, w, hq, hsuits, hw⟩
  · rintro ⟨c, hc, halive, hbus, cur, hcur, w, hq, hsuits, hw⟩
    obtain ⟨R, hR, rfl⟩ := World.exists_of_mem_card? hc
    exact ⟨w, hq, R, hR, halive, hbus, cur, hcur, hsuits, hw⟩

/-- Those who are to be called are such from outside and the nodes that wait. -/
theorem Balanced.length_filter (h : m.Balanced b (Waits b past)) {B : Bus (Script σ)}
    (hB : m.world.bus? b = some B) (q : Wait → Bool) :
    (B.entries.filter fun e => q e.wait).length =
      (B.entries.filter fun e => q e.wait && e.callback.speaker?.isNone).length +
        {r | ∃ w, q w = true ∧ m.Waiting b past r w}.ncard := by
  obtain ⟨p, hpage, hledger⟩ := h.ledger
  obtain ⟨B', hB', -, rfl⟩ := World.exists_bus?_of_mem_page? hpage
  obtain rfl := Option.some.inj (hB.symm.trans hB')
  have hnodes := hledger.length_filter q
  simp only [← exists_waiting_iff] at hnodes
  rw [← hnodes, List.length_eq_length_filter_add fun e => e.callback.speaker?.isNone,
    List.filter_filter, List.filter_filter]
  simp [Bool.and_comm]

/-- Somebody speaks for a visit in which the node waits, and which goes on. -/
theorem waiting_of_speaker {B : Bus (Script σ)} (hB : m.world.bus? b = some B)
    (h : ∃ p ∈ m.world.page? b, Ledger b (Waits b past) m.world.card? p) {e : Entry σ}
    (he : e ∈ B.entries) {r visit : Nat} (hs : e.callback.speaker? = some (r, visit)) :
    m.Waiting b past r e.wait ∧ (m.visit? r).map Prod.fst = some visit := by
  obtain ⟨p, hpage, hledger⟩ := h
  obtain ⟨B', hB', -, rfl⟩ := World.exists_bus?_of_mem_page? hpage
  obtain rfl := Option.some.inj (hB.symm.trans hB')
  obtain ⟨hw, c, hc, hbus, id, hcur⟩ := hledger.owned e he r visit hs
  obtain ⟨R, hR, rfl⟩ := World.exists_of_mem_card? hc
  have hcurrent : R.current = some ⟨id, visit, some (e.wait.leave ⟨r, b, visit⟩ e.id)⟩ := hcur
  refine ⟨⟨R, hR, (hledger.living r _ hc _ hcur).1, hbus, _, hcur,
    hledger.suits r _ hc _ hcur _ hw, hw⟩, ?_⟩
  rw [visit?, Option.mem_def.1 hR, Option.bind_some, hcurrent]
  rfl

/-- Whenever nothing is going on, those who are registered on a bus are such from outside and the
nodes that wait, once each; and whoever speaks for a visit waits in that visit, which goes on. -/
theorem Chronicle.registered (h : Chronicle Builtin.registry m past n) (hm : m.Fresh)
    (hb : b < m.world.buses.length) (hn : n.stack = []) :
    ∃ B, n.world.bus? b = some B ∧
      (∀ key, (B.listeners key).length =
        (B.subscribers.filter fun s => s.topic = key && s.callback.speaker?.isNone).length +
          {r | n.Waiting b past r (.event key)}.ncard) ∧
      B.waiters.length = (B.waiters.filter fun s => s.callback.speaker?.isNone).length +
        {r | ∃ name, n.Waiting b past r (.quest name)}.ncard ∧
      ∀ e ∈ B.entries, ∀ r visit, e.callback.speaker? = some (r, visit) →
        n.Waiting b past r e.wait ∧ (n.visit? r).map Prod.fst = some visit := by
  have hbalanced := (h.kept hm hb).nearly.balanced hn
  obtain ⟨p, hpage, -⟩ := hbalanced.ledger
  obtain ⟨B, hB, -⟩ := World.exists_bus?_of_mem_page? hpage
  refine ⟨B, hB, fun key => ?_, ?_, fun e he r visit hs =>
    waiting_of_speaker hB hbalanced.ledger he hs⟩
  · have hcount := hbalanced.length_filter hB fun w => decide (w = .event key)
    have hall := B.length_filter_event (fun _ => true) key
    rw [B.length_filter_event (fun s => s.speaker?.isNone) key] at hcount
    simp only [Bool.and_true] at hall
    rw [hall] at hcount
    rw [Bus.listeners, List.length_map, hcount]
    simp
  · have hcount := hbalanced.length_filter hB Wait.isQuest
    have hall := B.length_filter_quest fun _ => true
    rw [B.length_filter_quest fun s => s.speaker?.isNone] at hcount
    simp only [Bool.and_true, List.filter_true] at hall
    rw [hall] at hcount
    have hquest : ∀ r, (∃ w, Wait.isQuest w = true ∧ n.Waiting b past r w) ↔
        ∃ name, n.Waiting b past r (.quest name) := by
      intro r
      constructor
      · rintro ⟨w, hw, hwaiting⟩
        cases w with
        | event key => cases hw
        | quest name => exact ⟨name, hwaiting⟩
      · rintro ⟨name, hwaiting⟩
        exact ⟨_, rfl, hwaiting⟩
    simp only [hquest] at hcount
    exact hcount

/-- The moments of a script that is called from outside, if nobody gives back the number of a
node. -/
theorem chronicle_of_after {kinds : Registry (Behaviour σ)} (hm : m.stack = []) {s : Script σ}
    (outside : s.All Script.Outside) {steps : Nat}
    (h : (m.call s).after kinds steps = some n)
    (hfair : ((m.call s).moments kinds steps).all (fun i => decide i.Fair) = true) :
    Chronicle kinds m ((m.call s).moments kinds steps) n := by
  revert hfair
  refine moments_induction (motive := fun past n =>
    past.all (fun i => decide i.Fair) = true → Chronicle kinds m past n)
    (fun _ => Chronicle.refl.call hm outside) (fun past n k ih next hfair => ?_) h
  obtain ⟨hlast, hbefore⟩ := Bool.and_eq_true_iff.1 hfair
  exact (ih hbefore).step (of_decide_eq_true hlast) next

def vigil : Machine Unit where
  world :=
    { runners :=
        [{ bus := 0, limit := none
           graph :=
             { start := some ⟨"a"⟩
               nodes := [{ kind := "wait_event", id := ⟨"a"⟩
                           properties := ⟨[("key", .string "k")], by simp [Ascending]⟩ }] } },
          { bus := 0, limit := some 1
            graph :=
              { start := some ⟨"b"⟩
                nodes := [{ kind := "quest", id := ⟨"b"⟩
                            properties := ⟨[("questId", .string "q")], by simp [Ascending]⟩ }] } }]
      buses := [{}] }
  data := ()

def beginVigil : Script Unit :=
  .subscribe 0 "k" .stop fun _ => .subscribe 0 "k" .stop fun id => .start 0 fun _ =>
    .assign
      { start := some ⟨"c"⟩
        nodes := [{ kind := "wait_event", id := ⟨"c"⟩
                    properties := ⟨[("key", .string "k")], by simp [Ascending]⟩ }] } 0 none
      fun r => .start r fun _ => .start 1 fun _ => .unsubscribe 0 "k" (id.getD 0) fun _ => .stop

theorem registered_vigil : ∃ past n, Chronicle Builtin.registry vigil past n ∧ n.stack = [] ∧
    {r | n.Waiting 0 past r (.event "k")}.ncard = 2 ∧
    {r | ∃ name, n.Waiting 0 past r (.quest name)}.ncard = 1 := by
  obtain ⟨n, hafter, hn, hcounts, hfair⟩ : ∃ n,
      (vigil.call beginVigil).after Builtin.registry 31 = some n ∧ n.stack = [] ∧
      (n.world.bus? 0).map (fun B => ((B.listeners "k").length, B.waiters.length,
        (B.subscribers.filter fun s => s.topic = "k" && s.callback.speaker?.isNone).length,
        (B.waiters.filter fun s => s.callback.speaker?.isNone).length)) = some (3, 1, 1, 0) ∧
      (((vigil.call beginVigil).moments Builtin.registry 31).all fun k => decide k.Fair) = true :=
    ⟨_, rfl, rfl, rfl, rfl⟩
  have hfresh : vigil.Fresh := by
    refine ⟨rfl, ?_, List.forall_mem_singleton.2 ⟨none, rfl⟩, fun l hl => ?_⟩
    · rintro R hR
      rcases List.mem_pair.1 hR with rfl | rfl <;> exact ⟨_, _, _, _, _, rfl⟩
    · cases hl
  have houtside : beginVigil.All Script.Outside :=
    ⟨trivial, trivial, fun _ => ⟨trivial, trivial, fun _ => ⟨trivial, fun _ => ⟨trivial, fun _ =>
      ⟨trivial, fun _ => ⟨trivial, fun _ => ⟨trivial, fun _ => trivial⟩⟩⟩⟩⟩⟩⟩
  have h := chronicle_of_after rfl houtside hafter hfair
  obtain ⟨B, hB, hevents, hquests, -⟩ := h.registered hfresh (b := 0) (by decide) hn
  rw [hB, Option.map_some, Option.some.injEq] at hcounts
  simp only [Prod.mk.injEq] at hcounts
  obtain ⟨hlisteners, hwaiters, houtsiders, hnobody⟩ := hcounts
  have hevent := hevents "k"
  refine ⟨_, n, h, hn, ?_, ?_⟩ <;> omega

end Machine

end StoryGraph
