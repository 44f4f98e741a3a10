import StoryGraph.Proofs.Flow.Stillness
import StoryGraph.Proofs.Flow.Sticky

/-!
# Events that a wait takes in that is over

A node that waits for an event is subscribed until its visit ends, though it has one chance only to
say that it is done. As a rule the visit ends with that word. Where there is no way on it does not:
the flow is halted, the node goes on to be subscribed, and does nothing when it is called.

So an event that is raised when only such nodes listen is heard by nobody and is not pending
afterwards; if not even such a node listens, it is pending, and handed to whoever subscribes to it
next (`Machine.Chronicle.raise_held_or_lost`).
-/

namespace StoryGraph

variable {σ : Type}

namespace Bus

variable {κ : Type} (B : Bus κ) (key : String)

theorem lifetime_hold : (B.hold key).lifetime = B.lifetime := by
  unfold hold
  split <;> rfl

theorem mem_pending_hold : key ∈ (B.hold key).pending := by
  unfold hold
  split
  · assumption
  · exact List.mem_cons_self

end Bus

namespace Machine

variable {kinds : Registry (Behaviour σ)} {b r : Nat} {key : String} {m n k : Machine σ}
  {past later : List (Machine σ)} {B : Bus (Script σ)} {R : Runner (Script σ)}
  {base : List (Frame σ)}

/-! ### Records of a session -/

theorem Chronicle.record (h : Chronicle kinds m past n) : Record kinds m past n := by
  induction h with
  | refl => exact .refl
  | step _ _ next ih => exact ih.step next
  | call _ rests _ ih => exact ih.call rests _

/-! ### An event that is pending -/

/-- Whoever is the first to subscribe to an event from a moment on has it handed over, unless what
is pending is forgotten before. -/
def HandedNext (kinds : Registry (Behaviour σ)) (b : Nat) (key : String) (k : Machine σ) : Prop :=
  ∀ later i B callback next below j, Record kinds k later i →
    .clear ∉ deeds b later → (∀ callback, .handOver key callback ∉ deeds b later) →
    i.world.bus? b = some B → i.panic = none →
    i.stack = .run (.subscribe b key callback next) :: below → Next kinds i j →
    HandsOver kinds b B key callback next below j

theorem handedNext_of_mem_pending (h : Record kinds m past k) (hm : m.Fresh)
    (hB : k.world.bus? b = some B) (hkey : key ∈ B.pending) : HandedNext kinds b key k := by
  intro later i B' callback next below j hlater hclear hover hB' hp hi hj
  have hkept := h.kept_of_fresh hm (World.bus?_eq_some_iff.1 hB).1
  have hkept' := (h.trans hlater).kept_of_fresh hm (World.bus?_eq_some_iff.1 hB').1
  obtain ⟨since, earlier, hpast, hclear', hover'⟩ := (hkept.mem_pending_iff key).1 hkey
  have hunheard : Unheard key (deeds b (later ++ past)) := by
    refine ⟨deeds b later ++ since, earlier, ?_, ?_, fun callback hmem => ?_⟩
    · rw [deeds, List.filterMap_append, ← deeds, ← deeds, hpast, List.append_assoc]
    · exact fun hmem => (List.mem_append.1 hmem).elim hclear hclear'
    · exact (List.mem_append.1 hmem).elim (hover callback) (hover' callback)
  exact (eq_of_subscribe hB' hp hi hj).1 ((hkept'.mem_pending_iff key).2 hunheard)

/-! ### Calls that do nothing -/

theorem expireBus_eq_self (hB : m.world.buses[b]? = some B) (h : B.lifetime ≠ .released) :
    m.expireBus b = m := by
  unfold expireBus
  rw [hB]
  simp [h]

theorem next_stop (hm : m.stack = .run .stop :: base) (hp : m.panic = none) :
    Next kinds m { m with stack := base } := by
  have hstop : Next kinds m (({ m with stack := base } : Machine σ).resume kinds (.run .stop)) :=
    next_resume hm hp
  exact hstop

/-- A node that has used its chance does nothing when it is called. -/
theorem leads_done_of_spent {v : Visit} (hm : m.stack = .run (Builtin.done v) :: base)
    (hp : m.panic = none) (hspent : ¬m.Armed v.runner v.number) :
    Leads kinds m { m with stack := base } := by
  let stops : Machine σ := { m with stack := .run .stop :: base }
  have hdone : ({ m with stack := base } : Machine σ).resume kinds (.run (Builtin.done v)) =
      stops := by
    simp only [resume, perform, Builtin.done, done]
    split
    · rfl
    · rename_i R hR
      rw [if_neg fun harmed => hspent ⟨R, hR, harmed⟩]
      rfl
  have hfirst : Next kinds m stops := hdone ▸ next_resume hm hp
  exact (Relation.ReflTransGen.single hfirst).tail (next_stop rfl hp)

/-- Nodes that have used their chance are called one after the other, and nothing comes of it. -/
theorem leads_deliver_of_spent {bus : Option Nat} {rest : List (Script σ)}
    (hm : m.stack = .deliver bus rest :: base) (hp : m.panic = none)
    (hspent : ∀ s ∈ rest, ∃ v, s = Builtin.done v ∧ ¬m.Armed v.runner v.number) :
    Leads kinds m { m with stack := .deliver bus [] :: base } := by
  induction rest generalizing m with
  | nil =>
      rw [← hm]
  | cons s rest ih =>
      obtain ⟨v, rfl, hv⟩ := hspent s List.mem_cons_self
      have hcall : Next kinds m
          { m with stack := .run (Builtin.done v) :: .deliver bus rest :: base } :=
        next_resume hm hp
      refine (Relation.ReflTransGen.head hcall (leads_done_of_spent rfl hp hv)).trans ?_
      exact ih rfl hp fun s hs => hspent s (List.mem_cons_of_mem _ hs)

variable (kinds) in
/-- An event that nobody hears is pending afterwards, and nothing else has happened. -/
theorem exists_ends_of_unheard (hB : n.world.bus? b = some B) (hnobody : B.listeners key = []) :
    ∃ k, Ends kinds (n.call (.raise b key .stop)) k ∧ k.world = n.world.setBus b (B.hold key) ∧
      Leads kinds (n.call (.raise b key .stop)) k := by
  let stops : Machine σ :=
    { n.call .stop with world := n.world.setBus b (B.hold key) }
  have hraise : ({ n.call (.raise b key .stop) with stack := [] } : Machine σ).resume kinds
      (.run (.raise b key .stop)) = stops := by
    simp [resume, perform, raise, push, call, hB, hnobody, stops]
  have hfirst : Next kinds (n.call (.raise b key .stop)) stops := hraise ▸ next_resume rfl rfl
  have hleads := (Relation.ReflTransGen.single hfirst).tail (next_stop (m := stops) rfl rfl)
  exact ⟨_, (ends_iff_eq hleads rfl).2 rfl, rfl, hleads⟩

variable (kinds) in
/-- An event that is heard by nodes alone that have used their chance leaves everything as it
was. -/
theorem exists_ends_of_spent (hB : n.world.bus? b = some B) (hkept : B.lifetime = .kept)
    (hheard : B.listeners key ≠ [])
    (hspent : ∀ s ∈ B.listeners key, ∃ v, s = Builtin.done v ∧ ¬n.Armed v.runner v.number) :
    ∃ k, Ends kinds (n.call (.raise b key .stop)) k ∧ k.world = n.world := by
  let calls (rest : List (Script σ)) : Machine σ :=
    { n.call .stop with stack := [.deliver (some b) rest, .run .stop] }
  have hraise : ({ n.call (.raise b key .stop) with stack := [] } : Machine σ).resume kinds
      (.run (.raise b key .stop)) = calls (B.listeners key) := by
    simp [resume, perform, raise, push, call, hB, hheard, calls]
  have hfirst : Next kinds (n.call (.raise b key .stop)) (calls (B.listeners key)) :=
    hraise ▸ next_resume rfl rfl
  have hcalled : Leads kinds (calls (B.listeners key)) (calls []) :=
    leads_deliver_of_spent rfl rfl hspent
  have hexpire : ({ calls [] with stack := [.run .stop] } : Machine σ).resume kinds
      (.deliver (some b) []) = n.call .stop := by
    have hget : (n.call .stop).world.buses[b]? = some B := (World.bus?_eq_some_iff.1 hB).1
    exact expireBus_eq_self hget (by simp [hkept])
  have hthrough : Next kinds (calls []) (n.call .stop) := hexpire ▸ next_resume rfl rfl
  have hleads := ((Relation.ReflTransGen.head hfirst hcalled).tail hthrough).tail
    (next_stop (m := n.call .stop) rfl rfl)
  exact ⟨_, (ends_iff_eq hleads rfl).2 rfl, rfl⟩

/-! ### Nodes that have used their chance -/

/-- A flow is halted at a node that has waited for an event and has used its chance to say that it
is done. There is no way on, and the node goes on to be subscribed. -/
def Lingers (b : Nat) (past : List (Machine σ)) (key : String) (r : Nat) (n : Machine σ) : Prop :=
  n.Waiting b past r (.event key) ∧ ∃ R c, n.world.runners[r]? = some R ∧ R.current = some c ∧
    R.halted = true ∧ R.onward = .halt ∧ c.visit ∉ R.armed

/-- The flows without a limit are in order, whenever their runners were made. -/
theorem Chronicle.halting (h : Chronicle Builtin.registry m past n) (hm : m.Fresh)
    (hR : R ∈ n.world.runners[r]?) (hlimit : R.limit = none) : R.Halting := by
  have hidle : ∀ {R : Runner (Script σ)}, R.Fresh → R.Halting := by
    rintro R ⟨graph, bus, limit, blackboard, exposed, rfl⟩
    exact Runner.halting_of_idle rfl
  induction h generalizing R with
  | refl => exact hidle (hm.runners R (List.mem_of_getElem? hR))
  | step h fair next ih =>
      rcases keeps_or_fresh next hR with ⟨S, hS, hkeeps⟩ | ⟨-, hfresh⟩
      · have hbefore := hkeeps.limit.symm.trans hlimit
        have hheedful := h.heedful (b := 0) hm
        obtain ⟨f, below, R', -, hR', hchanges, -⟩ := hheedful.covered.exists_changes hS next
        obtain rfl := Option.some.inj (hR.symm.trans hR')
        exact (ih hS hbefore).changes hbefore (hheedful.hears r S hS hbefore) hchanges
      · exact hidle hfresh
  | call h rests outside ih => exact ih hR hlimit

/-- A node that waits for an event, and has used its chance where nothing is going on, is at the end
of its flow. -/
theorem Chronicle.lingers (h : Chronicle Builtin.registry m past n) (hm : m.Fresh)
    (hlimit : ∀ R ∈ n.world.runners, R.limit = none) (hb : b < m.world.buses.length)
    (hn : n.stack = []) (hw : n.Waiting b past r (.event key))
    (hspent : ∀ R c, n.world.runners[r]? = some R → R.current = some c → c.visit ∉ R.armed) :
    n.Lingers b past key r := by
  obtain ⟨R, hR, -, hbus, c, hc, -, hwaits⟩ := id hw
  have hunarmed := hspent R c hR hc
  have hunlimited := hlimit R (List.mem_of_getElem? hR)
  have hattended := h.attended hm hb hR hunlimited hbus
  have hk := h.kept hm hb
  have hhalted : R.halted = true := by
    by_contra hgoes
    obtain ⟨act, hact, hanswers⟩ := hattended.visit c hc (Bool.not_eq_true _ ▸ hgoes)
    cases hanswers with
    | waits armed | promised armed => exact hunarmed armed
    | answered answers queued =>
        rw [hattended.queue_eq_nil hk hn] at queued
        cases queued
    | stuck chosen stays =>
        obtain ⟨_, rfl, -⟩ := chosen
        exact not_waiting_of_branch hR hc hact _ hw
  refine ⟨hw, R, c, hR, hc, hhalted, ?_, hunarmed⟩
  -- Something is laid down for the end of the visit, so the node has not been refused.
  obtain ⟨p, hpage, hledger⟩ := (hk.nearly.balanced hn).ledger
  obtain ⟨e, he, -, hs⟩ := hledger.found r _ (World.mem_card? hR) hbus c hc _ hwaits
  obtain ⟨-, card, hcard, -, id, hcurrent⟩ := hledger.owned e he r c.visit hs
  obtain rfl := Option.some.inj ((World.mem_card? hR).symm.trans hcard)
  have hcurrent' : R.current = some ⟨id, c.visit, some (e.wait.leave ⟨r, b, c.visit⟩ e.id)⟩ :=
    hcurrent
  have hstance : (⟨id, c.visit, some ()⟩ : Current Unit) ∈ R.stance.current := by
    simp [Runner.stance, Runner.map, hcurrent']
  rcases (h.halting hm hR hunlimited).stuck hhalted _ hstance with honward | hnone
  · exact honward
  · cases hnone

/-- No raise is lost, but to a flow that has come to its end at a node that has waited for the
event. Where nothing is going on, nobody from outside listens to an event, and no node that waits
for it has its chance to say that it is done, those that listen are such nodes. If there are none,
the event is pending once it has been raised, and handed to whoever subscribes next. If there are,
nothing comes of it at all. -/
theorem Chronicle.raise_held_or_lost (h : Chronicle Builtin.registry m past n) (hm : m.Fresh)
    (hlimit : ∀ R ∈ n.world.runners, R.limit = none) (hb : b < m.world.buses.length)
    (hn : n.stack = []) (hB : n.world.bus? b = some B)
    (hnodes : ∀ s ∈ B.subscribers, s.topic = key → s.callback.speaker? ≠ none)
    (hspent : ∀ (r : Nat) (R : Runner (Script σ)) (c : Current (Script σ)),
      n.world.runners[r]? = some R → R.bus = b → R.current = some c →
      R.graph.wait? c.id = some (.event key) → c.visit ∉ R.armed) :
    ∃ k, Ends Builtin.registry (n.call (.raise b key .stop)) k ∧
      (∀ r, n.Waiting b past r (.event key) → n.Lingers b past key r) ∧
      ((∀ r, ¬n.Lingers b past key r) → k.world = n.world.setBus b (B.hold key) ∧
        HandedNext Builtin.registry b key k) ∧
      ((∃ r, n.Lingers b past key r) → k.world = n.world ∧ key ∉ B.pending) := by
  have hbalanced := (h.kept hm hb).nearly.balanced hn
  obtain ⟨p, hpage, -⟩ := hbalanced.ledger
  obtain ⟨B', hB', hkept, -⟩ := World.exists_bus?_of_mem_page? hpage
  obtain rfl := Option.some.inj (hB.symm.trans hB')
  have hlingers : ∀ r, n.Waiting b past r (.event key) → n.Lingers b past key r := by
    intro r hw
    refine h.lingers hm hlimit hb hn hw fun R c hR hc => ?_
    obtain ⟨R', hR', -, hbus, c', hc', hwait, -⟩ := hw
    obtain rfl := Option.some.inj (hR.symm.trans hR')
    obtain rfl := Option.some.inj (hc.symm.trans hc')
    exact hspent r R c hR hbus hc hwait
  -- Those who listen are nodes that have used their chance.
  have hlisteners : ∀ s ∈ B.listeners key, ∃ v : Visit, s = Builtin.done v ∧
      n.Waiting b past v.runner (.event key) ∧ ¬n.Armed v.runner v.number := by
    intro s hs
    obtain ⟨e, he, rfl⟩ := List.mem_map.1 hs
    obtain ⟨hmem, htopic⟩ := List.mem_filter.1 he
    rcases (hbalanced.calls.bus hB).subscribers e hmem with houtside | ⟨v, hv⟩
    · have hspeaks := hnodes e hmem (by simpa using htopic)
      exact absurd (Script.speaker?_of_outside houtside.self) hspeaks
    · have hspeaks : e.callback.speaker? = some (v.runner, v.number) := by rw [hv]; rfl
      obtain ⟨hw, R, hR, hvisit⟩ := waiting_of_listener hB hbalanced.ledger hs hspeaks
      refine ⟨v, hv, hw, fun ⟨R', hR', harmed⟩ => ?_⟩
      obtain ⟨-, R₁, c, hR₁, hc, -, -, hunarmed⟩ := hlingers v.runner hw
      obtain rfl := Option.some.inj (hR.symm.trans hR₁)
      obtain rfl := Option.some.inj (hR.symm.trans hR')
      rw [Runner.visit?, hc, Option.map_some, Option.some.injEq] at hvisit
      exact hunarmed (hvisit ▸ harmed)
  by_cases hnobody : B.listeners key = []
  · obtain ⟨k, hends, hworld, hleads⟩ :=
      exists_ends_of_unheard Builtin.registry hB hnobody
    refine ⟨k, hends, hlingers, fun _ => ⟨hworld, ?_⟩, ?_⟩
    · obtain ⟨since, hk⟩ := (h.record.call hn (.raise b key .stop)).leads hleads
      have hheld : k.world.bus? b = some (B.hold key) := by
        obtain ⟨hget, halive⟩ := World.bus?_eq_some_iff.1 hB
        rw [hworld]
        exact World.bus?_setBus hget (by rwa [Bus.isAlive, B.lifetime_hold key])
      exact handedNext_of_mem_pending hk hm hheld (B.mem_pending_hold key)
    · rintro ⟨r, hw, R, c, hR, hc, -⟩
      have hin : n.InVisit r c.visit := ⟨R, hR, by rw [Runner.visit?, hc]; rfl⟩
      obtain ⟨s, hs, -⟩ := exists_listener hB hbalanced.ledger hw hin
      rw [hnobody] at hs
      cases hs
  · obtain ⟨k, hends, hworld⟩ := exists_ends_of_spent Builtin.registry hB hkept hnobody
      fun s hs => (hlisteners s hs).imp fun v hv => ⟨hv.1, hv.2.2⟩
    obtain ⟨s, hs⟩ := List.exists_mem_of_ne_nil _ hnobody
    refine ⟨k, hends, hlingers, fun hnone => ?_, fun _ => ⟨hworld, fun hpending => ?_⟩⟩
    · obtain ⟨v, -, hw, -⟩ := hlisteners s hs
      exact absurd (hlingers v.runner hw) (hnone v.runner)
    · obtain ⟨e, he, -⟩ := List.mem_map.1 hs
      obtain ⟨hmem, htopic⟩ := List.mem_filter.1 he
      have hdesk := h.record.kept_of_fresh hm (World.bus?_eq_some_iff.1 hB).1
      exact hdesk.silent key hpending e hmem (by simpa using htopic)

def ringOnce : Script Unit := .start 0 fun _ => .raise 0 "bell" .stop

theorem raise_held_or_lost_parlour : ∃ past n B, Chronicle Builtin.registry parlour past n ∧
    n.stack = [] ∧ n.world.bus? 0 = some B ∧
    (∃ k, Ends Builtin.registry (n.call (.raise 0 "bell" .stop)) k ∧ n.Lingers 0 past "bell" 0 ∧
      k.world = n.world ∧ "bell" ∉ B.pending) ∧
    ∃ k, Ends Builtin.registry (n.call (.raise 0 "gong" .stop)) k ∧
      k.world = n.world.setBus 0 (B.hold "gong") ∧ HandedNext Builtin.registry 0 "gong" k := by
  obtain ⟨n, B, R, c, ⟨hafter, hn, hfair⟩, hB, hR, hc, hwait, ⟨hrunners, hunlimited⟩, hunarmed,
      hlistens⟩ : ∃ n B R c,
      ((parlour.call ringOnce).after Builtin.registry 16 = some n ∧ n.stack = [] ∧
        ((parlour.call ringOnce).moments Builtin.registry 16).all
          (fun i => decide i.Fair) = true) ∧ n.world.bus? 0 = some B ∧
      n.world.runners[0]? = some R ∧ R.current = some c ∧
      R.graph.wait? c.id = some (.event "bell") ∧
      (n.world.runners = [R] ∧ R.limit = none) ∧ R.armed = [] ∧
      B.subscribers = [⟨"bell", 1, Builtin.done ⟨0, 0, 1⟩⟩] :=
    ⟨_, _, _, _, ⟨rfl, rfl, rfl⟩, rfl, rfl, rfl, rfl, ⟨rfl, rfl⟩, rfl, rfl⟩
  have hfresh : parlour.Fresh := by
    refine ⟨rfl, ?_, List.forall_mem_singleton.2 ⟨none, rfl⟩, fun l hl => ?_⟩
    · exact List.forall_mem_singleton.2 ⟨_, _, _, _, _, rfl⟩
    · cases hl
  have houtside : ringOnce.All Script.Outside := ⟨trivial, fun _ => ⟨trivial, trivial⟩⟩
  have hlimit : ∀ R ∈ n.world.runners, R.limit = none := by
    rw [hrunners]
    exact List.forall_mem_singleton.2 hunlimited
  have h := chronicle_of_after rfl houtside hafter hfair
  have hnodes : ∀ s ∈ B.subscribers, s.callback.speaker? ≠ none := by
    rw [hlistens]
    exact List.forall_mem_singleton.2 nofun
  have hspent : ∀ (r : Nat) (R : Runner (Script Unit)) (c : Current (Script Unit)),
      n.world.runners[r]? = some R → c.visit ∉ R.armed := by
    intro r R' c' hR' harmed
    have hmem := List.mem_of_getElem? hR'
    rw [hrunners, List.mem_singleton] at hmem
    rw [hmem, hunarmed] at harmed
    cases harmed
  have hraise (key : String) := h.raise_held_or_lost hfresh hlimit (by decide) hn hB
    (fun s hs (_ : s.topic = key) => hnodes s hs) fun r R c hR _ _ _ => hspent r R c hR
  have hledger := ((h.kept (b := 0) hfresh (by decide)).nearly.balanced hn).ledger
  refine ⟨_, n, B, h, hn, hB, ?_, ?_⟩
  · obtain ⟨k, hends, hlingers, -, hlost⟩ := hraise "bell"
    have hs : Builtin.done ⟨0, 0, 1⟩ ∈ B.listeners "bell" := by simp [Bus.listeners, hlistens]
    have hlinger := hlingers 0 (waiting_of_listener hB hledger hs rfl).1
    exact ⟨k, hends, hlinger, hlost ⟨0, hlinger⟩⟩
  · obtain ⟨k, hends, -, hheld, -⟩ := hraise "gong"
    refine ⟨k, hends, hheld ?_⟩
    rintro r ⟨⟨R', hR', -, -, c', hc', hwait', -⟩, -⟩
    obtain rfl : R' = R := by simpa [hrunners] using List.mem_of_getElem? hR'
    obtain rfl := Option.some.inj (hc.symm.trans hc')
    simp [hwait] at hwait'

end Machine

end StoryGraph
