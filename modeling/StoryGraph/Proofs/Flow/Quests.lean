import StoryGraph.Proofs.Flow.Notices
import Mathlib.Algebra.Order.Group.Multiset

/-!
# Those who wait for quests

Whoever has begun to wait for a quest waits until he is called or withdraws
(`Desk.Kept.conserved`), and it is a notice that calls him. So he is called once at most, and is
never called when he has withdrawn.

The main statement, `Machine.Record.waits_settled`, is about any number of buses with any quest logs
and whatever is done to them, also by those who are called: a bus listens to its quest log exactly
while somebody waits, and whenever nothing is going on nobody waits for a quest that is completed.
-/

namespace StoryGraph

variable {σ : Type}

namespace Deed

def awaited : Deed σ → List (Subscription (Script σ))
  | await s => [s]
  | _ => []

def called : Deed σ → List (Subscription (Script σ))
  | notify due _ => due
  | _ => []

def withdrawn : Deed σ → List (Subscription (Script σ))
  | unawait gone _ => gone
  | _ => []

end Deed

namespace Desk.Kept

variable {past : List (Deed σ)} {d : Desk σ}

/-- Whoever has begun to wait still waits, or has been called, or has withdrawn. -/
theorem conserved (h : Kept past d) :
    (d.waiters ++ (past.flatMap Deed.called ++ past.flatMap Deed.withdrawn)).Perm
      (past.flatMap Deed.awaited) := by
  induction h with
  | new => exact .refl _
  | @deed past d x _ fits ih =>
      rw [← Multiset.coe_eq_coe] at ih ⊢
      simp only [← Multiset.coe_add] at ih
      simp only [List.flatMap_cons, ← Multiset.coe_add]
      rw [← ih]
      cases x with
      | await s =>
          simp only [Deed.on, Deed.called, Deed.withdrawn, Deed.awaited, ← Multiset.coe_add,
            Multiset.coe_nil]
          abel
      | unawait gone waiting | notify gone waiting =>
          have hsplit := Multiset.coe_eq_coe.2 fits
          simp only [← Multiset.coe_add] at hsplit
          simp only [Deed.on, Deed.called, Deed.withdrawn, Deed.awaited, Multiset.coe_nil]
          rw [← hsplit]
          abel
      | raise key heard =>
          simp only [Deed.waiters_raise, Deed.called, Deed.withdrawn, Deed.awaited,
            Multiset.coe_nil, zero_add]
      | _ =>
          simp only [Deed.on, Deed.called, Deed.withdrawn, Deed.awaited, Multiset.coe_nil,
            zero_add]

theorem nodup_awaited (h : Kept past d) :
    ((past.flatMap Deed.awaited).map Subscription.id).Nodup := by
  have hsub : ((past.flatMap Deed.awaited).map Subscription.id).Sublist
      (past.filterMap Deed.id?) := by
    clear h
    induction past with
    | nil => exact .slnil
    | cons x past ih =>
        rw [List.flatMap_cons, List.map_append]
        cases x with
        | await s => exact ih.cons_cons s.id
        | subscribe s => exact ih.cons s.id
        | _ => exact ih
  exact (h.ids.1.imp fun hlt heq => absurd heq (ne_of_gt hlt)).sublist hsub

end Desk.Kept

namespace Machine

variable {kinds : Registry (Behaviour σ)} {m n k : Machine σ} {b : Nat} {B : Bus (Script σ)}
  {past : List (Machine σ)} {name : String} {callback : Script σ} {below : List (Frame σ)}

/-! ### What those who wait are told -/

/-- Who would wait for a quest that is completed is called at once, and once, and does not wait. -/
structure AnswersAtOnce (kinds : Registry (Behaviour σ)) (b : Nat) (B : Bus (Script σ))
    (callback next : Script σ) (below : List (Frame σ)) (k : Machine σ) : Prop where
  bus : k.world.bus? b = some B
  calls : CallsFirst kinds (some b) callback next below k

/-- What a step does about those who wait on a bus. -/
structure Handles (kinds : Registry (Behaviour σ)) (b : Nat) (B : Bus (Script σ))
    (n k : Machine σ) : Prop where
  /-- Whoever waits for a quest that is completed is called at once. -/
  answers : ∀ name callback next below, n.panic = none →
    n.stack = .run (.await b name callback next) :: below → n.world.knowsCompleted B name = true →
    n.deed? b = some (.answer name callback) ∧
      AnswersAtOnce kinds b B callback (next none) below k
  /-- Whoever waits for another is given a number. -/
  awaits : ∀ name callback next below, n.panic = none →
    n.stack = .run (.await b name callback next) :: below → n.world.knowsCompleted B name = false →
    n.deed? b = some (.await ⟨name, (B.await name callback).1, callback⟩) ∧
      k.stack = .run (next (some (B.await name callback).1)) :: below
  /-- Whoever withdraws is told whether somebody goes. -/
  withdraws : ∀ name id next below, n.panic = none →
    n.stack = .run (.unawait b name id next) :: below → ∃ gone waiting,
      n.deed? b = some (.unawait gone waiting) ∧
      (∀ s, s ∈ gone ↔ s ∈ B.waiters ∧ s.topic = name ∧ s.id = id) ∧
      k.stack = .run (next !gone.isEmpty) :: below
  /-- Those who are called with a notice are called each, and once. -/
  notices : ∀ due waiting, n.deed? b = some (.notify due waiting) → ∃ next below,
    CallsEach kinds (some b) (due.map Subscription.callback) next below k ∨
      due = [] ∧ k.stack = .run next :: below

theorem stack_notify (hB : m.world.bus? b = some B) {due waiting : List (Subscription (Script σ))}
    (hx : m.world.notice B = .notify due waiting) :
    (m.notify b).stack = .deliver (some b) (due.map Subscription.callback) :: m.stack ∨
      due = [] ∧ (m.notify b).stack = m.stack := by
  unfold notify
  rw [hB]
  dsimp only
  split
  · rename_i hnone
    rw [World.notice_of_service_eq_none (Option.isNone_iff_eq_none.1 hnone)] at hx
    exact .inr ⟨(Deed.notify.inj hx).1.symm, rfl⟩
  · rw [List.partition_eq_filter_filter]
    rw [World.notice] at hx
    rw [← (Deed.notify.inj hx).1]
    exact .inl rfl

theorem stack_serve (hB : m.world.bus? b = some B) (service : Option QuestService)
    {due waiting : List (Subscription (Script σ))}
    (hx : m.world.notice { B with service } = .notify due waiting) :
    (m.serve b service).stack = .deliver (some b) (due.map Subscription.callback) :: m.stack ∨
      due = [] ∧ (m.serve b service).stack = m.stack := by
  by_cases hwaiters : B.waiters = []
  · rw [serve_of_waiters hB hwaiters]
    refine .inr ⟨?_, rfl⟩
    rw [← (Deed.notify.inj hx).1, hwaiters]
    rfl
  · obtain ⟨watch, hserve, hk⟩ := exists_notify_of_serve hB hwaiters service
    have hnotice : (m.world.attach b B service).notice { B with watch, service } =
        .notify due waiting :=
      (World.notice_congr (B := { B with service }) (World.states_attach ..) rfl rfl).trans hx
    rw [hserve]
    exact stack_notify hk hnotice

/-- Those who are called with a notice are called each, and once, and then the one who gave it goes
on. -/
theorem callsEach_of_next {due waiting : List (Subscription (Script σ))} (hk : Next kinds n k)
    (hx : n.deed? b = some (.notify due waiting)) : ∃ next below,
      CallsEach kinds (some b) (due.map Subscription.callback) next below k ∨
        due = [] ∧ k.stack = .run next :: below := by
  obtain ⟨s, hasked, hdeed⟩ := deed?_eq_some_iff.1 hx
  obtain ⟨hp, below, hn⟩ := asked?_eq_some_iff.1 hasked
  obtain rfl := eq_resume_of_next hn hp hk
  cases s with
  | notify b' next =>
      obtain ⟨B', hB', he⟩ := Option.map_eq_some_iff.1 hdeed
      obtain ⟨rfl, hnotice⟩ := Prod.mk.inj he
      refine ⟨next, below, ?_⟩
      exact (stack_notify (m := ({ n with stack := below } : Machine σ).push (.run next)) hB'
        hnotice).imp callsEach_of_stack id
  | serve b' service next =>
      obtain ⟨B', hB', he⟩ := Option.map_eq_some_iff.1 hdeed
      obtain ⟨rfl, hnotice⟩ := Prod.mk.inj he
      refine ⟨next, below, ?_⟩
      exact (stack_serve (m := ({ n with stack := below } : Machine σ).push (.run next)) hB'
        service hnotice).imp callsEach_of_stack id
  | raise | unsubscribe | clear | unawait =>
      obtain ⟨B', -, he⟩ := Option.map_eq_some_iff.1 hdeed
      cases (Prod.mk.inj he).2
  | subscribe | await =>
      obtain ⟨B', -, he⟩ := Option.map_eq_some_iff.1 hdeed
      have hother := (Prod.mk.inj he).2
      split at hother <;> cases hother
  | _ => cases hdeed

section handles

variable (hB : n.world.bus? b = some B) (hk : Next kinds n k)

include hB hk

theorem answersAtOnce_of_next {next : Option Nat → Script σ} (hp : n.panic = none)
    (hn : n.stack = .run (.await b name callback next) :: below)
    (hknows : n.world.knowsCompleted B name = true) :
    AnswersAtOnce kinds b B callback (next none) below k := by
  obtain rfl := eq_resume_of_next hn hp hk
  have hawait : ({ n with stack := below } : Machine σ).resume kinds
      (.run (.await b name callback next)) =
      ({ n with stack := .deliver (some b) [callback] :: .run (next none) :: below } :
        Machine σ) := by
    simp [resume, perform, await, hB, hknows, push]
  rw [hawait]
  exact ⟨hB, callsFirst_of_stack rfl hp⟩

theorem stack_await {next : Option Nat → Script σ} (hp : n.panic = none)
    (hn : n.stack = .run (.await b name callback next) :: below)
    (hknows : n.world.knowsCompleted B name = false) :
    k.stack = .run (next (some (B.await name callback).1)) :: below := by
  obtain rfl := eq_resume_of_next hn hp hk
  simp [resume, perform, await, hB, hknows, push]

theorem stack_unawait {id : Nat} {next : Bool → Script σ} (hp : n.panic = none)
    (hn : n.stack = .run (.unawait b name id next) :: below) :
    k.stack = .run (next (B.unawait name id).1) :: below := by
  obtain rfl := eq_resume_of_next hn hp hk
  simp [resume, perform, hB, push]

theorem handles_of_next : Handles kinds b B n k := by
  have hdeed : ∀ {s : Script σ} {below : List (Frame σ)} {x : Deed σ}, n.panic = none →
      n.stack = .run s :: below → s.deed? n.world = some (b, x) → n.deed? b = some x :=
    fun hp hn hx => deed?_eq_some_iff.2 ⟨_, asked?_eq_some_iff.2 ⟨hp, _, hn⟩, hx⟩
  refine ⟨?_, ?_, ?_, fun due waiting hx => callsEach_of_next hk hx⟩
  · intro name callback next below hp hn hknows
    refine ⟨hdeed hp hn ?_, answersAtOnce_of_next hB hk hp hn hknows⟩
    simp [Script.deed?, hB, hknows]
  · intro name callback next below hp hn hknows
    refine ⟨hdeed hp hn ?_, stack_await hB hk hp hn hknows⟩
    simp [Script.deed?, hB, hknows, Bus.await]
  · intro name id next below hp hn
    have hfound : (B.unawait name id).1 =
        !(B.waiters.filter fun s => s.topic = name && s.id = id).isEmpty := by
      rw [Bus.unawait, Bool.eq_iff_iff]
      simp [List.filter_eq_nil_iff]
    refine ⟨B.waiters.filter fun s => s.topic = name && s.id = id,
      B.waiters.filter fun s => !(s.topic = name && s.id = id), hdeed hp hn ?_,
      fun s => by simp, ?_⟩
    · rw [Script.deed?, hB]
      rfl
    · rw [← hfound]
      exact stack_unawait hB hk hp hn

end handles

/-! ### Every moment -/

/-- At every moment of a session a bus listens if there is a quest service and somebody who waits,
and a quest log has as many listeners as there are such from outside and buses that listen to it;
and whenever nothing is going on nobody waits for a quest that is completed. Whoever has begun to
wait still waits, or has been called, or has withdrawn, and only one of these, and once. -/
theorem Record.waits_settled (h : Record kinds m past n) (hm : m.Fresh) :
    (∀ b B, n.world.bus? b = some B →
      (B.watch.isSome ↔ B.service.isSome ∧ B.waiters ≠ [])) ∧
    ((∀ k ∈ past, k.Honest) →
      (∀ l L, n.world.logs[l]? = some L → L.listeners.length = (outsiders l past).length +
        n.world.buses.countP fun B => B.service = some ⟨l, true⟩ && B.watch.isSome) ∧
      (n.stack = [] → ∀ b B l L, n.world.bus? b = some B → B.service = some ⟨l, true⟩ →
        n.world.logs[l]? = some L → ∀ s ∈ B.waiters, ¬L.Completed s.topic)) ∧
    ∀ b B, n.world.bus? b = some B →
      (B.waiters ++ ((deeds b past).flatMap Deed.called ++
        (deeds b past).flatMap Deed.withdrawn)).Perm ((deeds b past).flatMap Deed.awaited) ∧
      ((B.waiters ++ ((deeds b past).flatMap Deed.called ++
        (deeds b past).flatMap Deed.withdrawn)).map Subscription.id).Nodup ∧
      ∀ k, Next kinds n k → Handles kinds b B n k := by
  refine ⟨fun b B hB => ?_, fun honest => ⟨fun l L hL => ?_, ?_⟩, fun b B hB => ?_⟩
  · obtain ⟨hget, halive⟩ := World.bus?_eq_some_iff.1 hB
    have hwatching := h.watched hm B (List.mem_of_getElem? hget)
    rw [Bus.Watching, halive] at hwatching
    simpa using hwatching
  · rw [((h.listed hm honest).perm l L hL).length_eq, List.length_append, World.length_notices]
  · intro hn b B l L hB hservice hL s hs hdone
    refine not_owed_of_stack hn b (h.owed hm honest ⟨B, hB, ⟨l, hservice⟩, s, hs, ?_⟩)
    rw [World.knowsCompleted, World.logOf?, hservice, Option.bind_some, hL]
    simpa using hdone
  · have hkept := h.kept_of_fresh hm (World.bus?_eq_some_iff.1 hB).1
    refine ⟨hkept.conserved, ?_, fun k hk => handles_of_next hB hk⟩
    exact (hkept.conserved.map Subscription.id).nodup_iff.2 hkept.nodup_awaited

def castle : Machine Unit where
  world :=
    { buses := [{ service := some ⟨0, true⟩ }, { service := some ⟨0, true⟩ }]
      logs := [{}] }
  data := ()

/-- Both buses are told when the siege is over, and whoever waits on the first goes on to wait for
the truce. Somebody who waits for the feast on the second thinks better of it. -/
def besiege : Script Unit :=
  .listen 0 .stop fun _ => .await 0 "siege" (.await 0 "truce" .stop fun _ => .stop) fun _ =>
    .await 1 "siege" .stop fun _ => .await 1 "feast" .stop fun id =>
      .unawait 1 "feast" (id.getD 0) fun _ => .advance 0 "siege" .complete .stop

/-- In the end somebody listens from outside, and the first bus does, on which somebody waits for
the truce. -/
theorem waits_settled_castle : ∃ past n B L, Record Builtin.registry castle past n ∧
    castle.Fresh ∧ (∀ k ∈ past, k.Honest) ∧ n.stack = [] ∧ n.world.bus? 0 = some B ∧
    n.world.logs[0]? = some L ∧ B.watch.isSome ∧ B.waiters.map Subscription.topic = ["truce"] ∧
    L.Completed "siege" ∧ ¬L.Completed "truce" ∧ (outsiders 0 past).length = 1 ∧
    L.listeners.length = 2 ∧
    (n.world.buses.countP fun B => B.service = some ⟨0, true⟩ && B.watch.isSome) = 1 ∧
    ((deeds 1 past).flatMap Deed.called).map Subscription.topic = ["siege"] ∧
    ((deeds 1 past).flatMap Deed.withdrawn).map Subscription.topic = ["feast"] := by
  obtain ⟨n, B, L, hn, hstack, hB, hservice, hwaiters, hL, hsiege, houtside, hlength, hcalled,
      hwithdrawn, hquiet⟩ : ∃ n B L, (castle.call besiege).after Builtin.registry 23 = some n ∧
      n.stack = [] ∧ n.world.bus? 0 = some B ∧ B.service = some ⟨0, true⟩ ∧
      B.waiters = [⟨"truce", 2, .stop⟩] ∧ n.world.logs[0]? = some L ∧
      L.Completed "siege" ∧
      (outsiders 0 ((castle.call besiege).moments Builtin.registry 23 ++ [])).length = 1 ∧
      L.listeners.length = 2 ∧
      ((deeds 1 ((castle.call besiege).moments Builtin.registry 23 ++ [])).flatMap
        Deed.called).map Subscription.topic = ["siege"] ∧
      ((deeds 1 ((castle.call besiege).moments Builtin.registry 23 ++ [])).flatMap
        Deed.withdrawn).map Subscription.topic = ["feast"] ∧
      (((castle.call besiege).moments Builtin.registry 23 ++ []).all fun k =>
        (k.asked?.bind Script.unlisten?).isNone) = true :=
    ⟨_, _, _, rfl, rfl, rfl, rfl, rfl, rfl, rfl, rfl, rfl, rfl, rfl, rfl⟩
  have hfresh : castle.Fresh := by
    refine ⟨rfl, fun R hR => absurd hR List.not_mem_nil, fun B hB => ⟨some ⟨0, true⟩, ?_⟩,
      List.forall_mem_singleton.2 rfl⟩
    rcases List.mem_pair.1 hB with rfl | rfl <;> rfl
  have honest : ∀ k ∈ (castle.call besiege).moments Builtin.registry 23 ++ [], k.Honest := by
    intro k hk l id hid
    have hno := List.all_eq_true.1 hquiet k hk
    rw [hid] at hno
    cases hno
  have h := ((Record.refl : Record Builtin.registry castle [] castle).call rfl besiege).after hn
  obtain ⟨hwatching, hsettled, -⟩ := h.waits_settled hfresh
  obtain ⟨hcount, hwaits⟩ := hsettled honest
  have hnow := hcount 0 L hL
  rw [hlength, houtside] at hnow
  refine ⟨_, n, B, L, h, hfresh, honest, hstack, hB, hL, ?_, by rw [hwaiters]; rfl, hsiege, ?_,
    houtside, hlength, by omega, hcalled, hwithdrawn⟩
  · refine (hwatching 0 B hB).2 ⟨by rw [hservice]; rfl, ?_⟩
    rw [hwaiters]
    exact List.cons_ne_nil _ _
  · exact hwaits hstack 0 B 0 L hB hservice hL ⟨"truce", 2, .stop⟩ (by rw [hwaiters]; simp)

end Machine

end StoryGraph
