import StoryGraph.Proofs.Flow.Delivery
import StoryGraph.Proofs.Flow.Registered

/-!
# What is done to a bus

What a bus keeps of those who use it (`Bus.desk`) changes in a few ways only, each of them a step
of a script: a `Deed`. Whatever else goes on in a session, and however deeply callbacks are nested
in each other, the desk of a bus is what has become of it by the deeds done to it, one after the
other (`Machine.Record.kept`). So what is known of a desk is known from the deeds alone
(`Desk.Kept`).

`Machine.Record` keeps the moments of a session, and the deeds are read off them.
-/

namespace StoryGraph

variable {σ : Type}

/-! ### Desks -/

/-- What a bus keeps of those who use it. -/
structure Desk (σ : Type) where
  subscribers : List (Subscription (Script σ)) := []
  pending : List String := []
  waiters : List (Subscription (Script σ)) := []
  lastId : Nat := 0

def Bus.desk (B : Bus (Script σ)) : Desk σ where
  subscribers := B.subscribers
  pending := B.pending
  waiters := B.waiters
  lastId := B.lastId

/-- What is done to the desk of a bus in one step. -/
inductive Deed (σ : Type) where
  /-- An event is raised, and there is somebody who hears it or nobody. -/
  | raise (key : String) (heard : Bool)
  | subscribe (s : Subscription (Script σ))
  /-- A pending event is handed to somebody who subscribes to it. -/
  | handOver (key : String) (callback : Script σ)
  | unsubscribe (key : String) (id : Nat)
  | clear
  | await (s : Subscription (Script σ))
  /-- Somebody would wait for a quest that is completed. -/
  | answer (quest : String) (callback : Script σ)
  /-- Of those who wait some go and some stay. -/
  | unawait (gone waiting : List (Subscription (Script σ)))
  /-- Of those who wait some are called and some go on to wait. -/
  | notify (due waiting : List (Subscription (Script σ)))

namespace Deed

def on (d : Desk σ) : Deed σ → Desk σ
  | raise _ true => d
  | raise key false => if key ∈ d.pending then d else { d with pending := key :: d.pending }
  | subscribe s => { d with subscribers := d.subscribers ++ [s], lastId := s.id }
  | handOver key _ => { d with pending := d.pending.filter fun k => k ≠ key }
  | unsubscribe key id =>
    { d with subscribers := d.subscribers.filter fun s => !(s.topic = key && s.id = id) }
  | clear => { d with pending := [] }
  | await s => { d with waiters := d.waiters ++ [s], lastId := s.id }
  | answer _ _ => d
  | unawait _ waiting => { d with waiters := waiting }
  | notify _ waiting => { d with waiters := waiting }

section raise

variable (d : Desk σ) (key : String) (heard : Bool)

/-- A raise changes what is pending and nothing else. -/
theorem exists_on_raise : ∃ pending, on d (raise key heard) = { d with pending } := by
  cases heard with
  | true => exact ⟨d.pending, rfl⟩
  | false =>
      by_cases hkey : key ∈ d.pending
      · exact ⟨d.pending, if_pos hkey⟩
      · exact ⟨key :: d.pending, if_neg hkey⟩

@[simp] theorem subscribers_raise : (on d (raise key heard)).subscribers = d.subscribers := by
  obtain ⟨pending, h⟩ := exists_on_raise d key heard
  rw [h]

@[simp] theorem waiters_raise : (on d (raise key heard)).waiters = d.waiters := by
  obtain ⟨pending, h⟩ := exists_on_raise d key heard
  rw [h]

@[simp] theorem lastId_raise : (on d (raise key heard)).lastId = d.lastId := by
  obtain ⟨pending, h⟩ := exists_on_raise d key heard
  rw [h]

theorem mem_pending_raise {other : String} : other ∈ (on d (raise key heard)).pending ↔
    other ∈ d.pending ∨ heard = false ∧ other = key := by
  cases heard with
  | true => simp [on]
  | false =>
      by_cases hkey : key ∈ d.pending
      · rw [on, if_pos hkey]
        refine ⟨.inl, fun h => h.elim id ?_⟩
        rintro ⟨-, rfl⟩
        exact hkey
      · simp [on, hkey, or_comm]

end raise

def Fits (d : Desk σ) : Deed σ → Prop
  | raise key heard => heard = d.subscribers.any fun s => s.topic = key
  | subscribe s => s.topic ∉ d.pending ∧ s.id = d.lastId + 1
  | handOver key _ => key ∈ d.pending
  | unsubscribe _ _ => True
  | clear => True
  | await s => s.id = d.lastId + 1
  | answer _ _ => True
  | unawait gone waiting => (gone ++ waiting).Perm d.waiters
  | notify due waiting => (due ++ waiting).Perm d.waiters

end Deed

/-- What can have become of a new desk by a list of deeds, of which the last one stands first. -/
inductive Desk.Kept : List (Deed σ) → Desk σ → Prop where
  | new : Kept [] {}
  | deed {past : List (Deed σ)} {d : Desk σ} {x : Deed σ} (kept : Kept past d) (fits : x.Fits d) :
    Kept (x :: past) (x.on d)

def Deed.id? : Deed σ → Option Nat
  | .subscribe s | .await s => some s.id
  | _ => none

namespace Desk.Kept

variable {past : List (Deed σ)} {d : Desk σ}

/-- Numbers are given out in ascending order. -/
theorem ids (h : Kept past d) : (past.filterMap Deed.id?).Pairwise (· > ·) ∧
    ∀ id ∈ past.filterMap Deed.id?, id ≤ d.lastId := by
  induction h with
  | new => exact ⟨List.Pairwise.nil, fun id h => absurd h List.not_mem_nil⟩
  | @deed past d x _ fits ih =>
      obtain ⟨hsorted, hle⟩ := ih
      have hnew : ∀ id, id = d.lastId + 1 → (id :: past.filterMap Deed.id?).Pairwise (· > ·) ∧
          ∀ id' ∈ id :: past.filterMap Deed.id?, id' ≤ id := by
        rintro id rfl
        refine ⟨List.pairwise_cons.2 ⟨fun id' h => Nat.lt_succ_of_le (hle id' h), hsorted⟩, ?_⟩
        exact List.forall_mem_cons.2 ⟨le_rfl, fun id' h => (hle id' h).trans (Nat.le_succ _)⟩
      cases x with
      | subscribe s => exact hnew s.id fits.2
      | await s => exact hnew s.id fits
      | raise key heard =>
          rw [Deed.lastId_raise]
          exact ⟨hsorted, hle⟩
      | _ => exact ⟨hsorted, hle⟩

/-- Whoever is subscribed has subscribed, and whoever waits has begun to wait. -/
theorem enlisted (h : Kept past d) : (∀ s ∈ d.subscribers, .subscribe s ∈ past) ∧
    ∀ s ∈ d.waiters, .await s ∈ past := by
  induction h with
  | new => exact ⟨fun s hs => absurd hs List.not_mem_nil, fun s hs => absurd hs List.not_mem_nil⟩
  | @deed past d x _ fits ih =>
      obtain ⟨hsubscribers, hwaiters⟩ := ih
      have hold : (∀ s ∈ d.subscribers, .subscribe s ∈ x :: past) ∧
          ∀ s ∈ d.waiters, .await s ∈ x :: past :=
        ⟨fun s hs => List.mem_cons_of_mem x (hsubscribers s hs),
          fun s hs => List.mem_cons_of_mem x (hwaiters s hs)⟩
      cases x with
      | subscribe s =>
          refine ⟨fun s' hs' => ?_, hold.2⟩
          rcases List.mem_append.1 hs' with hs' | hs'
          · exact hold.1 s' hs'
          · exact List.mem_singleton.1 hs' ▸ List.mem_cons_self
      | await s =>
          refine ⟨hold.1, fun s' hs' => ?_⟩
          rcases List.mem_append.1 hs' with hs' | hs'
          · exact hold.2 s' hs'
          · exact List.mem_singleton.1 hs' ▸ List.mem_cons_self
      | unsubscribe key id => exact ⟨fun s hs => hold.1 s (List.mem_of_mem_filter hs), hold.2⟩
      | unawait gone waiting | notify gone waiting =>
          exact ⟨hold.1, fun s hs => hold.2 s (fits.subset (List.mem_append_right gone hs))⟩
      | raise key heard =>
          rw [Deed.subscribers_raise, Deed.waiters_raise]
          exact hold
      | handOver | clear | answer => exact hold

end Desk.Kept

/-! ### Deeds of scripts -/

namespace World

def notice (w : World (Script σ)) (B : Bus (Script σ)) : Deed σ :=
  .notify (B.waiters.filter fun s => w.knowsCompleted B s.topic)
    (B.waiters.filter fun s => !w.knowsCompleted B s.topic)

end World

def Script.deed? (w : World (Script σ)) : Script σ → Option (Nat × Deed σ)
  | .raise b key _ =>
    (w.bus? b).map fun B => (b, .raise key (B.subscribers.any fun s => s.topic = key))
  | .subscribe b key callback _ =>
    (w.bus? b).map fun B =>
      (b, if key ∈ B.pending then .handOver key callback
        else .subscribe ⟨key, B.lastId + 1, callback⟩)
  | .unsubscribe b key id _ => (w.bus? b).map fun _ => (b, .unsubscribe key id)
  | .clear b _ => (w.bus? b).map fun _ => (b, .clear)
  | .await b name callback _ =>
    (w.bus? b).map fun B =>
      (b, if w.knowsCompleted B name then .answer name callback
        else .await ⟨name, B.lastId + 1, callback⟩)
  | .unawait b name id _ =>
    (w.bus? b).map fun B =>
      (b, .unawait (B.waiters.filter fun s => s.topic = name && s.id = id)
        (B.waiters.filter fun s => !(s.topic = name && s.id = id)))
  | .notify b _ => (w.bus? b).map fun B => (b, w.notice B)
  | .serve b service _ => (w.bus? b).map fun B => (b, w.notice { B with service })
  | _ => none

theorem Script.deed?_of_aside {s : Script σ} (hs : s.Aside) (w : World (Script σ)) :
    s.deed? w = none := by
  cases s with
  | stop | panic | look | keep | assign | start | ask | done | onLeave | set | release => rfl
  | _ => exact hs.elim

namespace World

variable {w w' : World (Script σ)} {b : Nat} {B B' : Bus (Script σ)} {x : Deed σ}

/-! ### Desks of a world -/

def desks (w : World (Script σ)) : List (Desk σ) := w.buses.map Bus.desk

theorem getElem?_desks (w : World (Script σ)) (b : Nat) :
    w.desks[b]? = w.buses[b]?.map Bus.desk :=
  List.getElem?_map

theorem desks_setBus (w : World (Script σ)) (b : Nat) (B : Bus (Script σ)) :
    (w.setBus b B).desks = w.desks.set b B.desk :=
  List.map_set

theorem desks_watch (w : World (Script σ)) (b : Nat) (B : Bus (Script σ)) (listener : Script σ) :
    (w.watch b B listener).desks = w.desks.set b B.desk := by
  unfold watch
  split
  · split <;> exact desks_setBus ..
  · exact desks_setBus ..

theorem desks_unwatch (w : World (Script σ)) (b : Nat) (B : Bus (Script σ)) :
    (w.unwatch b B).desks = w.desks.set b B.desk := by
  unfold unwatch
  dsimp only
  split
  · split <;> exact desks_setBus ..
  · exact desks_setBus ..

theorem desks_settle (w : World (Script σ)) (b : Nat) (B : Bus (Script σ)) :
    (w.settle b B).desks = w.desks.set b B.desk := by
  unfold settle
  split
  · exact desks_unwatch ..
  · exact desks_setBus ..

/-- A bus is exchanged for one to which something has been done. -/
theorem set_desks (hB : w.buses[b]? = some B) (h : B'.desk = x.on B.desk) :
    w.desks.set b B'.desk = w.desks.modify b x.on := by
  rw [List.modify_eq_set_getElem?, getElem?_desks, hB, h]
  rfl

theorem set_desks_of_eq (hB : w.buses[b]? = some B) (h : B'.desk = B.desk) :
    w.desks.set b B'.desk = w.desks :=
  set_map_of_eq hB h

/-! ### Notices -/

theorem notice_congr (hw : w'.states = w.states) (hs : B'.service = B.service)
    (hwaiters : B'.waiters = B.waiters) : w'.notice B' = w.notice B := by
  have hknows : w'.knowsCompleted B' = w.knowsCompleted B :=
    funext fun name => knowsCompleted_congr hw hs name
  rw [notice, notice, hknows, hwaiters]

theorem notice_of_service_eq_none (h : B.service = none) :
    w.notice B = .notify [] B.waiters := by
  have hknows : ∀ name, w.knowsCompleted B name = false := by
    intro name
    rw [knowsCompleted_eq, h]
    rfl
  simp [notice, hknows]

end World

namespace Machine

variable {kinds : Registry (Behaviour σ)} {m n k : Machine σ} {b : Nat} {B : Bus (Script σ)}

/-! ### Deeds of a step -/

def asked? (m : Machine σ) : Option (Script σ) :=
  match m.panic, m.stack with
  | none, .run s :: _ => some s
  | _, _ => none

/-- What the next step does to a bus. -/
def deed? (b : Nat) (m : Machine σ) : Option (Deed σ) :=
  (m.asked?.bind (Script.deed? m.world)).bind fun e => if e.1 = b then some e.2 else none

theorem bind_ite_eq_some_iff {α : Type _} {o : Option (Nat × α)} {a : α} :
    (o.bind fun e => if e.1 = b then some e.2 else none) = some a ↔ o = some (b, a) := by
  rw [Option.bind_eq_some_iff]
  constructor
  · rintro ⟨⟨b', a'⟩, ho, hb⟩
    split at hb
    · rename_i heq
      obtain rfl : b' = b := heq
      exact ho.trans (congrArg _ (congrArg _ (Option.some.inj hb)))
    · cases hb
  · exact fun ho => ⟨(b, a), ho, if_pos rfl⟩

theorem asked?_eq_some_iff {s : Script σ} :
    m.asked? = some s ↔ m.panic = none ∧ ∃ below, m.stack = .run s :: below := by
  unfold asked?
  cases m.panic with
  | some e => simp
  | none =>
      cases m.stack with
      | nil => simp
      | cons f below => cases f <;> simp

theorem deed?_eq_some_iff {x : Deed σ} :
    m.deed? b = some x ↔ ∃ s, m.asked? = some s ∧ s.deed? m.world = some (b, x) := by
  rw [deed?, bind_ite_eq_some_iff, Option.bind_eq_some_iff]

/-- A bus ends if nobody keeps it and nobody is at work with it. -/
theorem world_expireBus (m : Machine σ) (b : Nat) : (m.expireBus b).world = m.world ∨
    ∃ B, m.world.buses[b]? = some B ∧ B.lifetime = .released ∧
      (m.expireBus b).world = m.world.unwatch b { B with lifetime := .over } := by
  unfold expireBus
  split
  · exact .inl rfl
  · rename_i B hB
    split
    · rename_i h
      refine .inr ⟨B, hB, ?_, rfl⟩
      simp only [Bool.and_eq_true, decide_eq_true_eq] at h
      exact h.1
    · exact .inl rfl

/-- A script that leaves the buses and quest logs alone. -/
theorem untouched_perform (m : Machine σ) {s : Script σ} (hs : s.Aside) :
    Untouched m.world (m.perform s).world := by
  cases hr : s.runner? with
  | some r =>
      obtain ⟨next, -, hrunner⟩ := atRunner_perform m hr
      exact hrunner.toUntouched
  | none =>
      cases s with
      | stop | panic | look | keep | assign => exact ⟨rfl, rfl⟩
      | start | ask | done | onLeave | set | release => cases hr
      | _ => exact hs.elim

/-- A step is that of a script, or the end of a bus, or it does not touch the buses and quest
logs. -/
theorem next_cases (hn : Next kinds m n) :
    (∃ s below, m.asked? = some s ∧ m.stack = .run s :: below ∧
      n = ({ m with stack := below } : Machine σ).perform s) ∨
    m.asked? = none ∧ (Untouched m.world n.world ∨
      ∃ (k : Machine σ) (b : Nat), Untouched m.world k.world ∧
        n.world = (k.expireBus b).world) := by
  have hasked : (m.panic = none → ∀ s below, m.stack ≠ .run s :: below) → m.asked? = none := by
    intro h
    rw [Option.eq_none_iff_forall_ne_some]
    intro s hs
    obtain ⟨hp, below, hm⟩ := asked?_eq_some_iff.1 hs
    exact h hp s below hm
  obtain ⟨f, below, hm, ⟨hp, rfl⟩ | ⟨hp, rfl⟩⟩ := exists_of_next hn
  · have hhead : (∀ s, f ≠ .run s) → m.asked? = none := fun hrun =>
      hasked fun _ s _ hs => hrun s (List.cons.inj (hm.symm.trans hs)).1
    cases hr : f.runner? with
    | some r =>
        refine .inr ⟨hhead fun s hs => ?_, .inl ?_⟩
        · rw [hs] at hr
          cases hr
        · exact (atRunner_resume { m with stack := below } kinds hr).toUntouched
    | none =>
        cases f with
        | run s => exact .inl ⟨s, below, asked?_eq_some_iff.2 ⟨hp, below, hm⟩, hm, rfl⟩
        | deliver bus rest =>
            refine .inr ⟨hhead (fun s hs => by cases hs), ?_⟩
            cases rest with
            | cons s rest => exact .inl ⟨rfl, rfl⟩
            | nil =>
                cases bus with
                | none => exact .inl ⟨rfl, rfl⟩
                | some b => exact .inr ⟨{ m with stack := below }, b, ⟨rfl, rfl⟩, rfl⟩
        | _ => cases hr
  · refine .inr ⟨hasked fun hnone => absurd hnone hp, ?_⟩
    cases hr : f.runner? with
    | some r =>
        obtain ⟨k, hk, heq | ⟨b, heq⟩⟩ := atRunner_unwind { m with stack := below } hr
        · exact .inl (heq ▸ hk.toUntouched)
        · exact .inr ⟨k, b, hk.toUntouched, congrArg Machine.world heq⟩
    | none =>
        cases f with
        | run | deliver => exact .inl ⟨rfl, rfl⟩
        | _ => cases hr

theorem Untouched.desks {w w' : World (Script σ)} (h : Untouched w w') : w'.desks = w.desks := by
  rw [World.desks, h.buses, World.desks]

theorem desks_expireBus (m : Machine σ) (b : Nat) :
    (m.expireBus b).world.desks = m.world.desks := by
  rcases world_expireBus m b with h | ⟨B, hB, -, h⟩
  · rw [h]
  · rw [h, World.desks_unwatch]
    exact World.set_desks_of_eq hB rfl

theorem desks_close (m : Machine σ) (b : Nat) : (m.close b).world.desks = m.world.desks := by
  unfold close
  split
  · rfl
  · rename_i B hB
    rw [desks_expireBus, World.desks_setBus]
    exact World.set_desks_of_eq hB rfl

theorem desks_advance (m : Machine σ) (bus : Option Nat) (l : Nat) (name : String)
    (step : QuestStep) : (m.advance bus l name step).world.desks = m.world.desks := by
  unfold advance
  split <;> rfl

theorem isEmpty_listeners (B : Bus (Script σ)) (key : String) :
    (B.listeners key).isEmpty = !B.subscribers.any fun s => s.topic = key := by
  rw [Bus.listeners, List.isEmpty_map, Bool.eq_iff_iff]
  simp [List.isEmpty_iff, List.filter_eq_nil_iff]

theorem desks_raise (hB : m.world.bus? b = some B) (key : String) :
    (m.raise b key).world.desks = m.world.desks.modify b
      (Deed.on · (.raise key (B.subscribers.any fun s => s.topic = key))) := by
  unfold raise
  rw [hB]
  dsimp only
  rw [isEmpty_listeners]
  cases hheard : B.subscribers.any fun s => s.topic = key with
  | true =>
      have hon : (fun d : Desk σ => Deed.on d (.raise key true)) = id := rfl
      rw [hon, List.modify_id]
      rfl
  | false =>
      have hdesk : (B.hold key).desk = Deed.on B.desk (.raise key false) := by
        by_cases hkey : key ∈ B.pending <;> simp [Bus.hold, Deed.on, Bus.desk, hkey]
      exact (World.desks_setBus ..).trans
        (World.set_desks (World.bus?_eq_some_iff.1 hB).1 hdesk)

theorem raise_of_none (hB : m.world.bus? b = none) (key : String) : m.raise b key = m := by
  rw [raise, hB]

theorem desks_subscribe (hB : m.world.bus? b = some B) (key : String) (callback : Script σ)
    (next : Option Nat → Script σ) : (m.subscribe b key callback next).world.desks =
      m.world.desks.modify b (Deed.on · (if key ∈ B.pending then .handOver key callback
        else .subscribe ⟨key, B.lastId + 1, callback⟩)) := by
  have hget := (World.bus?_eq_some_iff.1 hB).1
  unfold subscribe
  rw [hB]
  dsimp only
  by_cases hkey : key ∈ B.pending
  · rw [if_pos hkey, if_pos hkey]
    exact (World.desks_setBus ..).trans (World.set_desks hget rfl)
  · rw [if_neg hkey, if_neg hkey]
    exact (World.desks_setBus ..).trans (World.set_desks hget rfl)

theorem desks_await (hB : m.world.bus? b = some B) (name : String) (callback : Script σ)
    (next : Option Nat → Script σ) : (m.await b name callback next).world.desks =
      m.world.desks.modify b (Deed.on · (if m.world.knowsCompleted B name then .answer name callback
        else .await ⟨name, B.lastId + 1, callback⟩)) := by
  unfold await
  rw [hB]
  dsimp only
  by_cases hknows : m.world.knowsCompleted B name = true
  · rw [if_pos hknows, if_pos hknows]
    have hon : (fun d : Desk σ => Deed.on d (.answer name callback)) = id := rfl
    rw [hon, List.modify_id]
    rfl
  · rw [if_neg hknows, if_neg hknows]
    exact (World.desks_watch ..).trans (World.set_desks (World.bus?_eq_some_iff.1 hB).1 rfl)

theorem world_notify (hB : m.world.bus? b = some B) : (m.notify b).world =
    if B.service.isNone then m.world
    else m.world.settle b
      { B with waiters := B.waiters.filter fun s => !m.world.knowsCompleted B s.topic } := by
  unfold notify
  rw [hB]
  dsimp only
  split
  · rfl
  · rw [List.partition_eq_filter_filter]
    rfl

theorem desks_notify (hB : m.world.bus? b = some B) :
    (m.notify b).world.desks = m.world.desks.modify b (Deed.on · (m.world.notice B)) := by
  have hget := (World.bus?_eq_some_iff.1 hB).1
  rw [world_notify hB]
  split
  · rename_i hnone
    rw [World.notice_of_service_eq_none (Option.isNone_iff_eq_none.1 hnone)]
    have hdesk : B.desk = Deed.on B.desk (.notify [] B.waiters) := rfl
    exact (World.set_desks_of_eq hget rfl).symm.trans (World.set_desks hget hdesk)
  · rw [World.desks_settle]
    exact World.set_desks hget rfl

theorem desks_serve (hB : m.world.bus? b = some B) (service : Option QuestService) :
    (m.serve b service).world.desks =
      m.world.desks.modify b (Deed.on · (m.world.notice { B with service })) := by
  have hget := (World.bus?_eq_some_iff.1 hB).1
  by_cases hwaiters : B.waiters = []
  · have hdesk : ({ B with watch := none, service } : Bus (Script σ)).desk =
        Deed.on B.desk (m.world.notice { B with service }) := by
      simp [World.notice, Deed.on, Bus.desk, hwaiters]
    rw [serve_of_waiters hB hwaiters, World.desks_setBus, World.desks_unwatch, List.set_set]
    exact World.set_desks hget hdesk
  · obtain ⟨watch, hserve, hk⟩ := exists_notify_of_serve hB hwaiters service
    have hnotice : (m.world.attach b B service).notice { B with watch, service } =
        m.world.notice { B with service } :=
      World.notice_congr (World.states_attach ..) rfl rfl
    have hdesks : (m.world.attach b B service).desks = m.world.desks := by
      rw [World.attach, World.desks_watch, World.desks_unwatch, List.set_set]
      exact World.set_desks_of_eq hget rfl
    rw [hserve, desks_notify hk, hnotice, hdesks]

/-- A step of a script does to the desks of a world what its deed is. -/
theorem desks_perform (m : Machine σ) (s : Script σ) : (m.perform s).world.desks =
    (s.deed? m.world).elim m.world.desks fun e => m.world.desks.modify e.1 (Deed.on · e.2) := by
  have hset : ∀ {b : Nat} {B B' : Bus (Script σ)} {x : Deed σ}, m.world.bus? b = some B →
      B'.desk = x.on B.desk →
      m.world.desks.set b B'.desk = m.world.desks.modify b (Deed.on · x) := fun hB h =>
    World.set_desks (World.bus?_eq_some_iff.1 hB).1 h
  by_cases haside : s.Aside
  · rw [Script.deed?_of_aside haside]
    exact (untouched_perform m haside).desks
  cases s with
  | raise b key next =>
      rw [Script.deed?]
      cases hB : m.world.bus? b with
      | none =>
          rw [perform, raise_of_none (m := m.push (.run next)) hB]
          rfl
      | some B => exact desks_raise (m := m.push (.run next)) hB key
  | subscribe b key callback next =>
      rw [Script.deed?]
      cases hB : m.world.bus? b with
      | none =>
          rw [perform, subscribe, hB]
          rfl
      | some B => exact desks_subscribe hB key callback next
  | unsubscribe b key id next =>
      rw [Script.deed?, perform]
      cases hB : m.world.bus? b with
      | none => rfl
      | some B => exact (World.desks_setBus ..).trans (hset hB rfl)
  | clear b next =>
      rw [Script.deed?, perform]
      cases hB : m.world.bus? b with
      | none => rfl
      | some B => exact (World.desks_setBus ..).trans (hset hB rfl)
  | await b name callback next =>
      rw [Script.deed?]
      cases hB : m.world.bus? b with
      | none =>
          rw [perform, await, hB]
          rfl
      | some B => exact desks_await hB name callback next
  | unawait b name id next =>
      rw [Script.deed?, perform]
      cases hB : m.world.bus? b with
      | none => rfl
      | some B => exact (World.desks_settle ..).trans (hset hB rfl)
  | quest b name step next =>
      change (m.perform (.quest b name step next)).world.desks = m.world.desks
      rw [perform]
      cases hs : (m.world.bus? b).bind Bus.service with
      | none => rfl
      | some s => exact desks_advance (m.push (.run next)) (some b) s.log name step
  | notify b next =>
      rw [Script.deed?]
      cases hB : m.world.bus? b with
      | none =>
          rw [perform, notify_of_none (m := m.push (.run next)) hB]
          rfl
      | some B => exact desks_notify (m := m.push (.run next)) hB
  | serve b service next =>
      rw [Script.deed?]
      cases hB : m.world.bus? b with
      | none =>
          rw [perform, serve_of_none (m := m.push (.run next)) hB]
          rfl
      | some B => exact desks_serve (m := m.push (.run next)) hB service
  | close b next => exact desks_close (m.push (.run next)) b
  | advance l name step next => exact desks_advance (m.push (.run next)) none l name step
  | listen l listener next =>
      simp only [perform]
      split <;> rfl
  | unlisten l id next =>
      simp only [perform]
      split <;> rfl
  | _ => exact absurd trivial haside

/-- A step does to the desk of a bus what its deed is. -/
theorem desks_next (hn : Next kinds m n) (b : Nat) :
    n.world.desks[b]? = m.world.desks[b]?.map fun d => (m.deed? b).elim d (Deed.on d) := by
  rcases next_cases hn with ⟨s, below, hs, hm, rfl⟩ | ⟨hs, h⟩
  · rw [desks_perform, deed?, hs, Option.bind_some]
    change ((s.deed? m.world).elim m.world.desks _)[b]? = _
    cases hdeed : s.deed? m.world with
    | none => simp
    | some e =>
        obtain ⟨b', x⟩ := e
        by_cases hb : b' = b
        · subst hb
          simp
        · simp [hb]
  · have hdesks : n.world.desks = m.world.desks := by
      rcases h with h | ⟨k, b, hk, hn⟩
      · exact h.desks
      · rw [hn, desks_expireBus, hk.desks]
    simp [deed?, hs, hdesks]

/-- What is done to a bus is done to one that is there, and can be done to it. -/
theorem exists_of_deed? {x : Deed σ} (hx : m.deed? b = some x) :
    ∃ B, m.world.bus? b = some B ∧ x.Fits B.desk := by
  obtain ⟨s, -, hdeed⟩ := deed?_eq_some_iff.1 hx
  cases s with
  | raise | unsubscribe | clear =>
      obtain ⟨B, hB, he⟩ := Option.map_eq_some_iff.1 hdeed
      obtain ⟨rfl, rfl⟩ := Prod.mk.inj he
      exact ⟨B, hB, by simp [Deed.Fits, Bus.desk]⟩
  | subscribe b key callback next =>
      obtain ⟨B, hB, he⟩ := Option.map_eq_some_iff.1 hdeed
      obtain ⟨rfl, rfl⟩ := Prod.mk.inj he
      refine ⟨B, hB, ?_⟩
      by_cases hkey : key ∈ B.pending
      · simp [hkey, Deed.Fits, Bus.desk]
      · simp [hkey, Deed.Fits, Bus.desk]
  | await b name callback next =>
      obtain ⟨B, hB, he⟩ := Option.map_eq_some_iff.1 hdeed
      obtain ⟨rfl, rfl⟩ := Prod.mk.inj he
      refine ⟨B, hB, ?_⟩
      by_cases hknows : m.world.knowsCompleted B name = true
      · simp [hknows, Deed.Fits]
      · simp [hknows, Deed.Fits, Bus.desk]
  | unawait | notify | serve =>
      obtain ⟨B, hB, he⟩ := Option.map_eq_some_iff.1 hdeed
      obtain ⟨rfl, rfl⟩ := Prod.mk.inj he
      exact ⟨B, hB, List.filter_append_perm _ _⟩
  | _ => cases hdeed

theorem fits_of_deed? {d : Desk σ} (hd : m.world.desks[b]? = some d) {x : Deed σ}
    (hx : m.deed? b = some x) : x.Fits d := by
  obtain ⟨B, hB, hfits⟩ := exists_of_deed? hx
  rw [World.getElem?_desks, (World.bus?_eq_some_iff.1 hB).1] at hd
  exact Option.some.inj hd ▸ hfits

/-! ### The moments of a session -/

/-- The moments before a moment of a session, the last one first. Whenever nothing is going on, any
script may be called from outside. -/
inductive Record (kinds : Registry (Behaviour σ)) (m : Machine σ) :
    List (Machine σ) → Machine σ → Prop where
  | refl : Record kinds m [] m
  | step {past : List (Machine σ)} {n k : Machine σ} (h : Record kinds m past n)
    (next : Next kinds n k) : Record kinds m (n :: past) k
  | call {past : List (Machine σ)} {n : Machine σ} (h : Record kinds m past n)
    (rests : n.stack = []) (s : Script σ) : Record kinds m past (n.call s)

theorem Record.trans {past later : List (Machine σ)} (h : Record kinds m past n)
    (h' : Record kinds n later k) : Record kinds m (later ++ past) k := by
  induction h' with
  | refl => exact h
  | step _ next ih => exact ih.step next
  | call _ rests s ih => exact ih.call rests s

theorem Record.leads {past : List (Machine σ)} (h : Record kinds m past n) (hk : Leads kinds n k) :
    ∃ past, Record kinds m past k := by
  induction hk with
  | refl => exact ⟨past, h⟩
  | tail _ next ih =>
      obtain ⟨past, h⟩ := ih
      exact ⟨_, h.step next⟩

theorem filterMap_cons_eq {α β : Type _} (f : α → Option β) (a : α) (as : List α) :
    (a :: as).filterMap f = (f a).toList ++ as.filterMap f := by
  rw [List.filterMap_eq_flatMap_toList, List.flatMap_cons, ← List.filterMap_eq_flatMap_toList]

def deeds (b : Nat) (past : List (Machine σ)) : List (Deed σ) := past.filterMap (deed? b)

variable {past : List (Machine σ)}

theorem deeds_cons (b : Nat) (m : Machine σ) (past : List (Machine σ)) :
    deeds b (m :: past) = (m.deed? b).toList ++ deeds b past :=
  filterMap_cons_eq ..

/-- The desk of a bus that was new is what has become of it by what has been done to it. -/
theorem Record.kept (h : Record kinds m past n) (hb : m.world.desks[b]? = some {}) :
    ∃ d, n.world.desks[b]? = some d ∧ Desk.Kept (deeds b past) d := by
  induction h with
  | refl => exact ⟨{}, hb, .new⟩
  | @step past n k _ next ih =>
      obtain ⟨d, hd, hkept⟩ := ih
      have hk := desks_next next b
      rw [hd, Option.map_some] at hk
      rw [deeds_cons]
      cases hx : n.deed? b with
      | none =>
          rw [hx] at hk
          exact ⟨d, hk, hkept⟩
      | some x =>
          rw [hx] at hk
          exact ⟨_, hk, hkept.deed (fits_of_deed? hd hx)⟩
  | call _ _ _ ih => exact ih

theorem Record.after (h : Record kinds m past n) {steps : Nat}
    (hk : n.after kinds steps = some k) : Record kinds m (n.moments kinds steps ++ past) k :=
  moments_induction (motive := fun since k => Record kinds m (since ++ past) k) h
    (fun _ _ _ hrecord next => hrecord.step next) hk

/-- No bus is added. -/
theorem Record.exists_desk (h : Record kinds m past n) {d : Desk σ}
    (hd : n.world.desks[b]? = some d) : ∃ d, m.world.desks[b]? = some d := by
  induction h generalizing d with
  | refl => exact ⟨d, hd⟩
  | step _ next ih =>
      rw [desks_next next b] at hd
      obtain ⟨d', hd', -⟩ := Option.map_eq_some_iff.1 hd
      exact ih hd'
  | call _ _ _ ih => exact ih hd

/-- The desk of a bus is what has become of it since the session began. -/
theorem Record.kept_of_fresh (h : Record kinds m past n) (hm : m.Fresh)
    (hB : n.world.buses[b]? = some B) : Desk.Kept (deeds b past) B.desk := by
  have hdesk : n.world.desks[b]? = some B.desk := by
    rw [World.getElem?_desks, hB]
    rfl
  obtain ⟨d, hd⟩ := h.exists_desk hdesk
  have hnew : m.world.desks[b]? = some {} := by
    rw [World.getElem?_desks] at hd ⊢
    obtain ⟨B', hB', -⟩ := Option.map_eq_some_iff.1 hd
    obtain ⟨service, rfl⟩ := hm.buses B' (List.mem_of_getElem? hB')
    rw [hB']
    rfl
  obtain ⟨d', hd', hkept⟩ := h.kept hnew
  obtain rfl := Option.some.inj (hd'.symm.trans hdesk)
  exact hkept

end Machine

end StoryGraph
