import StoryGraph.Proofs.Flow.Ledger

/-!
# The books of a session

`Machine.Balanced` says of a moment of a session that the ledger of a bus is in order, that those
who are called by buses and quest logs are nodes or come from outside, and that what stands on the
call to a node is left of what such a node does. Nothing in it is about limits, queues or logs, so
what is asked of those leaves it alone.

Whoever comes from outside may do all but speak for a visit and let go of a bus (`Script.Outside`).
A number that is given back drops its entry, whoever gives it back. The books stay in order only if
that is not the number of a node (`Script.Fair`).

It does not hold at every moment: a node that waits has been given a number before it has laid down
what drops it, and a visit has ended before that is done. Both last one step.
-/

namespace StoryGraph

variable {σ : Type}

open Builtin (Wait)

/-! ### Cards and pages -/

def Runner.card (R : Runner (Script σ)) : Card σ :=
  ⟨R.graph, R.bus, R.current, R.isAlive, R.visits⟩

def Bus.entries (B : Bus (Script σ)) : List (Entry σ) :=
  (B.subscribers.map fun s => ⟨.event s.topic, s.id, s.callback⟩) ++
    B.waiters.map fun s => ⟨.quest s.topic, s.id, s.callback⟩

namespace Bus

variable (B : Bus (Script σ))

theorem filter_entries (f : Entry σ → Bool) : B.entries.filter f =
    (B.subscribers.filter fun s => f ⟨.event s.topic, s.id, s.callback⟩).map
        (fun s => ⟨.event s.topic, s.id, s.callback⟩) ++
      (B.waiters.filter fun s => f ⟨.quest s.topic, s.id, s.callback⟩).map
        fun s => ⟨.quest s.topic, s.id, s.callback⟩ := by
  rw [entries, List.filter_append, List.filter_map, List.filter_map]
  rfl

theorem listeners_eq (key : String) : B.listeners key =
    (B.entries.filter fun e => decide (e.wait = .event key)).map Entry.callback := by
  rw [filter_entries, List.map_append, List.map_map, List.map_map, listeners]
  simp [Function.comp_def]

theorem entries_unsubscribe (key : String) (id : Nat) : (B.unsubscribe key id).2.entries =
    B.entries.filter fun e => !decide (e.wait = .event key ∧ e.id = id) := by
  rw [filter_entries]
  simp [entries, unsubscribe]

theorem entries_unawait (name : String) (id : Nat) : (B.unawait name id).2.entries =
    B.entries.filter fun e => !decide (e.wait = .quest name ∧ e.id = id) := by
  rw [filter_entries]
  simp [entries, unawait]

theorem entries_filter_waiters {due : Wait → Bool} (hdue : ∀ key, due (.event key) = false) :
    { B with waiters := B.waiters.filter fun s => !due (.quest s.topic) }.entries =
      B.entries.filter fun e => !due e.wait := by
  rw [filter_entries]
  simp [entries, hdue]

end Bus

def Bus.page? (B : Bus (Script σ)) : Option (Page σ) :=
  if B.lifetime = .kept then some ⟨B.entries, B.lastId⟩ else none

namespace World

variable {w : World (Script σ)} {b b' r : Nat} {B B' : Bus (Script σ)}
  {R R' : Runner (Script σ)}

def card? (w : World (Script σ)) (r : Nat) : Option (Card σ) := w.runners[r]?.map Runner.card

def page? (w : World (Script σ)) (b : Nat) : Option (Page σ) := w.buses[b]?.bind Bus.page?

theorem exists_bus?_of_mem_page? {p : Page σ} (h : p ∈ w.page? b) :
    ∃ B, w.bus? b = some B ∧ B.lifetime = .kept ∧ p = ⟨B.entries, B.lastId⟩ := by
  obtain ⟨B, hB, hp⟩ := Option.bind_eq_some_iff.1 h
  unfold Bus.page? at hp
  split at hp
  · rename_i hkept
    exact ⟨B, by simp [bus?, hB, Bus.isAlive, hkept], hkept, (Option.some.inj hp).symm⟩
  · cases hp

theorem getElem?_of_bus? (hB : w.bus? b = some B) : w.buses[b]? = some B :=
  (Option.filter_eq_some_iff.1 hB).1

theorem card?_congr {w' : World (Script σ)} (h : w'.runners = w.runners) :
    w'.card? = w.card? := by
  funext r
  rw [card?, card?, h]

theorem mem_card? (hR : R ∈ w.runners[r]?) : R.card ∈ w.card? r := by
  rw [card?, Option.mem_def.1 hR, Option.map_some]
  exact rfl

theorem exists_of_mem_card? {c : Card σ} (hc : c ∈ w.card? r) :
    ∃ R ∈ w.runners[r]?, R.card = c :=
  Option.map_eq_some_iff.1 hc

theorem card?_setRunner (hR : R ∈ w.runners[r]?) :
    (w.setRunner r R').card? = dealt w.card? r R'.card := by
  have hlt := (List.getElem?_eq_some_iff.1 hR).1
  funext r'
  by_cases hr : r' = r
  · subst hr
    simp [card?, setRunner, hlt]
  · rw [dealt, Function.update_of_ne hr, card?, setRunner, List.getElem?_set_ne (Ne.symm hr)]
    rfl

theorem card?_setRunner_of_eq (hR : R ∈ w.runners[r]?) (hcard : R'.card = R.card) :
    (w.setRunner r R').card? = w.card? := by
  rw [card?_setRunner hR, hcard, dealt, ← mem_card? hR, Function.update_eq_self]

theorem card?_append (w : World (Script σ)) (R : Runner (Script σ)) :
    ({ w with runners := w.runners ++ [R] } : World (Script σ)).card? =
      dealt w.card? w.runners.length R.card := by
  funext r
  by_cases hr : r = w.runners.length
  · subst hr
    simp [card?]
  · rw [dealt, Function.update_of_ne hr, card?, card?]
    rcases Nat.lt_or_gt_of_ne hr with hlt | hgt
    · rw [List.getElem?_append_left hlt]
    · rw [List.getElem?_eq_none (by simpa using hgt), List.getElem?_eq_none hgt.le]

theorem card?_length (w : World (Script σ)) : w.card? w.runners.length = none := by
  rw [card?, List.getElem?_eq_none le_rfl, Option.map_none]

theorem mem_dealt_length {c c' : Card σ} (hc : c ∈ w.card? r) :
    c ∈ dealt w.card? w.runners.length c' r := by
  refine mem_dealt_of_ne ?_ hc c'
  rintro rfl
  rw [w.card?_length] at hc
  cases hc

theorem page?_setBus (hB : w.buses[b']? = some B) :
    (w.setBus b' B').page? = Function.update w.page? b' B'.page? := by
  have hlt := (List.getElem?_eq_some_iff.1 hB).1
  funext b
  by_cases hb : b = b'
  · subst hb
    simp [page?, setBus, hlt]
  · rw [Function.update_of_ne hb, page?, setBus, List.getElem?_set_ne (Ne.symm hb)]
    rfl

theorem page?_setBus_of_eq (hB : w.buses[b]? = some B) (hpage : B'.page? = B.page?) :
    (w.setBus b B').page? = w.page? := by
  have hb : w.page? b = B.page? := by rw [page?, hB, Option.bind_some]
  rw [page?_setBus hB, hpage, ← hb, Function.update_eq_self]

theorem page?_watch (hB : w.buses[b]? = some B) (listener : Script σ) :
    (w.watch b B' listener).page? = Function.update w.page? b B'.page? := by
  unfold watch
  split
  · split
    · exact page?_setBus (w := w.setLog _ _) hB
    · exact page?_setBus hB
  · exact page?_setBus hB

theorem page?_unwatch (hB : w.buses[b]? = some B) :
    (w.unwatch b B').page? = Function.update w.page? b B'.page? := by
  unfold unwatch
  dsimp only
  split
  · split
    · exact page?_setBus hB
    · exact page?_setBus hB
  · exact page?_setBus hB

theorem page?_settle (hB : w.buses[b]? = some B) :
    (w.settle b B').page? = Function.update w.page? b B'.page? := by
  unfold settle
  split
  · exact page?_unwatch hB
  · exact page?_setBus hB

end World

/-! ### Those who are called -/

/-- A step that somebody may take who is no node. Nobody but a node speaks for a visit, and a bus is
kept. -/
def Script.Outside : Script σ → Prop
  | .close .. | .done .. | .onLeave .. => False
  | _ => True

/-- Whoever gives back a number does not give back that of a node. -/
def Script.Fair (w : World (Script σ)) : Script σ → Prop
  | .unsubscribe b key id _ => ∀ B ∈ w.bus? b, ∀ s ∈ B.subscribers,
    s.topic = key → s.id = id → s.callback.speaker? = none
  | .unawait b name id _ => ∀ B ∈ w.bus? b, ∀ s ∈ B.waiters,
    s.topic = name → s.id = id → s.callback.speaker? = none
  | _ => True

instance (w : World (Script σ)) (s : Script σ) : Decidable (s.Fair w) :=
  match s with
  | .unsubscribe b key id _ => inferInstanceAs (Decidable (∀ B ∈ w.bus? b, ∀ s ∈ B.subscribers,
      s.topic = key → s.id = id → s.callback.speaker? = none))
  | .unawait b name id _ => inferInstanceAs (Decidable (∀ B ∈ w.bus? b, ∀ s ∈ B.waiters,
      s.topic = name → s.id = id → s.callback.speaker? = none))
  | .stop | .panic .. | .look .. | .keep .. | .raise .. | .subscribe .. | .clear .. | .await ..
  | .quest .. | .notify .. | .serve .. | .close .. | .advance .. | .listen .. | .unlisten ..
  | .assign .. | .start .. | .ask .. | .done .. | .onLeave .. | .set .. | .release .. =>
    .isTrue trivial

theorem Script.Fair.speaker? {world : World (Script σ)} {w : Wait} {b id : Nat}
    {next : Bool → Script σ} (h : (w.giveBack b id next).Fair world) {B : Bus (Script σ)}
    (hB : world.bus? b = some B) {e : Entry σ} (he : e ∈ B.entries) (hwait : e.wait = w)
    (hid : e.id = id) : e.callback.speaker? = none := by
  rcases List.mem_append.1 he with he | he
  all_goals
    obtain ⟨s, hs, rfl⟩ := List.mem_map.1 he
    subst hwait
    exact h B hB s hs rfl hid

/-- The bus on which a script has those called whose quests are completed, and what it makes of the
bus before. -/
def Script.judges? : Script σ → Option (Nat × (Bus (Script σ) → Bus (Script σ)))
  | .notify b _ => some (b, id)
  | .serve b service _ => some (b, fun B => { B with service })
  | _ => none

def Script.Called (s : Script σ) : Prop := s.All Script.Outside ∨ ∃ v, s = Builtin.done v

theorem Script.speaker?_of_outside {s : Script σ} (h : s.Outside) : s.speaker? = none := by
  cases s with
  | done => exact h.elim
  | _ => rfl

theorem Script.called_stop : (Script.stop : Script σ).Called := .inl trivial

theorem Script.called_notify (b : Nat) : (Script.notify b .stop : Script σ).Called :=
  .inl ⟨trivial, trivial⟩

theorem Script.called_done (v : Visit) : (Builtin.done v : Script σ).Called := .inr ⟨v, rfl⟩

namespace World

def attach (w : World (Script σ)) (b : Nat) (B : Bus (Script σ)) (service : Option QuestService) :
    World (Script σ) :=
  (w.unwatch b B).watch b { B with watch := none, service } (.notify b .stop)

theorem exists_buses_attach (w : World (Script σ)) (b : Nat) (B : Bus (Script σ))
    (service : Option QuestService) : ∃ watch,
      (w.attach b B service).buses = w.buses.set b { B with watch, service } ∧
        (watch.isSome ↔ service.isSome) := by
  obtain ⟨watch, hbuses, hwatch⟩ := exists_buses_watch (w.unwatch b B) b
    { B with watch := none, service } (.notify b .stop)
  rw [buses_unwatch, List.set_set] at hbuses
  refine ⟨watch, hbuses, hwatch.trans ⟨fun h => h.elim (fun h => ?_) fun h => h, .inr⟩⟩
  cases h

theorem states_attach (w : World (Script σ)) (b : Nat) (B : Bus (Script σ))
    (service : Option QuestService) : (w.attach b B service).states = w.states := by
  rw [attach, states_watch, states_unwatch]

theorem runners_attach (w : World (Script σ)) (b : Nat) (B : Bus (Script σ))
    (service : Option QuestService) : (w.attach b B service).runners = w.runners := by
  rw [attach, runners_watch, runners_unwatch]

section Exchange

variable {w : World (Script σ)} {b : Nat} {B : Bus (Script σ)} (hB : w.buses[b]? = some B)
  (service : Option QuestService)

include hB

theorem getElem?_unwatch : (w.unwatch b B).buses[b]? = some { B with watch := none } := by
  rw [buses_unwatch, List.getElem?_set_self (List.getElem?_eq_some_iff.1 hB).1]

/-- The quest log that a bus is attached to does not show on its page. -/
theorem update_page? : Function.update (w.unwatch b B).page? b
    ({ B with watch := none, service } : Bus (Script σ)).page? = w.page? := by
  have hpage : ({ B with watch := none, service } : Bus (Script σ)).page? = w.page? b := by
    rw [page?, hB]
    rfl
  rw [page?_unwatch hB, Function.update_idem, hpage, Function.update_eq_self]

theorem page?_exchange :
    ((w.unwatch b B).setBus b { B with watch := none, service }).page? = w.page? := by
  rw [page?_setBus (getElem?_unwatch hB), update_page? hB]

theorem page?_attach : (w.attach b B service).page? = w.page? := by
  rw [attach, page?_watch (getElem?_unwatch hB), update_page? hB]

end Exchange

structure Edits (b : Nat) (edit : Page σ → Page σ → Prop) (w w' : World (Script σ)) : Prop where
  cards : w'.card? = w.card?
  others : ∀ b' ≠ b, w'.page? b' = w.page? b'
  page : ∀ p ∈ w.page? b, ∃ p' ∈ w'.page? b, edit p p'
  calls : w.Calls Script.Called → w'.Calls Script.Called

variable {w w' : World (Script σ)} {b : Nat} {B B' : Bus (Script σ)}
  {edit : Page σ → Page σ → Prop}

theorem edits_of_bus (hB : w.bus? b = some B) (hrunners : w'.runners = w.runners)
    (hpage : w'.page? = Function.update w.page? b B'.page?) (hlifetime : B'.lifetime = B.lifetime)
    (hedit : edit ⟨B.entries, B.lastId⟩ ⟨B'.entries, B'.lastId⟩)
    (hcalls : w.Calls Script.Called → w'.Calls Script.Called) : w.Edits b edit w' := by
  refine ⟨card?_congr hrunners, fun b' hb => ?_, fun p hp => ?_, hcalls⟩
  · rw [hpage, Function.update_of_ne hb]
  · obtain ⟨B₁, hB₁, hkept, rfl⟩ := exists_bus?_of_mem_page? hp
    obtain rfl := Option.some.inj (hB.symm.trans hB₁)
    refine ⟨_, ?_, hedit⟩
    rw [hpage, Function.update_self, Bus.page?, if_pos (hlifetime.trans hkept)]
    exact rfl

def Meets (w : World (Script σ)) (B : Bus (Script σ)) : Wait → Prop
  | .event key => key ∈ B.pending
  | .quest name => w.knowsCompleted B name = true

def due (w : World (Script σ)) (B : Bus (Script σ)) : Wait → Bool
  | .event _ => false
  | .quest name => w.knowsCompleted B name

end World

/-! ### What goes on -/

def Script.Steady : Script σ → Prop
  | .unsubscribe .. | .unawait .. | .onLeave .. => False
  | _ => True

theorem Builtin.steady_of_build {n : Node} {behaviour : Behaviour σ}
    (h : (Builtin.registry : Registry (Behaviour σ)).build n = .ready behaviour) (v : Visit) :
    (behaviour v).Steady := by
  obtain ⟨act, -, rfl⟩ := exists_act_of_build h
  cases act <;> trivial

/-- What is left of the behaviour of a node that has laid nothing down. -/
def Script.Remains (cards : Nat → Option (Card σ)) (r visit : Nat) (s : Script σ) : Prop :=
  s.Steady ∧ ∃ c ∈ cards r, ∃ id act, c.graph.node? id >>= Walk.Act.ofNode? = some act ∧
    Builtin.Does act ⟨r, c.bus, visit⟩ s ∧ c.current = some ⟨id, visit, some .stop⟩

def Frame.Fits (cards : Nat → Option (Card σ)) : Frame σ → List (Frame σ) → Prop
  | .run s, .entering r visit :: _ => s = .stop ∨ s.Remains cards r visit
  | .run s, .exiting _ _ :: _ => s = .stop
  | .run s, _ => s.Called
  | .deliver _ rest, _ => ∀ s ∈ rest, s.Called
  | _, _ => True

def Fitting (cards : Nat → Option (Card σ)) : List (Frame σ) → Prop
  | [] => True
  | f :: below => f.Fits cards below ∧ Fitting cards below

theorem Frame.fits_stop (cards : Nat → Option (Card σ)) (below : List (Frame σ)) :
    (Frame.run .stop).Fits cards below := by
  cases below with
  | nil => exact Script.called_stop
  | cons g below =>
      cases g with
      | entering r visit => exact .inl rfl
      | exiting r visit => exact rfl
      | run | deliver | dispatch | leaving => exact Script.called_stop

/-- Only the cards of those matter whose nodes are called because they are entered. -/
theorem Frame.Fits.mono {cards cards' : Nat → Option (Card σ)} {f : Frame σ}
    {below : List (Frame σ)} (h : f.Fits cards below)
    (hcards : ∀ r visit, .entering r visit ∈ below → ∀ c ∈ cards r, c ∈ cards' r) :
    f.Fits cards' below := by
  cases f with
  | run s =>
      cases below with
      | nil => exact h
      | cons g below =>
          cases g with
          | entering r visit =>
              refine h.imp_right fun ⟨hsteady, c, hc, hrest⟩ => ⟨hsteady, c, ?_, hrest⟩
              exact hcards r visit List.mem_cons_self c hc
          | run | deliver | dispatch | exiting | leaving => exact h
  | deliver | dispatch | entering | exiting | leaving => exact h

theorem Fitting.mono {cards cards' : Nat → Option (Card σ)} {stack : List (Frame σ)}
    (h : Fitting cards stack)
    (hcards : ∀ r visit, .entering r visit ∈ stack → ∀ c ∈ cards r, c ∈ cards' r) :
    Fitting cards' stack := by
  induction stack with
  | nil => trivial
  | cons f below ih =>
      have hbelow : ∀ r visit, .entering r visit ∈ below → ∀ c ∈ cards r, c ∈ cards' r :=
        fun r visit hmem => hcards r visit (List.mem_cons_of_mem _ hmem)
      exact ⟨h.1.mono hbelow, ih h.2 hbelow⟩

namespace Machine

def wait (m : Machine σ) (b : Nat) (callback : Script σ) (next : Option Nat → Script σ) :
    Wait → Machine σ
  | .event key => m.subscribe b key callback next
  | .quest name => m.await b name callback next

inductive Waited (m : Machine σ) (b : Nat) (w : Wait) (callback : Script σ)
    (next : Option Nat → Script σ) : Machine σ → Prop
  | alone (hB : m.world.bus? b = none) : Waited m b w callback next (m.push (.run (next none)))
  | met {B : Bus (Script σ)} {world : World (Script σ)} (hB : m.world.bus? b = some B)
    (hmeets : m.world.Meets B w) (edits : m.world.Edits b Eq world) :
    Waited m b w callback next
      (({ m with world := world }.push (.run (next none))).push (.deliver (some b) [callback]))
  | listed {B : Bus (Script σ)} {world : World (Script σ)} (hB : m.world.bus? b = some B)
    (hmeets : ¬m.world.Meets B w)
    (edits : m.world.Edits b (·.Adds ⟨w, B.lastId + 1, callback⟩ ·) world) :
    Waited m b w callback next
      ({ m with world := world }.push (.run (next (some (B.lastId + 1)))))

theorem waited_wait (m : Machine σ) (b : Nat) (w : Wait) {callback : Script σ}
    (next : Option Nat → Script σ) (hcallback : callback.Called) :
    Waited m b w callback next (m.wait b callback next w) := by
  cases w with
  | event key =>
      simp only [wait, subscribe]
      split
      · exact .alone ‹_›
      · rename_i B hB
        split
        · rename_i hkey
          refine .met hB hkey (World.edits_of_bus hB rfl
            (World.page?_setBus (World.getElem?_of_bus? hB)) rfl rfl fun h => ?_)
          exact h.setBus b ⟨(h.bus hB).subscribers, (h.bus hB).waiters⟩
        · rename_i hkey
          refine .listed hB hkey (World.edits_of_bus hB rfl
            (World.page?_setBus (World.getElem?_of_bus? hB)) rfl ⟨rfl, rfl, ?_⟩ fun h => ?_)
          · simp only [Bus.entries, Bus.subscribe, List.map_append, List.map_singleton,
              List.append_assoc, List.singleton_append]
            exact List.perm_middle
          · refine h.setBus b ⟨?_, (h.bus hB).waiters⟩
            exact List.forall_mem_append.2
              ⟨(h.bus hB).subscribers, List.forall_mem_singleton.2 hcallback⟩
  | quest name =>
      simp only [wait, await]
      split
      · exact .alone ‹_›
      · rename_i B hB
        split
        · rename_i hknows
          exact .met hB hknows ⟨rfl, fun _ _ => rfl, fun p hp => ⟨p, hp, rfl⟩, id⟩
        · rename_i hknows
          refine .listed hB hknows (World.edits_of_bus hB (World.runners_watch _ _ _)
            (World.page?_watch (World.getElem?_of_bus? hB) _) rfl ⟨rfl, rfl, ?_⟩ fun h => ?_)
          · simp only [Bus.entries, Bus.await, List.map_append, List.map_singleton]
            rw [← List.append_assoc]
            exact List.perm_append_singleton _ _
          · refine h.watch b (B := (B.await name callback).2) ⟨(h.bus hB).subscribers, ?_⟩
              (Script.called_notify b)
            exact List.forall_mem_append.2
              ⟨(h.bus hB).waiters, List.forall_mem_singleton.2 hcallback⟩

/-- Giving back a number drops an entry, if it is there. -/
theorem exists_edits_giveBack (m : Machine σ) (w : Wait) (b id : Nat) (next : Bool → Script σ) :
    ∃ world a, m.world.Edits b (·.Drops (fun e => e.wait = w ∧ e.id = id) ·) world ∧
      m.perform (w.giveBack b id next) = { m with world := world }.push (.run (next a)) := by
  have halone : m.world.bus? b = none →
      m.world.Edits b (·.Drops (fun e => e.wait = w ∧ e.id = id) ·) m.world := by
    refine fun hB => ⟨rfl, fun _ _ => rfl, fun p hp => ?_, fun h => h⟩
    obtain ⟨B, hB', -⟩ := World.exists_bus?_of_mem_page? hp
    rw [hB] at hB'
    cases hB'
  cases w with
  | event key =>
      simp only [Wait.giveBack, perform]
      split
      · exact ⟨m.world, false, halone ‹_›, rfl⟩
      · rename_i B hB
        refine ⟨m.world.setBus b (B.unsubscribe key id).2, _, World.edits_of_bus hB rfl
          (World.page?_setBus (World.getElem?_of_bus? hB)) rfl ?_ fun h => ?_, rfl⟩
        · rw [B.entries_unsubscribe]
          exact Page.drops_filter _ fun e => decide_eq_true_iff.symm
        · exact h.setBus b ⟨fun s hs => (h.bus hB).subscribers s (List.mem_filter.1 hs).1,
            (h.bus hB).waiters⟩
  | quest name =>
      simp only [Wait.giveBack, perform]
      split
      · exact ⟨m.world, false, halone ‹_›, rfl⟩
      · rename_i B hB
        refine ⟨m.world.settle b (B.unawait name id).2, _, World.edits_of_bus hB
          (World.runners_settle _ _) (World.page?_settle (World.getElem?_of_bus? hB)) rfl ?_
          fun h => ?_, rfl⟩
        · rw [B.entries_unawait]
          exact Page.drops_filter _ fun e => decide_eq_true_iff.symm
        · exact h.settle b (B := (B.unawait name id).2) ⟨(h.bus hB).subscribers,
            fun s hs => (h.bus hB).waiters s (List.mem_filter.1 hs).1⟩

/-! ### Those who are judged -/

section Judged

variable {m : Machine σ} {b : Nat} {B : Bus (Script σ)}

theorem notify_of_none (hB : m.world.bus? b = none) : m.notify b = m := by
  rw [notify, hB]

theorem serve_of_none (hB : m.world.bus? b = none) (service : Option QuestService) :
    m.serve b service = m := by
  rw [serve, hB]

/-- On a bus on which nobody waits nobody is judged by the new quest log. -/
theorem serve_of_waiters (hB : m.world.bus? b = some B) (hwaiters : B.waiters = [])
    (service : Option QuestService) : m.serve b service =
      { m with world := (m.world.unwatch b B).setBus b { B with watch := none, service } } := by
  rw [serve, hB]
  dsimp only
  rw [if_pos (by simpa using hwaiters)]

/-- A bus on which somebody waits looks at those who wait as soon as it is attached. -/
theorem exists_notify_of_serve (hB : m.world.bus? b = some B) (hwaiters : B.waiters ≠ [])
    (service : Option QuestService) : ∃ watch,
      m.serve b service = ({ m with world := m.world.attach b B service } : Machine σ).notify b ∧
        (m.world.attach b B service).bus? b = some { B with watch, service } := by
  obtain ⟨hget, halive⟩ := World.bus?_eq_some_iff.1 hB
  obtain ⟨watch, hbuses, -⟩ := World.exists_buses_attach m.world b B service
  refine ⟨watch, ?_, World.bus?_eq_some_iff.2 ⟨?_, halive⟩⟩
  · rw [serve, hB]
    dsimp only
    rw [if_neg (by simpa using hwaiters)]
    rfl
  · rw [hbuses, List.getElem?_set_self (List.getElem?_eq_some_iff.1 hget).1]

/-- Those who wait for quests that are completed, as a bus sees it, are dropped and called. -/
def Dismisses (m : Machine σ) (b : Nat) (B : Bus (Script σ)) (n : Machine σ) : Prop :=
  ∃ world, m.world.Edits b (·.Drops (fun e => m.world.due B e.wait = true) ·) world ∧
    (n = { m with world := world } ∨ ∃ rest,
      n = { m with world := world }.push (.deliver (some b) rest) ∧
        (m.world.Calls Script.Called → ∀ s ∈ rest, s.Called))

theorem dismisses_notify (hB : m.world.bus? b = some B) : m.Dismisses b B (m.notify b) := by
  unfold notify
  rw [hB]
  dsimp only
  split
  · rename_i hservice
    have hnone : ∀ w, m.world.due B w = false := by
      intro w
      cases w with
      | event key => rfl
      | quest name =>
          simp [World.due, World.knowsCompleted, World.logOf?, Option.isNone_iff_eq_none.1 hservice]
    refine ⟨m.world, ⟨rfl, fun _ _ => rfl, fun p hp => ⟨p, hp, rfl, .refl _, fun e => ?_⟩,
      fun h => h⟩, .inl rfl⟩
    simp [hnone]
  · simp only [List.partition_eq_filter_filter]
    let B' : Bus (Script σ) :=
      { B with waiters := B.waiters.filter fun s => !m.world.knowsCompleted B s.topic }
    refine ⟨m.world.settle b B', World.edits_of_bus hB (World.runners_settle _ _)
      (World.page?_settle (World.getElem?_of_bus? hB)) rfl ?_ fun h => ?_,
      .inr ⟨_, rfl, fun h s hs => ?_⟩⟩
    · have hevent : ∀ key, m.world.due B (.event key) = false := fun _ => rfl
      have hentries := B.entries_filter_waiters hevent
      exact hentries ▸ Page.drops_filter _ fun e => Iff.rfl
    · exact h.settle b (B := B') ⟨(h.bus hB).subscribers,
        fun s hs => (h.bus hB).waiters s (List.mem_filter.1 hs).1⟩
    · obtain ⟨e, he, rfl⟩ := List.mem_map.1 hs
      exact (h.bus hB).waiters e (List.mem_filter.1 he).1

/-- Those who wait are judged by the quest log that is attached. -/
theorem dismisses_serve (hB : m.world.bus? b = some B) (service : Option QuestService) :
    m.Dismisses b { B with service } (m.serve b service) := by
  have hget := World.getElem?_of_bus? hB
  by_cases hwaiters : B.waiters = []
  · let B' : Bus (Script σ) := { B with watch := none, service }
    have hrunners : ((m.world.unwatch b B).setBus b B').runners = m.world.runners :=
      World.runners_unwatch _ _
    refine ⟨_, ⟨World.card?_congr hrunners, fun b' _ => ?_, fun p hp => ?_, fun h => ?_⟩,
      .inl (serve_of_waiters hB hwaiters service)⟩
    · exact congrFun (World.page?_exchange hget service) b'
    · refine ⟨p, (World.page?_exchange hget service).symm ▸ hp, rfl, .refl _, fun e => ?_⟩
      refine (and_iff_left_of_imp fun he => ?_).symm
      obtain ⟨B', hB', -, rfl⟩ := World.exists_bus?_of_mem_page? hp
      obtain rfl := Option.some.inj (hB.symm.trans hB')
      -- Nobody waits for a quest.
      have he' : e ∈ B.entries := he
      rw [Bus.entries, hwaiters, List.map_nil, List.append_nil] at he'
      obtain ⟨s, -, rfl⟩ := List.mem_map.1 he'
      exact Bool.false_ne_true
    · exact (h.unwatch b (h.bus hB)).setBus b ⟨(h.bus hB).subscribers, (h.bus hB).waiters⟩
  · obtain ⟨watch, hserve, hk⟩ := exists_notify_of_serve hB hwaiters service
    obtain ⟨world, hedits, hnotify⟩ :=
      dismisses_notify (m := { m with world := m.world.attach b B service }) hk
    have hdue : ∀ w, (m.world.attach b B service).due { B with watch, service } w =
        m.world.due { B with service } w := by
      intro w
      cases w with
      | event key => rfl
      | quest name => exact World.knowsCompleted_congr (World.states_attach ..) rfl name
    have hpage := World.page?_attach hget service
    have hcalls : m.world.Calls Script.Called → (m.world.attach b B service).Calls Script.Called :=
      fun h => World.Calls.watch (h.unwatch b (h.bus hB)) b
        (B := { B with watch := none, service })
        ⟨(h.bus hB).subscribers, (h.bus hB).waiters⟩ (Script.called_notify b)
    rw [hserve]
    refine ⟨world, ⟨?_, fun b' hb => ?_, fun p hp => ?_, fun h => hedits.calls (hcalls h)⟩, ?_⟩
    · exact hedits.cards.trans (World.card?_congr (World.runners_attach ..))
    · exact (hedits.others b' hb).trans (congrFun hpage b')
    · obtain ⟨p', hp', hdrops⟩ := hedits.page p (hpage.symm ▸ hp)
      exact ⟨p', hp', by simpa only [hdue] using hdrops⟩
    · exact hnotify.imp_right fun ⟨rest, hn, hrest⟩ => ⟨rest, hn, fun h => hrest (hcalls h)⟩

theorem exists_dismisses_perform {s : Script σ} {judge : Bus (Script σ) → Bus (Script σ)}
    (hs : s.judges? = some (b, judge)) : ∃ next, (∀ p : Script σ → Prop, s.All p → next.All p) ∧
      (m.world.bus? b = none → m.perform s = m.push (.run next)) ∧
      ∀ B, m.world.bus? b = some B → (m.push (.run next)).Dismisses b (judge B) (m.perform s) := by
  cases s with
  | notify b' next =>
      obtain ⟨rfl, rfl⟩ := Prod.mk.inj (Option.some.inj hs)
      exact ⟨next, fun p hall => hall.2, notify_of_none (m := m.push (.run next)),
        fun B hB => dismisses_notify (m := m.push (.run next)) hB⟩
  | serve b' service next =>
      obtain ⟨rfl, rfl⟩ := Prod.mk.inj (Option.some.inj hs)
      exact ⟨next, fun p hall => hall.2, fun hB => serve_of_none (m := m.push (.run next)) hB _,
        fun B hB => dismisses_serve (m := m.push (.run next)) hB _⟩
  | _ => cases hs

end Judged

structure Balanced (b : Nat) (waits : Nat → Nat → Wait → Prop) (m : Machine σ) : Prop where
  ledger : ∃ p ∈ m.world.page? b, Ledger b waits m.world.card? p
  calls : m.world.Calls Script.Called
  fitting : Fitting m.world.card? m.stack

namespace Balanced

variable {b : Nat} {waits waits' : Nat → Nat → Wait → Prop} {m n : Machine σ}
  (h : m.Balanced b waits)

include h

theorem withWorld {w : World (Script σ)} (hcards : w.card? = m.world.card?)
    (hpage : w.page? b = m.world.page? b) (hcalls : w.Calls Script.Called) :
    Balanced b waits { m with world := w } := by
  refine ⟨?_, hcalls, ?_⟩
  · rw [hcards, hpage]
    exact h.ledger
  · rw [hcards]
    exact h.fitting

theorem push {f : Frame σ} (hf : f.Fits m.world.card? m.stack) : (m.push f).Balanced b waits :=
  ⟨h.ledger, h.calls, hf, h.fitting⟩

theorem pop {f : Frame σ} {stack : List (Frame σ)} (hm : m.stack = f :: stack) :
    Balanced b waits { m with stack } := by
  have hfitting := h.fitting
  rw [hm] at hfitting
  exact ⟨h.ledger, h.calls, hfitting.2⟩

theorem setRunner {r : Nat} {R : Runner (Script σ)} (hR : R ∈ m.world.runners[r]?)
    (R' : Runner (Script σ)) (hcard : R'.card = R.card) : (m.setRunner r R').Balanced b waits :=
  h.withWorld (World.card?_setRunner_of_eq hR hcard) rfl ⟨h.calls.buses, h.calls.logs⟩

theorem setBus {b' : Nat} {B : Bus (Script σ)} (hB : m.world.bus? b' = some B)
    (B' : Bus (Script σ)) (hpage : B'.page? = B.page?) (hcalls : B'.Abides Script.Called) :
    Balanced b waits { m with world := m.world.setBus b' B' } := by
  refine h.withWorld rfl ?_ (h.calls.setBus b' hcalls)
  rw [World.page?_setBus_of_eq (World.getElem?_of_bus? hB) hpage]

theorem setLog (l : Nat) {log : QuestLog (Script σ)}
    (hlog : ∀ e ∈ log.listeners, e.2.Called) :
    Balanced b waits { m with world := m.world.setLog l log } :=
  h.withWorld rfl rfl (h.calls.setLog l hlog)

/-- A runner is made that is at nothing. -/
theorem makes {R : Runner (Script σ)} (hnone : R.current = none) : Balanced b waits
    { m with world := { m.world with runners := m.world.runners ++ [R] } } := by
  obtain ⟨p, hp, hledger⟩ := h.ledger
  have hcards := m.world.card?_append R
  refine ⟨⟨p, hp, ?_⟩, ⟨h.calls.buses, h.calls.logs⟩, ?_⟩
  · rw [hcards]
    exact hledger.makes m.world.card?_length hnone
  · rw [hcards]
    exact h.fitting.mono fun r _ _ c hc => World.mem_dealt_length hc

theorem raise (b' : Nat) (key : String) : (m.raise b' key).Balanced b waits := by
  unfold Machine.raise
  split
  · exact h
  · rename_i B hB
    have hcalls := h.calls.bus hB
    split
    · refine h.setBus hB _ ?_ ?_
      · unfold Bus.hold
        split <;> rfl
      · unfold Bus.hold
        split
        · exact hcalls
        · exact ⟨hcalls.subscribers, hcalls.waiters⟩
    · refine h.push (f := .deliver (some b') (B.listeners key)) fun s hs => ?_
      obtain ⟨e, he, rfl⟩ := List.mem_map.1 hs
      exact hcalls.subscribers e (List.mem_of_mem_filter he)

theorem advance (bus : Option Nat) (l : Nat) (quest : String) (step : QuestStep) :
    (m.advance bus l quest step).Balanced b waits := by
  unfold Machine.advance
  split
  · exact h
  · rename_i log hlog
    obtain ⟨before, hbefore, hstep⟩ := Option.bind_eq_some_iff.1 hlog
    have hlisteners := (QuestLog.listeners_of_advance? hstep).1
    have hcalls : ∀ e ∈ log.listeners, e.2.Called := hlisteners ▸ h.calls.log hbefore
    refine (h.setLog l hcalls).push (f := .deliver bus (log.listeners.map Prod.snd))
      fun s hs => ?_
    obtain ⟨e, he, rfl⟩ := List.mem_map.1 hs
    exact hcalls e he

theorem submit (r : Nat) (task : Task) : (m.submit r task).Balanced b waits := by
  unfold Machine.submit
  split
  · exact h
  · rename_i R hR
    split
    · exact h
    · have hset := h.setRunner hR
        { R with queue := R.queue ++ [task], dispatching := true } rfl
      dsimp only
      split
      · exact hset
      · exact hset.push (f := .dispatch r 0) trivial

theorem done (r visit : Nat) {next : Bool → Script σ}
    (hnext : ∀ a, (Frame.run (next a)).Fits m.world.card? m.stack) :
    (m.done r visit next).Balanced b waits := by
  unfold Machine.done
  split
  · exact h.push (hnext false)
  · rename_i R hR
    split
    · have hcards : (m.world.setRunner r { R with armed := R.armed.erase visit }).card? =
          m.world.card? := World.card?_setRunner_of_eq hR rfl
      refine ((h.setRunner hR { R with armed := R.armed.erase visit } rfl).push
        (f := .run (next true)) ?_).submit r _
      exact hcards.symm ▸ hnext true
    · exact h.push (hnext false)

/-- A bus that somebody keeps does not end. -/
theorem expireBus (b' : Nat) : (m.expireBus b').Balanced b waits := by
  unfold Machine.expireBus
  split
  · exact h
  · rename_i B hB
    split
    · rename_i hreleased
      have hcalls := h.calls.buses B (List.mem_of_getElem? hB)
      refine h.withWorld (World.card?_congr (World.runners_unwatch _ _)) ?_
        (h.calls.unwatch b' ⟨hcalls.subscribers, hcalls.waiters⟩)
      rw [World.page?_unwatch hB, Function.update_of_ne]
      rintro rfl
      obtain ⟨p, hp, -⟩ := h.ledger
      obtain ⟨B', hB', hkept, -⟩ := World.exists_bus?_of_mem_page? hp
      obtain rfl := Option.some.inj (hB.symm.trans (World.getElem?_of_bus? hB'))
      simp [hkept] at hreleased
    · exact h

theorem edits {b' : Nat} {edit : Page σ → Page σ → Prop} {w : World (Script σ)}
    (hw : World.Edits b' edit m.world w)
    (hedit : b' = b → ∀ p ∈ m.world.page? b, ∀ p', edit p p' →
      Ledger b waits m.world.card? p → Ledger b waits' m.world.card? p')
    (hsame : b' ≠ b → waits' = waits) :
    Balanced b waits' { m with world := w } := by
  refine ⟨?_, hw.calls h.calls, ?_⟩
  · obtain ⟨p, hp, hledger⟩ := h.ledger
    rw [hw.cards]
    by_cases hb : b' = b
    · subst hb
      obtain ⟨p', hp', hpp'⟩ := hw.page p hp
      exact ⟨p', hp', hedit rfl p hp p' hpp' hledger⟩
    · rw [hw.others b (Ne.symm hb), hsame hb]
      exact ⟨p, hp, hledger⟩
  · rw [hw.cards]
    exact h.fitting

/-- Those who wait on a bus are judged, if there is the bus. -/
theorem judged {b' : Nat} {judge : Bus (Script σ) → Bus (Script σ)} {n : Machine σ}
    (halone : m.world.bus? b' = none → n = m)
    (hjudged : ∀ B, m.world.bus? b' = some B → m.Dismisses b' (judge B) n)
    (hwaits : b' = b → ∀ B, m.world.bus? b = some B → ∀ r visit w,
      waits' r visit w ↔ waits r visit w ∧ ¬m.world.due (judge B) w = true)
    (hsame : b' ≠ b → waits' = waits) : n.Balanced b waits' := by
  cases hB : m.world.bus? b' with
  | none =>
      have hb : b' ≠ b := by
        rintro rfl
        obtain ⟨p, hp, -⟩ := h.ledger
        obtain ⟨B, hB', -⟩ := World.exists_bus?_of_mem_page? hp
        exact absurd (hB.symm.trans hB') (Option.some_ne_none B).symm
      rw [hsame hb, halone hB]
      exact h
  | some B =>
      obtain ⟨world, hedits, hn⟩ := hjudged B hB
      have hworld : ({ m with world := world } : Machine σ).Balanced b waits' := by
        refine h.edits hedits (fun hb p _ p' hdrops hledger => ?_) hsame
        subst hb
        exact hledger.drops (q := fun w => m.world.due (judge B) w = true) hdrops (hwaits rfl B hB)
      rcases hn with rfl | ⟨rest, rfl, hrest⟩
      · exact hworld
      · exact hworld.push (f := .deliver (some b') rest) (hrest h.calls)

end Balanced

end Machine

end StoryGraph
