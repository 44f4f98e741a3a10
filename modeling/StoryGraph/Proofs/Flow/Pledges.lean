import StoryGraph.Proofs.Flow.Completion
import StoryGraph.Proofs.Flow.Quests

/-!
# What a node at work comes to

A node that has been entered works until it has said that it is done, has asked its runner for a
jump, or waits for what will make it say so (`Script.Pledges`). Who will say it is found on the
stack until then: the node that is at work, or those who are yet to be called
(`Machine.Promised`).

Such a promise is kept. With every step it is still on the stack, or the node begins to wait, or the
runner is given the task that the node was entered for (`Machine.Promised.next`); and a node that
waits for a quest is promised the call when it waits no longer (`Machine.promised_of_notifies`).
-/

namespace StoryGraph

variable {σ : Type}

open Builtin (Wait)

/-- A task by which the node of a visit may lead its runner on, if it is one that may choose some
slots. -/
inductive Task.Answers (id : NodeId) (visit : Nat) (slots : Nat → Prop) : Task → Prop where
  | done : Answers id visit slots (.done visit)
  | jump {slot : Nat} (chosen : slots slot) : Answers id visit slots (.request (.jump id slot))

theorem Task.Answers.mono {id : NodeId} {visit : Nat} {slots slots' : Nat → Prop} {t : Task}
    (h : t.Answers id visit slots) (hslots : ∀ slot, slots slot → slots' slot) :
    t.Answers id visit slots' := by
  cases h with
  | done => exact .done
  | jump chosen => exact .jump (hslots _ chosen)

/-- A script that does not end before the node of a visit has said that it is done, has asked for a
jump, or waits. -/
inductive Script.Pledges (act : Walk.Act) (id : NodeId) (v : Visit) (slots : Nat → Prop) :
    Script σ → Prop where
  | done (next : Bool → Script σ) : Pledges act id v slots (.done v.runner v.number next)
  | wait (w : Wait) : Pledges act id v slots (w.script v)
  | branch {key : String} (act_eq : act = .branch key) :
    Pledges act id v slots (Builtin.branch id key v)
  | jump {slot : Nat} (chosen : slots slot) :
    Pledges act id v slots (.ask v.runner (.jump id slot) .stop)
  | set (key : String) (value : Blackboard.Value) {next : Script σ}
    (h : next.Pledges act id v slots) : Pledges act id v slots (.set v.runner key value next)
  | raise (b : Nat) (key : String) {next : Script σ} (h : next.Pledges act id v slots) :
    Pledges act id v slots (.raise b key next)
  | quest (b : Nat) (name : String) (step : QuestStep) {next : Script σ}
    (h : next.Pledges act id v slots) : Pledges act id v slots (.quest b name step next)

theorem Script.Pledges.mono {act : Walk.Act} {id : NodeId} {v : Visit} {slots slots' : Nat → Prop}
    {s : Script σ} (h : s.Pledges act id v slots) (hslots : ∀ slot, slots slot → slots' slot) :
    s.Pledges act id v slots' := by
  induction h with
  | done next => exact .done next
  | wait w => exact .wait w
  | branch act_eq => exact .branch act_eq
  | jump chosen => exact .jump (hslots _ chosen)
  | set key value _ ih => exact .set key value ih
  | raise b key _ ih => exact .raise b key ih
  | quest b name step _ ih => exact .quest b name step ih

theorem Walk.Act.pledges_behaviour (act : Walk.Act) (id : NodeId) (v : Visit)
    (slots : Nat → Prop) : (act.behaviour id v : Script σ).Pledges act id v slots := by
  have hdone : (Builtin.done v : Script σ).Pledges act id v slots := .done _
  cases act with
  | note => exact hdone
  | set key value => exact .set key value hdone
  | raise key => exact .raise v.bus key hdone
  | wait key => exact .wait (.event key)
  | quest name source autoStart =>
      refine .quest v.bus name (.offer source) ?_
      cases autoStart with
      | true => exact .quest v.bus name .start (.wait (.quest name))
      | false => exact .wait (.quest name)
  | branch key => exact .branch rfl

namespace Machine

variable {act : Walk.Act} {id : NodeId} {b r visit : Nat} {slots slots' : Nat → Prop}
  {past : List (Machine σ)} {m n : Machine σ} {R : Runner (Script σ)} {below : List (Frame σ)}

/-- In a visit to a branch a slot has been chosen, by what the blackboard held when the branch was
entered. -/
def Chosen (act : Walk.Act) (id : NodeId) (b : Nat) (past : List (Machine σ)) (r visit slot : Nat) :
    Prop :=
  ∃ key, act = .branch key ∧ ∃ k ∈ past,
    (∃ below, k.stack = .run (Builtin.branch id key ⟨r, b, visit⟩) :: .entering r visit :: below) ∧
      ∃ R ∈ k.world.runners[r]?, slot = branchSlot R key

theorem Chosen.later {slot : Nat} (h : Chosen act id b past r visit slot) (m : Machine σ) :
    Chosen act id b (m :: past) r visit slot := by
  obtain ⟨key, hact, k, hk, hrest⟩ := h
  exact ⟨key, hact, k, List.mem_cons_of_mem m hk, hrest⟩

/-- Somebody on the stack will say that the node of a visit is done, or the node is at work. -/
inductive Promised (act : Walk.Act) (id : NodeId) (b r visit : Nat) (slots : Nat → Prop) :
    List (Frame σ) → Prop where
  | called {bus : Option Nat} {rest : List (Script σ)} {s : Script σ} (mem : s ∈ rest)
    (speaks : s.speaker? = some (r, visit)) (below : List (Frame σ)) :
    Promised act id b r visit slots (.deliver bus rest :: below)
  | speaks {s : Script σ} (speaks : s.speaker? = some (r, visit)) (below : List (Frame σ)) :
    Promised act id b r visit slots (.run s :: below)
  | works {s : Script σ} (pledges : s.Pledges act id ⟨r, b, visit⟩ slots)
    (below : List (Frame σ)) :
    Promised act id b r visit slots (.run s :: .entering r visit :: below)
  | beneath (f : Frame σ) {below : List (Frame σ)} (h : Promised act id b r visit slots below) :
    Promised act id b r visit slots (f :: below)

theorem Promised.append (h : Promised act id b r visit slots below) (new : List (Frame σ)) :
    Promised act id b r visit slots (new ++ below) := by
  induction new with
  | nil => exact h
  | cons f new ih => exact .beneath f ih

theorem Promised.mono (h : Promised act id b r visit slots below)
    (hslots : ∀ slot, slots slot → slots' slot) : Promised act id b r visit slots' below := by
  induction h with
  | called mem speaks below => exact .called mem speaks below
  | speaks speaks below => exact .speaks speaks below
  | works pledges below => exact .works (pledges.mono hslots) below
  | beneath f _ ih => exact .beneath f ih

/-- A node that has its chance to say that it is done gives its runner a task by it. -/
theorem exists_done_of_given (hR : R ∈ m.world.runners[r]?) (halive : R.isAlive = true)
    (harmed : visit ∈ R.armed) (hgiven : m.given? r = some visit)
    (hn : Next Builtin.registry m n) : ∃ R' ∈ n.world.runners[r]?, .done visit ∈ R'.queue := by
  obtain ⟨hp, next, below, hm⟩ := exists_of_given? hgiven
  let S : Runner (Script σ) := { R with armed := R.armed.erase visit }
  let k : Machine σ := ({ m with stack := below }.setRunner r S).push (.run (next true))
  have hk : n = k.submit r (.done visit) := by
    rw [eq_resume_of_next hm hp hn]
    simp only [resume, perform, done, Option.mem_def.1 hR, if_pos harmed]
    rfl
  have hS : S ∈ k.world.runners[r]? := runners_setRunner (m := { m with stack := below }) hR S
  exact ⟨_, hk ▸ mem_runners_submit hS halive (.done visit), List.mem_append_right _ (by simp)⟩

def Redeems (act : Walk.Act) (id : NodeId) (b r visit : Nat) (slots : Nat → Prop)
    (m n : Machine σ) : Prop :=
  Promised act id b r visit slots n.stack ∨ (∃ w, m.Begins b r visit w) ∨
    ∃ t, t.Answers id visit slots ∧ ∃ R ∈ n.world.runners[r]?, t ∈ R.queue

theorem redeems_perform {s : Script σ} (h : s.Pledges act id ⟨r, b, visit⟩ slots)
    (hm : m.stack = .entering r visit :: below) (hp : m.panic = none)
    (hbus : (m.perform s).world = m.world → m.world.bus? b ≠ none)
    (hR : R ∈ m.world.runners[r]?) (halive : R.isAlive = true)
    (hsilent : ∀ next, s ≠ .done r visit next)
    (hchosen : ∀ key, act = .branch key → s = Builtin.branch id key ⟨r, b, visit⟩ →
      slots (branchSlot R key)) :
    Redeems act id b r visit slots (m.push (.run s)) (m.perform s) := by
  have hworks : ∀ {next : Script σ} {k : Machine σ}, next.Pledges act id ⟨r, b, visit⟩ slots →
      Asks (m.push (.run next)) k → Promised act id b r visit slots k.stack := by
    intro next k hnext hasks
    obtain ⟨new, hk, -⟩ := hasks.stack
    have hbelow : (m.push (.run next)).stack = .run next :: .entering r visit :: below :=
      congrArg (_ :: ·) hm
    rw [hk, hbelow]
    exact (Promised.works hnext below).append new
  have hrun : ∀ {next : Script σ} {k : Machine σ}, next.Pledges act id ⟨r, b, visit⟩ slots →
      k.stack = (m.push (.run next)).stack → k.panic = m.panic →
      Promised act id b r visit slots k.stack :=
    fun hnext hk hpanic => hworks hnext (asks_of_stack_eq hk hpanic)
  cases h with
  | done next => exact absurd rfl (hsilent next)
  | wait w =>
      let v : Visit := ⟨r, b, visit⟩
      have hwait : m.perform (w.script v) = m.wait b (Builtin.done v) (w.hold v) w := by
        cases w <;> rfl
      have hwaited := m.waited_wait b w (w.hold v) (Script.called_done v)
      rw [hwait] at hbus ⊢
      generalize m.wait b (Builtin.done v) (w.hold v) w = k at hwaited hbus
      cases hwaited with
      | alone hB => exact absurd hB (hbus rfl)
      | met hB hmeets edits => exact .inl (.called List.mem_cons_self rfl _)
      | listed hB hmeets edits =>
          exact .inr (.inl ⟨w, (begins_script_iff hm hp).2 ⟨rfl, rfl, rfl, rfl, _, hB, hmeets⟩⟩)
  | @branch key act_eq =>
      have hboard : (m.world.outline.runners[r]?.bind (·.blackboard.bool? key)) =
          R.blackboard.bool? key := by
        simp [World.outline, Option.mem_def.1 hR, Runner.map]
      simp only [Builtin.branch, Machine.perform, hboard]
      exact .inl (hrun (.jump (hchosen key act_eq rfl)) rfl rfl)
  | @jump slot chosen =>
      have hjump := mem_runners_submit (n := m.push (.run .stop)) hR halive
        (.request (.jump id slot))
      exact .inr (.inr ⟨_, .jump chosen, _, hjump, List.mem_append_right _ (by simp)⟩)
  | set key value h =>
      simp only [Machine.perform, Option.mem_def.1 hR]
      exact .inl (hrun h rfl rfl)
  | raise b' key h => exact .inl (hworks h (atBuses_raise _ b' key).asks)
  | quest b' name step h =>
      simp only [Machine.perform]
      split
      · exact .inl (hrun h rfl rfl)
      · exact .inl (hworks h (atBuses_advance _ _ _ name step).asks)

theorem Kept.bus?_ne_none (h : Kept b past m) (hn : Next Builtin.registry m n)
    (hworld : n.world = m.world) : m.world.bus? b ≠ none := by
  have hpage : ∃ p ∈ m.world.page? b, Ledger b (Waits b past) m.world.card? p := by
    rcases h.nearly with hbalanced | ⟨-, k, hk, hbalanced⟩
    · exact hbalanced.ledger
    · rw [← hworld, hn.unique hk]
      exact hbalanced.ledger
  obtain ⟨p, hp, -⟩ := hpage
  obtain ⟨B, hB, -⟩ := World.exists_bus?_of_mem_page? hp
  rw [hB]
  exact Option.some_ne_none B

/-- A promise is kept: what was on the stack still is, or has come to what it was to come to. -/
theorem Promised.next (h : Promised act id b r visit (Chosen act id b past r visit) m.stack)
    (hk : Kept b past m) (hR : R ∈ m.world.runners[r]?) (halive : R.isAlive = true)
    (hgiven : m.given? r ≠ some visit) (hn : Next Builtin.registry m n) :
    Redeems act id b r visit (Chosen act id b (m :: past) r visit) m n := by
  replace h := h.mono fun slot hslot => Chosen.later hslot m
  have hcalm : ∀ {s : Script σ} {below}, m.stack = .run s :: below → m.panic = none := by
    intro s below hm
    by_contra hp
    cases hk.covered.caught hp (.run s) (by rw [hm]; rfl)
  have hsilent : ∀ {next : Bool → Script σ} {below},
      m.stack ≠ .run (.done r visit next) :: below := by
    intro next below hm
    refine hgiven ?_
    unfold given?
    rw [hm, hcalm hm]
    exact if_pos rfl
  generalize hm : m.stack = stack at h
  cases h with
  | @called bus rest s mem speaks below =>
      by_cases hp : m.panic = none
      · rw [eq_resume_of_next hm hp hn]
        cases rest with
        | nil => cases mem
        | cons s' rest =>
            rcases List.mem_cons.1 mem with rfl | mem
            · exact .inl (.speaks speaks _)
            · exact .inl (.beneath _ (.called mem speaks below))
      · rw [eq_unwind_of_next hm hp hn]
        exact .inl (.called mem speaks below)
  | speaks speaks below =>
      obtain ⟨next, rfl⟩ := Script.exists_of_speaker? speaks
      exact absurd hm hsilent
  | @works s pledges below =>
      have hp := hcalm hm
      have hn' : n = ({ m with stack := .entering r visit :: below } : Machine σ).perform s :=
        eq_resume_of_next hm hp hn
      have hsame : ({ m with stack := .entering r visit :: below } : Machine σ).push (.run s) =
          m := by rw [push, ← hm]
      have hredeems := redeems_perform (m := { m with stack := .entering r visit :: below })
        pledges rfl hp (fun hworld => hk.bus?_ne_none hn (hn' ▸ hworld)) hR halive
        (fun next hs => hsilent (hs ▸ hm)) fun key hact hs =>
          ⟨key, hact, m, List.mem_cons_self, ⟨below, hs ▸ hm⟩, R, hR, rfl⟩
      rwa [hsame, ← hn'] at hredeems
  | @beneath f below h =>
      obtain ⟨new, hstack, -⟩ := exists_new_of_next hm hn
      exact .inl (hstack ▸ h.append new)

/-- Whoever waits for a quest that is judged to be completed is called. -/
theorem exists_deliver_of_judges {s : Script σ} {judge : Bus (Script σ) → Bus (Script σ)}
    (hs : s.judges? = some (b, judge)) {B : Bus (Script σ)} (hB : m.world.bus? b = some B)
    {x : Subscription (Script σ)} (hx : x ∈ B.waiters)
    (hdue : m.world.knowsCompleted (judge B) x.topic = true) :
    ∃ rest below, (m.perform s).stack = .deliver (some b) rest :: below ∧ x.callback ∈ rest := by
  have hcalled : ∀ {k : Machine σ} {below : List (Frame σ)} {due : List (Subscription (Script σ))},
      k.stack = .deliver (some b) (due.map Subscription.callback) :: below ∨
        due = [] ∧ k.stack = below → x ∈ due →
      ∃ rest below, k.stack = .deliver (some b) rest :: below ∧ x.callback ∈ rest := by
    rintro k below due (hstack | ⟨rfl, -⟩) hmem
    · exact ⟨_, below, hstack, List.mem_map_of_mem hmem⟩
    · cases hmem
  cases s with
  | notify b' next =>
      obtain ⟨rfl, rfl⟩ := Prod.mk.inj (Option.some.inj hs)
      exact hcalled (stack_notify (m := m.push (.run next)) hB rfl)
        (List.mem_filter.2 ⟨hx, hdue⟩)
  | serve b' service next =>
      obtain ⟨rfl, rfl⟩ := Prod.mk.inj (Option.some.inj hs)
      exact hcalled (stack_serve (m := m.push (.run next)) hB service rfl)
        (List.mem_filter.2 ⟨hx, hdue⟩)
  | _ => cases hs

/-- Whoever has waited for a quest is called when it waits no longer. -/
theorem promised_of_notifies (hk : Kept b past m) {w : Wait} (hw : Waits b past r visit w)
    (hR : R ∈ m.world.runners[r]?) (hbus : R.bus = b) (hvisit : R.visit? = some visit)
    (hnotifies : m.Notifies b w) (hn : Next Builtin.registry m n) :
    Promised act id b r visit slots n.stack := by
  have hbalanced : m.Balanced b (Waits b past) := by
    rcases hk.nearly with hbalanced | ⟨hquiet, -⟩
    · exact hbalanced
    · exact absurd hnotifies (hquiet.notifies w)
  obtain ⟨s, below, judge, hm, hjudges, B, hB, hdue⟩ := hnotifies.judged
  obtain ⟨p, hpage, hledger⟩ := hbalanced.ledger
  obtain ⟨B', hB', -, rfl⟩ := World.exists_bus?_of_mem_page? hpage
  obtain rfl := Option.some.inj (hB.symm.trans hB')
  obtain ⟨c, hc, rfl⟩ := Option.map_eq_some_iff.1 hvisit
  obtain ⟨e, he, rfl, hs⟩ := hledger.found r _ (World.mem_card? hR) hbus c hc w hw
  -- Only those who wait for quests are ever due.
  rcases List.mem_append.1 he with he | he
  · obtain ⟨x, -, rfl⟩ := List.mem_map.1 he
    cases hdue
  · obtain ⟨x, hx, rfl⟩ := List.mem_map.1 he
    obtain ⟨rest, below', hstack, hmem⟩ :=
      exists_deliver_of_judges (m := { m with stack := below }) hjudges hB hx hdue
    have hn' : n.stack = .deliver (some b) rest :: below' := by
      rw [eq_resume_of_next hm hnotifies.panic hn]
      exact hstack
    rw [hn']
    exact .called hmem hs below'

end Machine

end StoryGraph
