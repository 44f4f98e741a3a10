import StoryGraph.Proofs.Flow.Reach

/-!
# A runner with another limit

Nothing but a runner that is about to take a task looks at its limit. So a session in which one
runner has another limit goes on in the same way, step by step, up to the first task that the limit
is in the way of: `Machine.withLimit` commutes with every step before. Scripts are taken to be blind
to limits, of which nothing that is offered to them tells.
-/

namespace StoryGraph

variable {σ : Type}

def Runner.limited {κ : Type _} (r : Nat) (l : Option Nat) (r' : Nat) (R : Runner κ) : Runner κ :=
  { R with limit := if r' = r then l else R.limit }

section Fields

variable {κ : Type _} (r : Nat) (l : Option Nat) (r' : Nat) (R : Runner κ)

@[simp] theorem Runner.queue_limited : (R.limited r l r').queue = R.queue := rfl

@[simp] theorem Runner.armed_limited : (R.limited r l r').armed = R.armed := rfl

@[simp] theorem Runner.lifetime_limited : (R.limited r l r').lifetime = R.lifetime := rfl

@[simp] theorem Runner.dispatching_limited : (R.limited r l r').dispatching = R.dispatching := rfl

@[simp] theorem Runner.isAlive_limited : (R.limited r l r').isAlive = R.isAlive := rfl

@[simp] theorem Runner.move_limited : (R.limited r l r').move = R.move := rfl

end Fields

namespace World

variable {κ : Type _}

def withLimit (w : World κ) (r : Nat) (l : Option Nat) : World κ :=
  { w with runners := w.runners.modify r fun R => { R with limit := l } }

variable (w : World κ) (r : Nat) (l : Option Nat)

@[simp] theorem buses_withLimit : (w.withLimit r l).buses = w.buses := rfl

@[simp] theorem logs_withLimit : (w.withLimit r l).logs = w.logs := rfl

@[simp] theorem bus?_withLimit (b : Nat) : (w.withLimit r l).bus? b = w.bus? b := rfl

@[simp] theorem knowsCompleted_withLimit (bus : Bus κ) (quest : String) :
    (w.withLimit r l).knowsCompleted bus quest = w.knowsCompleted bus quest := rfl

@[simp] theorem getElem?_withLimit (r' : Nat) :
    (w.withLimit r l).runners[r']? = w.runners[r']?.map (Runner.limited r l r') := by
  rw [withLimit, List.getElem?_modify]
  cases w.runners[r']? with
  | none => rfl
  | some R =>
      by_cases h : r = r'
      · simp [Runner.limited, h]
      · simp [Runner.limited, h, Ne.symm h]

theorem withLimit_setRunner (r' : Nat) (R : Runner κ) :
    (w.setRunner r' R).withLimit r l = (w.withLimit r l).setRunner r' (R.limited r l r') := by
  have hrunners : ((w.setRunner r' R).withLimit r l).runners =
      ((w.withLimit r l).setRunner r' (R.limited r l r')).runners := by
    apply List.ext_getElem?
    intro i
    rw [getElem?_withLimit]
    simp only [setRunner, withLimit, List.getElem?_set, List.length_modify, List.getElem?_modify]
    by_cases hi : r' = i
    · subst hi
      by_cases hlt : r' < w.runners.length <;> simp [hlt]
    · rw [if_neg hi, if_neg hi]
      cases w.runners[i]? with
      | none => rfl
      | some R' =>
          by_cases h : r = i
          · simp [Runner.limited, h]
          · simp [Runner.limited, h, Ne.symm h]
  rw [setRunner, withLimit, withLimit, setRunner] at *
  simp only [World.mk.injEq, and_self, and_true]
  exact hrunners

theorem withLimit_setBus (b : Nat) (bus : Bus κ) :
    (w.setBus b bus).withLimit r l = (w.withLimit r l).setBus b bus := rfl

theorem withLimit_watch (b : Nat) (bus : Bus κ) (listener : κ) :
    (w.watch b bus listener).withLimit r l = (w.withLimit r l).watch b bus listener := by
  simp only [watch, logs_withLimit]
  split
  · split <;> rfl
  · rfl

theorem withLimit_unwatch (b : Nat) (bus : Bus κ) :
    (w.unwatch b bus).withLimit r l = (w.withLimit r l).unwatch b bus := by
  simp only [unwatch, ← withLimit_setBus, logs_withLimit]
  split
  · split <;> rfl
  · rfl

theorem withLimit_settle (b : Nat) (bus : Bus κ) :
    (w.settle b bus).withLimit r l = (w.withLimit r l).settle b bus := by
  simp only [settle, ← withLimit_unwatch, ← withLimit_setBus]
  split <;> rfl

theorem withLimit_append (hr : r < w.runners.length) (R : Runner κ) :
    ({ w with runners := w.runners ++ [R] } : World κ).withLimit r l =
      { w.withLimit r l with runners := (w.withLimit r l).runners ++ [R] } := by
  have hrunners : (w.runners ++ [R]).modify r (fun R => { R with limit := l }) =
      w.runners.modify r (fun R => { R with limit := l }) ++ [R] := by
    apply List.ext_getElem?
    intro i
    rw [List.getElem?_modify, List.getElem?_append, List.getElem?_append, List.length_modify,
      List.getElem?_modify]
    by_cases hi : i < w.runners.length
    · rw [if_pos hi, if_pos hi]
    · have hne : r ≠ i := fun h => hi (h ▸ hr)
      rw [if_neg hi, if_neg hi]
      simp [hne]
  rw [withLimit, withLimit, hrunners]

theorem outline_withLimit : (w.withLimit r l).outline = w.outline.withLimit r l := by
  have hrunners : (w.withLimit r l).outline.runners = (w.outline.withLimit r l).runners := by
    apply List.ext_getElem?
    intro i
    rw [getElem?_withLimit]
    simp only [outline, List.getElem?_map, getElem?_withLimit, Option.map_map]
    rfl
  simp only [outline, withLimit, World.mk.injEq, and_true] at hrunners ⊢
  exact hrunners

end World

/-- A runner with which nothing has happened. -/
def Runner.Fresh {κ : Type _} (R : Runner κ) : Prop :=
  ∃ graph bus limit blackboard exposed, R = { graph, bus, limit, blackboard, exposed }

def Script.Assigns : Script σ → Prop
  | .assign .. => True
  | _ => False

namespace Machine

def withLimit (m : Machine σ) (r : Nat) (l : Option Nat) : Machine σ :=
  { m with world := m.world.withLimit r l }

section Commutes

variable (m : Machine σ) (r : Nat) (l : Option Nat)

@[simp] theorem world_withLimit : (m.withLimit r l).world = m.world.withLimit r l := rfl

@[simp] theorem data_withLimit : (m.withLimit r l).data = m.data := rfl

@[simp] theorem stack_withLimit : (m.withLimit r l).stack = m.stack := rfl

@[simp] theorem panic_withLimit : (m.withLimit r l).panic = m.panic := rfl

theorem withLimit_push (f : Frame σ) : (m.push f).withLimit r l = (m.withLimit r l).push f := rfl

theorem withLimit_withWorld (w : World (Script σ)) :
    ({ m with world := w } : Machine σ).withLimit r l =
      { m.withLimit r l with world := w.withLimit r l } := rfl

theorem withLimit_withPanic (p : Option Panic) :
    ({ m with panic := p } : Machine σ).withLimit r l = { m.withLimit r l with panic := p } := rfl

theorem withLimit_setRunner (r' : Nat) (R : Runner (Script σ)) :
    (m.setRunner r' R).withLimit r l = (m.withLimit r l).setRunner r' (R.limited r l r') := by
  simp only [setRunner, withLimit_withWorld, World.withLimit_setRunner, world_withLimit]

@[simp] theorem uses_withLimit (b : Nat) : (m.withLimit r l).uses b = m.uses b := by
  have hrunners : (m.withLimit r l).world.runners.map (fun R => (R.isAlive, R.bus)) =
      m.world.runners.map (fun R => (R.isAlive, R.bus)) := by
    apply List.ext_getElem?
    intro i
    rw [List.getElem?_map, List.getElem?_map, world_withLimit, World.getElem?_withLimit,
      Option.map_map]
    rfl
  have hany : ∀ l : List (Runner (Script σ)), (l.any fun R => R.isAlive && R.bus = b) =
      (l.map fun R => (R.isAlive, R.bus)).any fun e => e.1 && e.2 = b := by
    intro l
    rw [List.any_map]
    rfl
  rw [uses, uses, hany, hrunners, ← hany, stack_withLimit]

theorem withLimit_expireBus (b : Nat) :
    (m.expireBus b).withLimit r l = (m.withLimit r l).expireBus b := by
  simp only [expireBus, world_withLimit, World.buses_withLimit, uses_withLimit]
  split
  · rfl
  · split
    · simp only [withLimit_withWorld, World.withLimit_unwatch]
    · rfl

theorem withLimit_leave (r' : Nat) (R : Runner (Script σ)) :
    (m.leave r' R).withLimit r l = (m.withLimit r l).leave r' (R.limited r l r') := by
  simp only [leave, Runner.limited]
  split
  · rw [withLimit_push, withLimit_push, withLimit_setRunner]
    rfl
  · rw [withLimit_setRunner]
    rfl

theorem withLimit_expireRunner (r' : Nat) :
    (m.expireRunner r').withLimit r l = (m.withLimit r l).expireRunner r' := by
  cases hR : m.world.runners[r']? with
  | none => simp [expireRunner, hR]
  | some R =>
      by_cases hl : R.lifetime = .released
      · cases hd : R.dispatching with
        | true => simp [expireRunner, hR, hd]
        | false =>
            simp [expireRunner, hR, hl, hd, withLimit_leave, withLimit_push, Runner.limited]
      · simp [expireRunner, hR, hl]

theorem withLimit_submit (r' : Nat) (task : Task) :
    (m.submit r' task).withLimit r l = (m.withLimit r l).submit r' task := by
  cases hR : m.world.runners[r']? with
  | none => simp [submit, hR]
  | some R =>
      simp only [submit, hR, world_withLimit, World.getElem?_withLimit, Option.map_some,
        Runner.isAlive_limited, Runner.dispatching_limited]
      by_cases halive : R.isAlive
      · by_cases hd : R.dispatching <;>
          simp only [halive, hd, Bool.not_true, Bool.false_eq_true, if_false, if_true,
            withLimit_push, withLimit_setRunner] <;>
          rfl
      · simp [halive]

theorem withLimit_release (r' : Nat) :
    (m.release r').withLimit r l = (m.withLimit r l).release r' := by
  cases hR : m.world.runners[r']? with
  | none => simp [release, hR]
  | some R =>
      simp only [release, hR, world_withLimit, World.getElem?_withLimit, Option.map_some]
      rw [withLimit_expireRunner, withLimit_setRunner]
      rfl

theorem withLimit_done (r' visit : Nat) (next : Bool → Script σ) :
    (m.done r' visit next).withLimit r l = (m.withLimit r l).done r' visit next := by
  cases hR : m.world.runners[r']? with
  | none => simp [done, hR, withLimit_push]
  | some R =>
      simp only [done, hR, world_withLimit, World.getElem?_withLimit, Option.map_some,
        Runner.armed_limited]
      by_cases h : visit ∈ R.armed
      · simp only [h, if_true, withLimit_submit, withLimit_push, withLimit_setRunner]
        rfl
      · simp only [h, if_false, withLimit_push]

theorem withLimit_raise (b : Nat) (key : String) :
    (m.raise b key).withLimit r l = (m.withLimit r l).raise b key := by
  simp only [raise, world_withLimit, World.bus?_withLimit]
  split
  · rfl
  · split <;> rfl

theorem withLimit_advance (bus : Option Nat) (i : Nat) (quest : String) (step : QuestStep) :
    (m.advance bus i quest step).withLimit r l = (m.withLimit r l).advance bus i quest step := by
  simp only [advance, world_withLimit, World.logs_withLimit]
  split <;> rfl

theorem withLimit_notify (b : Nat) :
    (m.notify b).withLimit r l = (m.withLimit r l).notify b := by
  simp only [notify, world_withLimit, World.bus?_withLimit, World.knowsCompleted_withLimit]
  split
  · rfl
  · split
    · rfl
    · simp only [withLimit_push, withLimit_withWorld, World.withLimit_settle]

theorem withLimit_await (b : Nat) (quest : String) (callback : Script σ)
    (next : Option Nat → Script σ) :
    (m.await b quest callback next).withLimit r l =
      (m.withLimit r l).await b quest callback next := by
  cases hb : m.world.bus? b with
  | none => simp [await, hb, withLimit_push]
  | some bus =>
      by_cases hk : m.world.knowsCompleted bus quest = true
      · simp [await, hb, hk, withLimit_push]
      · simp [await, hb, hk, withLimit_push, withLimit_withWorld, World.withLimit_watch]

theorem withLimit_subscribe (b : Nat) (key : String) (callback : Script σ)
    (next : Option Nat → Script σ) :
    (m.subscribe b key callback next).withLimit r l =
      (m.withLimit r l).subscribe b key callback next := by
  simp only [subscribe, world_withLimit, World.bus?_withLimit]
  split
  · rfl
  · split <;> rfl

theorem withLimit_serve (b : Nat) (service : Option QuestService) :
    (m.serve b service).withLimit r l = (m.withLimit r l).serve b service := by
  simp only [serve, world_withLimit, World.bus?_withLimit]
  split
  · rfl
  · split
    · simp only [withLimit_withWorld, World.withLimit_setBus, World.withLimit_unwatch]
    · simp only [withLimit_notify, withLimit_withWorld, World.withLimit_watch,
        World.withLimit_unwatch]

theorem withLimit_close (b : Nat) :
    (m.close b).withLimit r l = (m.withLimit r l).close b := by
  simp only [close, world_withLimit, World.buses_withLimit]
  split
  · rfl
  · rw [withLimit_expireBus]
    rfl

theorem withLimit_enter (kinds : Registry (Behaviour σ)) (r' : Nat) (R : Runner (Script σ))
    (node : Node) : (m.enter kinds r' R node).withLimit r l =
      (m.withLimit r l).enter kinds r' (R.limited r l r') node := by
  simp only [enter]
  split
  · rw [withLimit_setRunner]
    rfl
  · rw [withLimit_withPanic, withLimit_setRunner]
    rfl
  · rw [withLimit_push, withLimit_push, withLimit_setRunner]
    rfl

/-- A runner with tasks that wait takes the next one, or gives up the rest, whatever its limit, if
only the limit is in the way of that in both cases or in none. -/
theorem withLimit_dispatch (r' entered : Nat) (R : Runner (Script σ))
    (h : R.queue = [] ∨ (R.limited r l r').limit.any (· ≤ entered) = R.limit.any (· ≤ entered)) :
    (m.dispatch r' R entered).withLimit r l =
      (m.withLimit r l).dispatch r' (R.limited r l r') entered := by
  cases hqueue : R.queue with
  | nil =>
      simp only [dispatch, Runner.queue_limited, hqueue]
      rw [withLimit_expireRunner, withLimit_setRunner]
      rfl
  | cons task queue =>
      have hany := h.resolve_left (by simp [hqueue])
      simp only [dispatch, Runner.queue_limited, Runner.move_limited, hany, hqueue]
      split
      · rw [withLimit_expireRunner, withLimit_setRunner]
        rfl
      · split
        · rw [withLimit_push, withLimit_setRunner]
          rfl
        · rw [withLimit_push, withLimit_setRunner]
          rfl
        · rw [withLimit_leave, withLimit_push, withLimit_push]
          rfl
        · rw [withLimit_leave, withLimit_push, withLimit_push]
          rfl

theorem withLimit_unwind (f : Frame σ) :
    (m.unwind f).withLimit r l = (m.withLimit r l).unwind f := by
  cases f with
  | run s => rfl
  | deliver bus rest => rfl
  | dispatch r' entered =>
      cases hR : m.world.runners[r']? with
      | none => simp [unwind, hR]
      | some R =>
          simp only [unwind, hR, world_withLimit, World.getElem?_withLimit, Option.map_some,
            Runner.lifetime_limited]
          by_cases hl : R.lifetime = .released
          · simp only [hl, if_true, withLimit_expireBus, withLimit_setRunner]
            rfl
          · simp only [hl, if_false, withLimit_setRunner]
            rfl
  | entering r' visit =>
      cases hR : m.world.runners[r']? with
      | none => simp [unwind, hR]; rfl
      | some R =>
          simp only [unwind, hR, world_withLimit, World.getElem?_withLimit, Option.map_some]
          rw [withLimit_withPanic, withLimit_setRunner]
          rfl
  | exiting r' visit => rfl
  | leaving r' target => rfl

end Commutes

/-! ### Runners are there to stay -/

section Stays

variable {m n k : Machine σ} {r : Nat}

theorem length_perform (m : Machine σ) {s : Script σ} (hs : ¬s.Assigns) :
    (m.perform s).world.runners.length = m.world.runners.length := by
  by_cases haside : ¬s.Aside
  · obtain ⟨next, -, hbuses⟩ := atBuses_perform m haside
    exact congrArg List.length hbuses.runners
  cases hr : s.runner? with
  | some r =>
      obtain ⟨next, -, hrunner⟩ := atRunner_perform m hr
      exact hrunner.length
  | none =>
      cases s with
      | stop | panic | look | keep => rfl
      | assign => exact absurd trivial hs
      | start | ask | done | onLeave | set | release => cases hr
      | _ => exact absurd id haside

theorem length_resume (kinds : Registry (Behaviour σ)) (m : Machine σ) {f : Frame σ}
    (hf : ∀ s, f = .run s → ¬s.Assigns) :
    (m.resume kinds f).world.runners.length = m.world.runners.length := by
  cases hr : f.runner? with
  | some r => exact (atRunner_resume m kinds hr).length
  | none =>
      cases f with
      | run s => exact length_perform m (hf s rfl)
      | deliver bus rest =>
          cases rest with
          | nil =>
              cases bus with
              | none => rfl
              | some b => exact congrArg List.length (atBuses_expireBus m b).runners
          | cons => rfl
      | _ => cases hr

theorem length_unwind (m : Machine σ) (f : Frame σ) :
    (m.unwind f).world.runners.length = m.world.runners.length := by
  cases hr : f.runner? with
  | some r =>
      obtain ⟨n, hn, heq | ⟨b, heq⟩⟩ := atRunner_unwind m hr
      · rw [heq, hn.length]
      · rw [heq, (atBuses_expireBus n b).runners, hn.length]
  | none =>
      cases f with
      | run | deliver => rfl
      | _ => cases hr

/-- A runner that was not there before a step has been made in it. -/
theorem fresh_of_next {kinds : Registry (Behaviour σ)} (h : Next kinds m n)
    (hr : m.world.runners[r]? = none) {R : Runner (Script σ)} (hR : n.world.runners[r]? = some R) :
    R.Fresh := by
  have hle : m.world.runners.length ≤ r := List.getElem?_eq_none_iff.1 hr
  have hlt : r < n.world.runners.length := (List.getElem?_eq_some_iff.1 hR).1
  obtain ⟨f, below, hm, ⟨-, rfl⟩ | ⟨-, rfl⟩⟩ := exists_of_next h
  · by_cases hs : ∀ s, f = .run s → ¬s.Assigns
    · have hlength := length_resume kinds { m with stack := below } hs
      exact absurd hlt (hlength ▸ hle.not_gt)
    · obtain ⟨s, rfl, hassigns⟩ : ∃ s, f = .run s ∧ s.Assigns := by
        simpa only [not_forall, not_not, exists_prop] using hs
      cases s with
      | assign graph bus limit next =>
          let made : Runner (Script σ) := { graph, bus, limit }
          have hlast : (m.world.runners ++ [made])[r]? = some R := hR
          rw [List.getElem?_append_right hle] at hlast
          exact ⟨graph, bus, limit, ∅, ∅, List.mem_singleton.1 (List.mem_of_getElem? hlast)⟩
      | _ => exact hassigns.elim
  · have hlength := length_unwind { m with stack := below } f
    exact absurd hlt (hlength ▸ hle.not_gt)

end Stays

end Machine

/-! ### Steps -/

/-- What a script does next does not depend on the limits of runners. -/
def Script.Blind : Script σ → Prop
  | .look next => ∀ w r l d, next (w.withLimit r l) d = next w d
  | _ => True

namespace Machine

variable {m n : Machine σ} {r : Nat}

theorem withLimit_perform (m : Machine σ) (l : Option Nat) (hr : r < m.world.runners.length)
    {s : Script σ} (hs : s.Blind) :
    (m.perform s).withLimit r l = (m.withLimit r l).perform s := by
  cases s with
  | stop | panic | keep => rfl
  | look next =>
      simp only [perform, withLimit_push, world_withLimit, World.outline_withLimit, data_withLimit]
      rw [hs]
  | raise b key next => exact withLimit_raise _ r l b key
  | subscribe b key callback next => exact withLimit_subscribe m r l b key callback next
  | unsubscribe b key id next | clear b next =>
      simp only [perform, world_withLimit, World.bus?_withLimit]
      split <;> rfl
  | await b quest callback next => exact withLimit_await m r l b quest callback next
  | unawait b quest id next =>
      simp only [perform, world_withLimit, World.bus?_withLimit]
      split
      · rfl
      · rw [withLimit_push, withLimit_withWorld, World.withLimit_settle]
  | quest b quest step next =>
      simp only [perform, world_withLimit, World.bus?_withLimit]
      split
      · rfl
      · exact withLimit_advance _ r l _ _ quest step
  | notify b next => exact withLimit_notify _ r l b
  | serve b service next => exact withLimit_serve _ r l b service
  | close b next => exact withLimit_close _ r l b
  | advance i quest step next => exact withLimit_advance _ r l none i quest step
  | listen i listener next | unlisten i id next =>
      simp only [perform, world_withLimit, World.logs_withLimit]
      split <;> rfl
  | assign graph bus limit next =>
      have hlength : (m.withLimit r l).world.runners.length = m.world.runners.length :=
        List.length_modify ..
      simp only [perform, hlength, withLimit_push, withLimit_withWorld,
        World.withLimit_append _ r l hr]
      rfl
  | start r' next =>
      cases hR : m.world.runners[r']? with
      | none => simp [perform, hR, withLimit_push]
      | some R =>
          simp only [perform, hR, world_withLimit, World.getElem?_withLimit, Option.map_some,
            Runner.limited]
          split
          · rfl
          · exact withLimit_submit _ r l r' _
  | ask r' request next => exact withLimit_submit _ r l r' _
  | done r' visit next => exact withLimit_done m r l r' visit next
  | onLeave r' visit leave next | set r' key value next =>
      cases hR : m.world.runners[r']? with
      | none => simp [perform, hR, withLimit_push]
      | some R =>
          simp only [perform, hR, world_withLimit, World.getElem?_withLimit, Option.map_some]
          rw [withLimit_push, withLimit_setRunner]
          rfl
  | release r' next => exact withLimit_release _ r l r'

theorem limit_limited_of_ne {r' : Nat} (h : r' ≠ r) (l : Option Nat) (R : Runner (Script σ)) :
    (R.limited r l r').limit = R.limit :=
  if_neg h

/-- What goes on does so whatever the limit of a runner, if the limit is not in the way of the next
of its tasks where it was not, nor the other way round. -/
theorem withLimit_resume (kinds : Registry (Behaviour σ)) (m : Machine σ) (l : Option Nat)
    (hr : r < m.world.runners.length) {f : Frame σ} (hf : f.Abides (Script.All Script.Blind))
    (hd : ∀ entered, f = .dispatch r entered → ∀ R ∈ m.world.runners[r]?,
      R.queue = [] ∨ l.any (· ≤ entered) = R.limit.any (· ≤ entered)) :
    (m.resume kinds f).withLimit r l = (m.withLimit r l).resume kinds f := by
  cases f with
  | run s => exact withLimit_perform m l hr (Script.All.self hf)
  | deliver bus rest =>
      cases rest with
      | nil =>
          cases bus with
          | none => rfl
          | some b => exact withLimit_expireBus m r l b
      | cons s rest => rfl
  | dispatch r' entered =>
      cases hR : m.world.runners[r']? with
      | none => simp [resume, hR]
      | some R =>
          simp only [resume, hR, world_withLimit, World.getElem?_withLimit, Option.map_some]
          refine withLimit_dispatch m r l r' entered R ?_
          by_cases h : r' = r
          · subst h
            rw [Runner.limited, if_pos rfl]
            exact hd entered rfl R hR
          · rw [limit_limited_of_ne h]
            exact .inr rfl
  | entering | exiting => rfl
  | leaving r' target =>
      cases hR : m.world.runners[r']? with
      | none => simp [resume, hR]
      | some R =>
          simp only [resume, hR, world_withLimit, World.getElem?_withLimit, Option.map_some]
          cases target with
          | none => exact withLimit_setRunner m r l r' _
          | some node => exact withLimit_enter m r l kinds r' R node

theorem Next.withLimit {kinds : Registry (Behaviour σ)} (h : Next kinds m n) (l : Option Nat)
    (hm : m.Abides (Script.All Script.Blind)) (hr : r < m.world.runners.length)
    (hd : ∀ entered stack, m.panic = none → m.stack = .dispatch r entered :: stack →
      ∀ R ∈ m.world.runners[r]?,
        R.queue = [] ∨ l.any (· ≤ entered) = R.limit.any (· ≤ entered)) :
    Next kinds (m.withLimit r l) (n.withLimit r l) := by
  obtain ⟨f, stack, hs, ⟨hp, rfl⟩ | ⟨hp, rfl⟩⟩ := exists_of_next h
  · have hf : f.Abides (Script.All Script.Blind) := hm.stack f (hs ▸ List.mem_cons_self)
    have hresume := withLimit_resume kinds { m with stack } l hr hf <| by
      rintro entered rfl R hR
      exact hd entered stack hp hs R hR
    rw [hresume]
    exact next_resume (m := m.withLimit r l) hs hp
  · rw [withLimit_unwind]
    exact next_unwind (m := m.withLimit r l) hs hp

def Unlimited (r : Nat) (m : Machine σ) : Prop := ∃ R ∈ m.world.runners[r]?, R.limit = none

end Machine

end StoryGraph
