import StoryGraph.Proofs.Flow.Limit
import StoryGraph.Proofs.Walk.Basic

/-!
# What nodes do

The nodes of the kinds that are always there do little. `Builtin.Does` lists what is done in a visit
to a node with a given act, by those whom it leaves to be called, and when it is left;
`Builtin.all_behaviour` says that this is all. That nodes do not panic, and are blind to limits, is
read off the list.
-/

namespace StoryGraph

/-- What the node of a visit may wait for. -/
inductive Builtin.Wait where
  | event (key : String)
  | quest (name : String)
deriving DecidableEq

def Walk.Act.wait? : Walk.Act → Option Builtin.Wait
  | .wait key => some (.event key)
  | .quest name _ _ => some (.quest name)
  | .note | .set _ _ | .raise _ | .branch _ => none

variable {σ : Type}

def Script.Calm (s : Script σ) : Prop := ∀ e, s ≠ .panic e

theorem Script.not_calm_panic (e : Panic) : ¬(Script.panic e : Script σ).Calm := fun h => h e rfl

namespace Builtin

def Wait.script (v : Visit) : Wait → Script σ
  | .event key => waitEvent key v
  | .quest name => waitQuest name v

def Wait.giveBack (bus id : Nat) (next : Bool → Script σ) : Wait → Script σ
  | .event key => .unsubscribe bus key id next
  | .quest name => .unawait bus name id next

/-- What is done when a visit ends whose node waits, and has been given a number. -/
def Wait.leave (v : Visit) (id : Nat) : Wait → Script σ
  | .event key => .unsubscribe v.bus key id fun _ => .stop
  | .quest name => .unawait v.bus name id fun _ => .stop

theorem Wait.leave_eq (w : Wait) (v : Visit) (id : Nat) :
    (w.leave v id : Script σ) = w.giveBack v.bus id fun _ => .stop := by
  cases w <;> rfl

/-- What a node goes on with that has been given a number, or was called at once. -/
def Wait.hold (v : Visit) (w : Wait) : Option Nat → Script σ
  | none => .stop
  | some id => .onLeave v.runner v.number (w.leave v id) .stop

inductive Does (act : Walk.Act) (v : Visit) : Script σ → Prop where
  | stop : Does act v .stop
  | done : Does act v (done v)
  | enter (id : NodeId) : Does act v (act.behaviour id v)
  | start (name source : String) (h : act = .quest name source true) :
    Does act v (.quest v.bus name .start (waitQuest name v))
  | wait (w : Wait) (h : act.wait? = some w) : Does act v (w.script v)
  | hold (w : Wait) (id : Nat) : Does act v (.onLeave v.runner v.number (w.leave v id) .stop)
  | leave (w : Wait) (id : Nat) : Does act v (w.leave v id)
  | ask (request : Request) : Does act v (.ask v.runner request .stop)

/-- A branch looks at its blackboard, and at nothing else. -/
theorem blind_branch (id : NodeId) (key : String) (v : Visit) :
    (branch id key v : Script σ).Blind := by
  intro w r l d
  have hboard : ((w.withLimit r l).runners[v.runner]?.bind (·.blackboard.bool? key)) =
      (w.runners[v.runner]?.bind (·.blackboard.bool? key)) := by
    rw [World.getElem?_withLimit, Option.bind_map]
    rfl
  simp only [hboard]

theorem Does.blind {act : Walk.Act} {v : Visit} {s : Script σ} (h : Does act v s) : s.Blind := by
  cases h with
  | enter id =>
      cases act with
      | branch key => exact blind_branch id key v
      | _ => trivial
  | wait w | leave w => cases w <;> trivial
  | _ => trivial

theorem Does.calm {act : Walk.Act} {v : Visit} {s : Script σ} (h : Does act v s) : s.Calm := by
  rintro e rfl
  generalize hs : Script.panic e = s at h
  cases h with
  | enter id => cases act <;> cases hs
  | wait w | leave w => cases w <;> cases hs
  | _ => cases hs

section All

variable {act : Walk.Act} (v : Visit)

theorem all_done : (done v : Script σ).All (Does act v) := ⟨.done, fun _ => .stop⟩

theorem all_leave (w : Wait) (id : Nat) : (w.leave v id : Script σ).All (Does act v) := by
  cases w with
  | event key => exact ⟨.leave (.event key) id, fun _ => Does.stop⟩
  | quest name => exact ⟨.leave (.quest name) id, fun _ => Does.stop⟩

theorem all_hold (w : Wait) (a : Option Nat) : (w.hold v a : Script σ).All (Does act v) := by
  cases a with
  | none => exact Does.stop
  | some id => exact ⟨.hold w id, all_leave v w id, Does.stop⟩

theorem all_wait {w : Wait} (h : act.wait? = some w) :
    (w.script v : Script σ).All (Does act v) := by
  cases w with
  | event key => exact ⟨.wait (.event key) h, all_done v, all_hold v (.event key)⟩
  | quest name => exact ⟨.wait (.quest name) h, all_done v, all_hold v (.quest name)⟩

theorem all_behaviour (act : Walk.Act) (id : NodeId) :
    (act.behaviour id v : Script σ).All (Does act v) := by
  have henter : Does act v (act.behaviour id v : Script σ) := .enter id
  cases act with
  | note => exact all_done v
  | set key value | raise key => exact ⟨henter, all_done v⟩
  | wait key => exact all_wait v (w := .event key) rfl
  | quest name source autoStart =>
      refine ⟨henter, ?_⟩
      cases autoStart with
      | true => exact ⟨.start name source rfl, all_wait v (w := .quest name) rfl⟩
      | false => exact all_wait v (w := .quest name) rfl
  | branch key => exact ⟨henter, fun w d => ⟨.ask _, Does.stop⟩⟩

end All

theorem exists_act_of_build {n : Node} {behaviour : Behaviour σ}
    (h : (registry : Registry (Behaviour σ)).build n = .ready behaviour) :
    ∃ act, Walk.Act.ofNode? n = some act ∧ behaviour = act.behaviour n.id := by
  rcases Walk.build_registry (σ := σ) n with ⟨act, hact, hbuild⟩ | ⟨-, e, hbuild⟩
  · rw [hbuild, Built.ready.injEq] at h
    exact ⟨act, hact, h.symm⟩
  · rw [hbuild] at h
    cases h

theorem build_ne_panicked (n : Node) (e : Panic) :
    (registry : Registry (Behaviour σ)).build n ≠ .panicked e := by
  intro h
  rcases Walk.build_registry (σ := σ) n with ⟨act, -, hbuild⟩ | ⟨-, e, hbuild⟩
  · rw [hbuild] at h
    cases h
  · rw [hbuild] at h
    cases h

/-- What holds of all that nodes do holds of all that may be built. -/
theorem all_of_build {n : Node} {behaviour : Behaviour σ}
    (h : (registry : Registry (Behaviour σ)).build n = .ready behaviour) (v : Visit)
    {p : Script σ → Prop} (hp : ∀ act s, Does act v s → p s) : (behaviour v).All p := by
  obtain ⟨act, -, rfl⟩ := exists_act_of_build h
  exact (all_behaviour v act n.id).mono (hp act)

/-- No node panics. -/
theorem calm_of_build {n : Node} {behaviour : Behaviour σ}
    (h : (registry : Registry (Behaviour σ)).build n = .ready behaviour) (v : Visit) :
    (behaviour v).All Script.Calm :=
  all_of_build h v fun _ _ hs => hs.calm

end Builtin

end StoryGraph
