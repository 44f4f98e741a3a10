import StoryGraph.Proofs.Flow.Run
import StoryGraph.Proofs.Flow.World

/-!
# The scripts of a session

What is called in a session was put there by somebody: by a script, which left it to be called, or
by a kind of nodes. So a property that a script hands on to all that it may come to, and to all that
it leaves to be called (`Script.All`), holds of everything that is ever called if it holds of what
there is at first and of the behaviours of nodes (`Machine.Abides.next`).
-/

namespace StoryGraph

variable {σ : Type}

/-- A property of a script, of all that it may come to, and of all that it leaves to be called. -/
def Script.All (p : Script σ → Prop) : Script σ → Prop
  | .stop => p .stop
  | .panic e => p (.panic e)
  | .look next => p (.look next) ∧ ∀ w d, (next w d).All p
  | .keep change next => p (.keep change next) ∧ next.All p
  | .raise b key next => p (.raise b key next) ∧ next.All p
  | .subscribe b key callback next =>
    p (.subscribe b key callback next) ∧ callback.All p ∧ ∀ a, (next a).All p
  | .unsubscribe b key id next => p (.unsubscribe b key id next) ∧ ∀ a, (next a).All p
  | .clear b next => p (.clear b next) ∧ next.All p
  | .await b name callback next =>
    p (.await b name callback next) ∧ callback.All p ∧ ∀ a, (next a).All p
  | .unawait b name id next => p (.unawait b name id next) ∧ ∀ a, (next a).All p
  | .quest b name step next => p (.quest b name step next) ∧ next.All p
  | .notify b next => p (.notify b next) ∧ next.All p
  | .serve b service next => p (.serve b service next) ∧ next.All p
  | .close b next => p (.close b next) ∧ next.All p
  | .advance l name step next => p (.advance l name step next) ∧ next.All p
  | .listen l listener next =>
    p (.listen l listener next) ∧ listener.All p ∧ ∀ a, (next a).All p
  | .unlisten l id next => p (.unlisten l id next) ∧ ∀ a, (next a).All p
  | .assign graph bus limit next => p (.assign graph bus limit next) ∧ ∀ a, (next a).All p
  | .start r next => p (.start r next) ∧ ∀ a, (next a).All p
  | .ask r request next => p (.ask r request next) ∧ next.All p
  | .done r visit next => p (.done r visit next) ∧ ∀ a, (next a).All p
  | .onLeave r visit leave next => p (.onLeave r visit leave next) ∧ leave.All p ∧ next.All p
  | .set r key value next => p (.set r key value next) ∧ next.All p
  | .release r next => p (.release r next) ∧ next.All p

theorem Script.All.self {p : Script σ → Prop} {s : Script σ} (h : s.All p) : p s := by
  cases s with
  | stop | panic => exact h
  | _ => exact And.left h

/-- What follows from a property is handed on where the property is. -/
theorem Script.All.mono {p q : Script σ → Prop} (hpq : ∀ s, p s → q s) {s : Script σ}
    (h : s.All p) : s.All q := by
  induction s with
  | stop | panic => exact hpq _ h
  | look next ih => exact ⟨hpq _ h.1, fun w d => ih w d (h.2 w d)⟩
  | keep change next ih | raise b key next ih | clear b next ih | quest b name step next ih
  | notify b next ih | serve b service next ih | close b next ih | advance l name step next ih
  | ask r request next ih | set r key value next ih | release r next ih =>
      exact ⟨hpq _ h.1, ih h.2⟩
  | subscribe b key callback next ihc ih | await b name callback next ihc ih
  | listen l listener next ihc ih =>
      exact ⟨hpq _ h.1, ihc h.2.1, fun a => ih a (h.2.2 a)⟩
  | unsubscribe b key id next ih | unawait b name id next ih | unlisten l id next ih
  | assign graph bus limit next ih | start r next ih | done r visit next ih =>
      exact ⟨hpq _ h.1, fun a => ih a (h.2 a)⟩
  | onLeave r visit leave next ihl ih => exact ⟨hpq _ h.1, ihl h.2.1, ih h.2.2⟩

variable {q : Script σ → Prop}

def Runner.Abides {κ : Type _} (q : κ → Prop) (R : Runner κ) : Prop :=
  ∀ c ∈ R.current, ∀ s ∈ c.leave, q s

structure World.Abides {κ : Type _} (q : κ → Prop) (w : World κ) : Prop where
  runners : ∀ R ∈ w.runners, R.Abides q
  buses : ∀ b ∈ w.buses, b.Abides q
  logs : ∀ l ∈ w.logs, ∀ e ∈ l.listeners, q e.2

def Frame.Abides (q : Script σ → Prop) : Frame σ → Prop
  | .run s => q s
  | .deliver _ rest => ∀ s ∈ rest, q s
  | _ => True

structure Machine.Abides (q : Script σ → Prop) (m : Machine σ) : Prop where
  world : m.world.Abides q
  stack : ∀ f ∈ m.stack, f.Abides q

namespace World.Abides

variable {κ : Type _} {q : κ → Prop} {w : World κ} (h : w.Abides q)

include h

theorem setRunner (r : Nat) {R : Runner κ} (hR : R.Abides q) : (w.setRunner r R).Abides q := by
  refine ⟨fun R' hR' => ?_, h.buses, h.logs⟩
  rcases List.mem_or_eq_of_mem_set hR' with hR' | rfl
  · exact h.runners R' hR'
  · exact hR

theorem calls : w.Calls q := ⟨h.buses, h.logs⟩

theorem withCalls {w' : World κ} (hrunners : w'.runners = w.runners) (hcalls : w'.Calls q) :
    w'.Abides q :=
  ⟨hrunners ▸ h.runners, hcalls.buses, hcalls.logs⟩

theorem setBus (b : Nat) {B : Bus κ} (hbus : B.Abides q) : (w.setBus b B).Abides q :=
  h.withCalls rfl (h.calls.setBus b hbus)

theorem setLog (l : Nat) {log : QuestLog κ} (hlog : ∀ e ∈ log.listeners, q e.2) :
    (w.setLog l log).Abides q :=
  h.withCalls rfl (h.calls.setLog l hlog)

theorem runner {r : Nat} {R : Runner κ} (hR : w.runners[r]? = some R) : R.Abides q :=
  h.runners R (List.mem_of_getElem? hR)

theorem watch (b : Nat) {B : Bus κ} (hbus : B.Abides q) {listener : κ} (hq : q listener) :
    (w.watch b B listener).Abides q :=
  h.withCalls (runners_watch _ _ _) (h.calls.watch b hbus hq)

theorem unwatch (b : Nat) {bus : Bus κ} (hbus : bus.Abides q) : (w.unwatch b bus).Abides q :=
  h.withCalls (runners_unwatch _ _) (h.calls.unwatch b hbus)

theorem settle (b : Nat) {bus : Bus κ} (hbus : bus.Abides q) : (w.settle b bus).Abides q :=
  h.withCalls (runners_settle _ _) (h.calls.settle b hbus)

end World.Abides

namespace Machine.Abides

variable {p : Script σ → Prop} {m : Machine σ} (h : m.Abides q)

section

include h

theorem withWorld {w : World (Script σ)} (hw : w.Abides q) : { m with world := w }.Abides q :=
  ⟨hw, h.stack⟩

theorem push {f : Frame σ} (hf : f.Abides q) : (m.push f).Abides q :=
  ⟨h.world, List.forall_mem_cons.2 ⟨hf, h.stack⟩⟩

theorem setRunner (r : Nat) {R : Runner (Script σ)} (hR : R.Abides q) :
    (m.setRunner r R).Abides q :=
  h.withWorld (h.world.setRunner r hR)

theorem expireBus (b : Nat) : (m.expireBus b).Abides q := by
  unfold Machine.expireBus
  split
  · exact h
  · rename_i bus hbus
    have hq := h.world.buses bus (List.mem_of_getElem? hbus)
    split
    · exact h.withWorld (h.world.unwatch b ⟨hq.subscribers, hq.waiters⟩)
    · exact h

theorem leave (r : Nat) {R : Runner (Script σ)} (hR : R.Abides q) : (m.leave r R).Abides q := by
  have hset := h.setRunner r (R := { R with current := none }) (fun c hc => by cases hc)
  unfold Machine.leave
  dsimp only
  split
  · rename_i id visit s hc
    exact (hset.push (f := .exiting r visit) trivial).push (f := .run s) (hR _ hc s rfl)
  · exact hset

theorem expireRunner (r : Nat) : (m.expireRunner r).Abides q := by
  unfold Machine.expireRunner
  split
  · exact h
  · rename_i R hR
    have hq := h.world.runner hR
    split
    · exact (h.push (f := .deliver (some R.bus) []) (fun s hs => by cases hs)).leave r hq
    · exact h

theorem submit (r : Nat) (task : Task) : (m.submit r task).Abides q := by
  unfold Machine.submit
  split
  · exact h
  · rename_i R hR
    have hq := h.world.runner hR
    split
    · exact h
    · have hset := h.setRunner r
        (R := { R with queue := R.queue ++ [task], dispatching := true }) hq
      dsimp only
      split
      · exact hset
      · exact hset.push (f := .dispatch r 0) trivial

theorem release (r : Nat) : (m.release r).Abides q := by
  unfold Machine.release
  split
  · exact h
  · rename_i R hR
    have hq := h.world.runner hR
    exact expireRunner (h.setRunner r (R := { R with lifetime := R.lifetime.release }) hq) r

theorem raise (b : Nat) (key : String) : (m.raise b key).Abides q := by
  unfold Machine.raise
  split
  · exact h
  · rename_i bus hbus
    have hq := h.world.calls.bus hbus
    split
    · refine h.withWorld (h.world.setBus b ?_)
      unfold Bus.hold
      split
      · exact hq
      · exact ⟨hq.subscribers, hq.waiters⟩
    · refine h.push (f := .deliver (some b) (bus.listeners key)) fun s hs => ?_
      obtain ⟨e, he, rfl⟩ := List.mem_map.1 hs
      exact hq.subscribers e (List.mem_of_mem_filter he)

theorem advance (bus : Option Nat) (l : Nat) (quest : String) (step : QuestStep) :
    (m.advance bus l quest step).Abides q := by
  unfold Machine.advance
  split
  · exact h
  · rename_i log hlog
    obtain ⟨before, hbefore, hstep⟩ := Option.bind_eq_some_iff.1 hlog
    have hlisteners := (QuestLog.listeners_of_advance? hstep).1
    have hq : ∀ e ∈ log.listeners, q e.2 := hlisteners ▸ h.world.calls.log hbefore
    refine (h.withWorld (h.world.setLog l hq)).push
      (f := .deliver bus (log.listeners.map Prod.snd)) fun s hs => ?_
    obtain ⟨e, he, rfl⟩ := List.mem_map.1 hs
    exact hq e he

theorem notify (b : Nat) : (m.notify b).Abides q := by
  unfold Machine.notify
  split
  · exact h
  · rename_i bus hbus
    have hq := h.world.calls.bus hbus
    split
    · exact h
    · simp only [List.partition_eq_filter_filter]
      have hwaiting : Bus.Abides q { bus with
          waiters := bus.waiters.filter (not ∘ fun s => m.world.knowsCompleted bus s.topic) } :=
        ⟨hq.subscribers, fun e he => hq.waiters e (List.mem_of_mem_filter he)⟩
      refine (h.withWorld (h.world.settle b hwaiting)).push
        (f := .deliver (some b) _) fun s hs => ?_
      obtain ⟨e, he, rfl⟩ := List.mem_map.1 hs
      exact hq.waiters e (List.mem_of_mem_filter he)

theorem serve (hnotify : ∀ b, q (.notify b .stop)) (b : Nat) (service : Option QuestService) :
    (m.serve b service).Abides q := by
  unfold Machine.serve
  split
  · exact h
  · rename_i bus hbus
    have hq := h.world.calls.bus hbus
    have hunwatch := h.world.unwatch b hq
    have hbus' : Bus.Abides q { bus with watch := none, service } := ⟨hq.subscribers, hq.waiters⟩
    dsimp only
    split
    · exact h.withWorld (hunwatch.setBus b hbus')
    · exact (h.withWorld (hunwatch.watch b hbus' (hnotify b))).notify b

theorem close (b : Nat) : (m.close b).Abides q := by
  unfold Machine.close
  split
  · exact h
  · rename_i bus hbus
    have hq := h.world.buses bus (List.mem_of_getElem? hbus)
    have hset := h.world.setBus b (B := { bus with lifetime := bus.lifetime.release })
      ⟨hq.subscribers, hq.waiters⟩
    exact (h.withWorld hset).expireBus b

theorem subscribe (b : Nat) (key : String) {callback : Script σ} {next : Option Nat → Script σ}
    (hcallback : q callback) (hnext : ∀ a, q (next a)) :
    (m.subscribe b key callback next).Abides q := by
  unfold Machine.subscribe
  split
  · exact h.push (f := .run (next none)) (hnext none)
  · rename_i bus hbus
    have hq := h.world.calls.bus hbus
    split
    · have hset := h.withWorld (h.world.setBus b (B := bus.consume key)
        ⟨hq.subscribers, hq.waiters⟩)
      exact (hset.push (f := .run (next none)) (hnext none)).push
        (f := .deliver (some b) [callback]) (List.forall_mem_singleton.2 hcallback)
    · have hset := h.withWorld (h.world.setBus b (B := (bus.subscribe key callback).2)
        ⟨List.forall_mem_append.2 ⟨hq.subscribers, List.forall_mem_singleton.2 hcallback⟩,
          hq.waiters⟩)
      exact hset.push (f := .run (next _)) (hnext _)

theorem await (hnotify : ∀ b, q (.notify b .stop)) (b : Nat) (quest : String) {callback : Script σ}
    {next : Option Nat → Script σ} (hcallback : q callback) (hnext : ∀ a, q (next a)) :
    (m.await b quest callback next).Abides q := by
  unfold Machine.await
  split
  · exact h.push (f := .run (next none)) (hnext none)
  · rename_i bus hbus
    have hq := h.world.calls.bus hbus
    split
    · exact (h.push (f := .run (next none)) (hnext none)).push
        (f := .deliver (some b) [callback]) (List.forall_mem_singleton.2 hcallback)
    · have hset := h.withWorld (h.world.watch b (B := (bus.await quest callback).2)
        ⟨hq.subscribers,
          List.forall_mem_append.2 ⟨hq.waiters, List.forall_mem_singleton.2 hcallback⟩⟩
        (hnotify b))
      exact hset.push (f := .run (next _)) (hnext _)

theorem done (r visit : Nat) {next : Bool → Script σ} (hnext : ∀ a, q (next a)) :
    (m.done r visit next).Abides q := by
  unfold Machine.done
  split
  · exact h.push (f := .run (next false)) (hnext false)
  · rename_i R hR
    have hq := h.world.runner hR
    split
    · have hset := h.setRunner r (R := { R with armed := R.armed.erase visit }) hq
      exact (hset.push (f := .run (next true)) (hnext true)).submit r _
    · exact h.push (f := .run (next false)) (hnext false)

end

theorem perform {m : Machine σ} (h : m.Abides (Script.All p))
    (hnotify : ∀ b, (Script.notify b .stop).All p) {s : Script σ} (hs : s.All p) :
    (m.perform s).Abides (Script.All p) := by
  cases s with
  | stop => exact h
  | panic e => exact ⟨h.world, h.stack⟩
  | look next => exact h.push (f := .run _) (hs.2 _ _)
  | keep change next => exact ⟨h.world, List.forall_mem_cons.2 ⟨hs.2, h.stack⟩⟩
  | raise b key next => exact (h.push (f := .run next) hs.2).raise b key
  | subscribe b key callback next => exact h.subscribe b key hs.2.1 hs.2.2
  | unsubscribe b key id next =>
      simp only [Machine.perform]
      split
      · exact h.push (f := .run _) (hs.2 _)
      · rename_i bus hbus
        have hq := h.world.calls.bus hbus
        have hleft : (bus.unsubscribe key id).2.Abides (Script.All p) :=
          ⟨fun e he => hq.subscribers e (List.mem_of_mem_filter he), hq.waiters⟩
        exact (h.withWorld (h.world.setBus b hleft)).push (f := .run _) (hs.2 _)
  | clear b next =>
      simp only [Machine.perform]
      split
      · exact h.push (f := .run next) hs.2
      · rename_i bus hbus
        have hq := h.world.calls.bus hbus
        have hcleared : Bus.Abides (Script.All p) { bus with pending := [] } :=
          ⟨hq.subscribers, hq.waiters⟩
        exact (h.withWorld (h.world.setBus b hcleared)).push (f := .run next) hs.2
  | await b quest callback next => exact h.await hnotify b quest hs.2.1 hs.2.2
  | unawait b quest id next =>
      simp only [Machine.perform]
      split
      · exact h.push (f := .run _) (hs.2 _)
      · rename_i bus hbus
        have hq := h.world.calls.bus hbus
        have hleft : (bus.unawait quest id).2.Abides (Script.All p) :=
          ⟨hq.subscribers, fun e he => hq.waiters e (List.mem_of_mem_filter he)⟩
        exact (h.withWorld (h.world.settle b hleft)).push (f := .run _) (hs.2 _)
  | quest b quest step next =>
      simp only [Machine.perform]
      split
      · exact h.push (f := .run next) hs.2
      · exact (h.push (f := .run next) hs.2).advance _ _ quest step
  | notify b next => exact (h.push (f := .run next) hs.2).notify b
  | serve b service next => exact (h.push (f := .run next) hs.2).serve hnotify b service
  | close b next => exact (h.push (f := .run next) hs.2).close b
  | advance l quest step next => exact (h.push (f := .run next) hs.2).advance none l quest step
  | listen l listener next =>
      simp only [Machine.perform]
      split
      · exact h.push (f := .run _) (hs.2.2 _)
      · rename_i log hlog
        have hlisteners : ∀ e ∈ (log.listen listener).2.listeners, e.2.All p :=
          List.forall_mem_append.2 ⟨h.world.calls.log hlog, List.forall_mem_singleton.2 hs.2.1⟩
        exact (h.withWorld (h.world.setLog l hlisteners)).push (f := .run _) (hs.2.2 _)
  | unlisten l id next =>
      simp only [Machine.perform]
      split
      · exact h.push (f := .run _) (hs.2 _)
      · rename_i log hlog
        have hlisteners : ∀ e ∈ (log.unlisten id).2.listeners, e.2.All p := fun e he =>
          h.world.calls.log hlog e (List.mem_of_mem_filter he)
        exact (h.withWorld (h.world.setLog l hlisteners)).push (f := .run _) (hs.2 _)
  | assign graph bus limit next =>
      have hnew : Runner.Abides (Script.All p) { graph, bus, limit } := fun c hc => by cases hc
      have hworld : World.Abides (Script.All p)
          { m.world with runners := m.world.runners ++ [{ graph, bus, limit }] } :=
        ⟨List.forall_mem_append.2 ⟨h.world.runners, List.forall_mem_singleton.2 hnew⟩,
          h.world.buses, h.world.logs⟩
      exact (h.withWorld hworld).push (f := .run _) (hs.2 _)
  | start r next =>
      simp only [Machine.perform]
      split
      · exact h.push (f := .run _) (hs.2 _)
      · split
        · exact h.push (f := .run _) (hs.2 _)
        · exact (h.push (f := .run _) (hs.2 _)).submit r _
  | ask r request next => exact (h.push (f := .run next) hs.2).submit r _
  | done r visit next => exact h.done r visit hs.2
  | onLeave r visit leave next =>
      simp only [Machine.perform]
      split
      · exact h.push (f := .run next) hs.2.2
      · rename_i R hR
        refine (h.setRunner r ?_).push (f := .run next) hs.2.2
        intro c hc s hleave
        obtain ⟨c', hc', rfl⟩ := Option.map_eq_some_iff.1 hc
        by_cases hv : c'.visit = visit
        · rw [if_pos hv] at hleave
          obtain ⟨s', -, rfl⟩ := Option.map_eq_some_iff.1 hleave
          exact hs.2.1
        · rw [if_neg hv] at hleave
          exact h.world.runner hR c' hc' s hleave
  | set r key value next =>
      simp only [Machine.perform]
      split
      · exact h.push (f := .run next) hs.2
      · rename_i R hR
        have hq := h.world.runner hR
        exact (h.setRunner r (R := { R with blackboard := R.blackboard.set key value }) hq).push
          (f := .run next) hs.2
  | release r next => exact (h.push (f := .run next) hs.2).release r

section

include h

theorem dispatch (r entered : Nat) {R : Runner (Script σ)} (hR : R.Abides q) :
    (m.dispatch r R entered).Abides q := by
  have hwork : ∀ {n : Machine σ}, n.Abides q → ∀ e, (n.push (.dispatch r e)).Abides q :=
    fun hn e => hn.push (f := .dispatch r e) trivial
  unfold Machine.dispatch
  split
  · exact expireRunner (h.setRunner r (R := { R with dispatching := false }) hR) r
  · rename_i task queue _
    split
    · exact expireRunner (h.setRunner r
        (R := { R with queue := [], halted := true, dispatching := false }) hR) r
    · split
      · exact hwork (h.setRunner r (R := { R with queue }) hR) entered
      · exact hwork (h.setRunner r (R := { R with queue, halted := true }) hR) entered
      · exact ((hwork h entered).push (f := .leaving r none) trivial).leave r hR
      · exact ((hwork h (entered + 1)).push (f := .leaving r _) trivial).leave r hR

theorem enter {kinds : Registry (Behaviour σ)}
    (hkinds : ∀ n behaviour, kinds.build n = .ready behaviour → ∀ v, q (behaviour v))
    (hstop : q .stop) (r : Nat) (R : Runner (Script σ)) (node : Node) :
    (m.enter kinds r R node).Abides q := by
  have hnone : ∀ halted, Runner.Abides q { R with
      visits := R.visits + 1, halted, current := some ⟨node.id, R.visits + 1, none⟩ } := by
    intro halted c hc s hs
    obtain rfl := Option.some.inj hc
    cases hs
  unfold Machine.enter
  dsimp only
  split
  · exact h.setRunner r (hnone true)
  · have hset := h.setRunner r (hnone false)
    exact ⟨hset.world, hset.stack⟩
  · rename_i behaviour hbuild
    have hready : Runner.Abides q { R with
        visits := R.visits + 1, halted := false, armed := (R.visits + 1) :: R.armed
        current := some ⟨node.id, R.visits + 1, some .stop⟩ } := by
      intro c hc s hs
      obtain rfl := Option.some.inj hc
      obtain rfl := Option.some.inj hs
      exact hstop
    exact ((h.setRunner r hready).push (f := .entering r (R.visits + 1)) trivial).push
      (f := .run _) (hkinds node behaviour hbuild _)

theorem unwind {f : Frame σ} (hf : f.Abides q) : (m.unwind f).Abides q := by
  have hcaught : { m with panic := none }.Abides q := ⟨h.world, h.stack⟩
  cases f with
  | run s => exact h
  | deliver bus rest => exact hcaught.push (f := .deliver bus rest) hf
  | dispatch r entered =>
      simp only [Machine.unwind]
      split
      · exact h
      · rename_i R hR
        have hq := h.world.runner hR
        split
        · exact expireBus (h.setRunner r
            (R := { R with dispatching := false, current := none, lifetime := .over })
            fun c hc => by cases hc) _
        · exact h.setRunner r (R := { R with dispatching := false }) hq
  | entering r visit =>
      simp only [Machine.unwind]
      split
      · exact hcaught
      · rename_i R hR
        have hq := h.world.runner hR
        exact hcaught.setRunner r (R := { R with queue := [], halted := true }) hq
  | exiting r visit => exact hcaught
  | leaving r target => exact h

end

theorem resume {kinds : Registry (Behaviour σ)}
    (hkinds : ∀ n behaviour, kinds.build n = .ready behaviour → ∀ v, (behaviour v).All p)
    (hnotify : ∀ b, (Script.notify b .stop).All p) {m : Machine σ} (h : m.Abides (Script.All p))
    {f : Frame σ} (hf : f.Abides (Script.All p)) : (m.resume kinds f).Abides (Script.All p) := by
  have hstop : (Script.stop : Script σ).All p := (hnotify 0).2
  cases f with
  | run s => exact h.perform hnotify hf
  | deliver bus rest =>
      cases rest with
      | nil =>
          cases bus with
          | none => exact h
          | some b => exact h.expireBus b
      | cons s rest =>
          obtain ⟨hs, hrest⟩ := List.forall_mem_cons.1 hf
          exact (h.push (f := .deliver bus rest) hrest).push (f := .run s) hs
  | dispatch r entered =>
      simp only [Machine.resume]
      split
      · exact h
      · rename_i R hR
        exact h.dispatch r entered (h.world.runner hR)
  | entering r visit => exact h
  | exiting r visit => exact h
  | leaving r target =>
      simp only [Machine.resume]
      split
      · exact h
      · rename_i R hR
        have hq := h.world.runner hR
        exact h.setRunner r (R := { R with halted := false }) hq
      · exact h.enter hkinds hstop r _ _

/-- Every step hands the property on. -/
theorem next {kinds : Registry (Behaviour σ)}
    (hkinds : ∀ n behaviour, kinds.build n = .ready behaviour → ∀ v, (behaviour v).All p)
    (hnotify : ∀ b, (Script.notify b .stop).All p) {m n : Machine σ}
    (h : m.Abides (Script.All p)) (hn : Next kinds m n) : n.Abides (Script.All p) := by
  unfold Next Machine.step at hn
  split at hn
  · cases hn
  · rename_i f stack hm
    obtain ⟨hf, hstack⟩ := List.forall_mem_cons.1 (hm ▸ h.stack)
    have hrest : { m with stack }.Abides (Script.All p) := ⟨h.world, hstack⟩
    rw [← Option.some.inj hn]
    split
    · exact hrest.unwind hf
    · exact hrest.resume hkinds hnotify hf

end Machine.Abides

end StoryGraph
