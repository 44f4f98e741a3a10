import StoryGraph.Proofs.Walk.Dispatch

/-!
# A runner takes a walk

`Shows` compares what can be seen of a session with the state of a walk. A runner that is alone on
its bus shows, after any calls, what the same calls make of a walk, and a call comes to an end
exactly if the walk does (`Setting.Answers`).

What is left of a call once its dispatch is over are frames that have nothing to do any more
(`Setting.Spent`).
-/

namespace StoryGraph

def Walk.Call.script {σ : Type} (r b : Nat) (log? : Option Nat) : Walk.Call → Script σ
  | .start => .start r fun _ => .stop
  | .ask request => .ask r request .stop
  | .raise key => .raise b key .stop
  | .clear => .clear b .stop
  | .quest name step => log?.elim .stop fun l => .advance l name step .stop
  | .set key value => .set r key value .stop

namespace World

variable {σ : Type}

/-- What can be seen of a runner, its bus and its quest log is the state of a walk. -/
structure Shows (w : World (Script σ)) (r b : Nat) (log? : Option Nat) (s : Walk.State) :
    Prop where
  runner : ∃ R ∈ w.runners[r]?, R.current.map Current.id = s.current ∧ R.halted = s.halted ∧
    R.visits = s.visits ∧ R.blackboard = s.blackboard
  bus : ∃ B ∈ w.buses[b]?, ∀ key, key ∈ B.pending ↔ key ∈ s.pending
  quests : s.quests = log?.bind fun l => w.logs[l]?.map QuestLog.state

/-- A runner that has not been asked for anything, without a limit and alone on its bus. The bus
has a quest log for its quest service, or none, and may know of pending events. -/
structure Solitary (w : World (Script σ)) (g : Graph) (r b : Nat) (log? : Option Nat) : Prop where
  runner : ∃ blackboard exposed,
    w.runners[r]? = some { graph := g, bus := b, limit := none, blackboard, exposed }
  bus : ∃ pending lastId,
    w.buses[b]? = some { pending, lastId, service := log?.map fun l => ⟨l, true⟩ }
  log : ∀ l ∈ log?, ∃ L ∈ w.logs[l]?, L.listeners = []

end World

namespace Setting

open Walk (State Attention)

variable {σ : Type} {x : Setting σ} {g : Graph} {S : Scene σ} {s : State} {K : List (Frame σ)}

def Spent (x : Setting σ) (K : List (Frame σ)) : Prop :=
  ∀ f ∈ K, f = .run .stop ∨ f = .deliver none [] ∨ f = .deliver (some x.bus) []

theorem Proper.leads_spent (h : x.Proper S) (hK : x.Spent K) :
    Machine.Leads Builtin.registry (x.machine S K) (x.machine S []) := by
  induction K with
  | nil => exact .refl
  | cons f K ih =>
      refine .trans ?_ (ih fun f' hf => hK f' (List.mem_cons_of_mem f hf))
      obtain rfl | rfl | rfl := hK f List.mem_cons_self
      · exact leads_stop
      · exact .single (x.next_resume S K (.deliver none []))
      · exact h.leads_delivered

/-- A session ends exactly if a walk does, and then it shows the state of the walk. -/
structure Answers (x : Setting σ) (g : Graph) (m : Machine σ) (o : Option State) : Prop where
  leads : ∀ s ∈ o, ∃ T, Machine.Leads Builtin.registry m (x.machine T []) ∧ x.Settled g T s
  isSome : ∀ e, Machine.Ends Builtin.registry m e → o.isSome

theorem Answers.head {m n : Machine σ} {o : Option State} (hn : x.Answers g n o)
    (h : Machine.Leads Builtin.registry m n) : x.Answers g m o := by
  constructor
  · intro s hs
    obtain ⟨T, hl, hT⟩ := hn.leads s hs
    exact ⟨T, h.trans hl, hT⟩
  · intro e he
    exact hn.isSome e ((Machine.ends_iff_of_leads h).1 he)

theorem Settled.answers (h : x.Settled g S s) (hK : x.Spent K) :
    x.Answers g (x.machine S K) (some s) := by
  constructor
  · intro t ht
    obtain rfl := Option.some.inj ht
    exact ⟨S, h.leads_spent hK, h⟩
  · intro e _
    rfl

theorem Acted.answers {task : Task} (h : x.Acted g S s [task]) (hK : x.Spent K) (entered : Nat) :
    x.Answers g (x.machine S (.dispatch x.runner entered :: K))
      (complete g (after s (S.runner.move task))) := by
  have hg := h.getsTo_move (K := K) entered
  generalize after s (S.runner.move task) = o at hg
  obtain ⟨t, _ | n⟩ := o
  · obtain ⟨T, hp, hT⟩ := hg
    exact (hT.answers hK).head hp.to_reflTransGen
  · obtain ⟨T, entered', hp, hT, hn⟩ := hg
    refine Answers.head ?_ hp.to_reflTransGen
    constructor
    · intro u hu
      obtain ⟨U, hl, hU⟩ := leads_of_follow (K := K) n hu T hT hn entered'
      exact ⟨U, hl.trans (hU.leads_spent hK), hU⟩
    · rintro e ⟨steps, hr⟩
      exact follow_isSome_of_run steps n hT hn entered' hr

/-- A runner that rests takes a task at once. -/
theorem Settled.answers_submit (h : x.Settled g S s) (task : Task) (hK : x.Spent K) :
    x.Answers g ((x.machine S K).submit x.runner task)
      (complete g (after s (S.runner.move task))) := by
  have ha : x.Acted g (S.withQueue [task] true) s [task] :=
    { h.withQueue [task] true with
      queue_eq := rfl
      dispatching := rfl }
  have hm : (S.withQueue [task] true).runner.move task = S.runner.move task := by
    cases task <;> rfl
  rw [h.submit_machine, h.queue_eq, h.dispatching, List.nil_append, ← hm]
  exact ha.answers hK 0

theorem Agrees.complete_goTo (h : x.Agrees g S s) (id : NodeId) :
    complete g (after s (S.runner.move (.request (.goTo id)))) = Walk.goTo g s id := by
  rw [Runner.move, h.graph_eq, Walk.goTo]
  cases g.node? id <;> rfl

theorem Agrees.complete_onward (h : x.Agrees g S s) :
    complete g (after s S.runner.onward) = Walk.goOn g s := by
  unfold Walk.goOn
  cases hc : s.current with
  | none =>
      have hcur : S.runner.current = none := Option.map_eq_none_iff.1 (h.current_eq.trans hc)
      rw [Runner.onward, hcur]
      rfl
  | some id =>
      rw [h.onward_eq hc]
      dsimp only
      cases (g.node? id).bind (Walk.successor g) <;> rfl

theorem Agrees.complete_jump (h : x.Agrees g S s) (source : NodeId) (slot : Nat) :
    complete g (after s (S.runner.move (.request (.jump source slot)))) =
      Walk.call g s (.ask (.jump source slot)) := by
  rw [h.move_jump, after_elim_stay, Walk.call]
  cases (g.node? source).bind fun n => Walk.target g n slot <;> rfl

/-- A request is answered as a walk answers it. -/
theorem Settled.answers_request (h : x.Settled g S s) (request : Request) (hK : x.Spent K) :
    x.Answers g ((x.machine S K).submit x.runner (.request request))
      (Walk.call g s (.ask request)) := by
  have ha := h.answers_submit (.request request) hK
  cases request with
  | goTo id =>
      rw [h.complete_goTo] at ha
      exact ha
  | advance =>
      rw [Runner.move, h.complete_onward] at ha
      exact ha
  | jump source slot =>
      rw [h.complete_jump] at ha
      exact ha
  | stop => exact ha

theorem Spent.cons (hK : x.Spent K) {f : Frame σ}
    (hf : f = .run .stop ∨ f = .deliver none [] ∨ f = .deliver (some x.bus) []) :
    x.Spent (f :: K) := by
  intro f' hf'
  rcases List.mem_cons.1 hf' with rfl | hf'
  · exact hf
  · exact hK f' hf'

theorem spent_nil : x.Spent [] := by
  intro f hf
  cases hf

/-- The word of the current visit, said while the runner rests. -/
theorem Settled.answers_word {a : NodeId} {visit : Nat} (h : x.Settled g (disarmed S visit) s)
    (hv : visit ∈ S.runner.armed) (hc : s.current = some a) (hn : s.visits = visit)
    (hK : x.Spent K) :
    x.Answers g (x.machine S (.run (x.word visit) :: K)) (Walk.goOn g s) := by
  subst hn
  have hnext := next_word (x := x) (S := S) Builtin.registry K s.visits
  have ha := h.answers_submit (.done s.visits) (hK.cons (.inl rfl))
  rw [if_pos hv] at hnext
  rw [h.move_done hc, h.complete_onward] at ha
  exact ha.head (.single hnext)

theorem listeners_eq_nil {B : Bus (Script σ)} (h : B.subscribers = []) (key : String) :
    B.listeners key = [] := by
  rw [Bus.listeners, h]
  rfl

theorem Settled.answers_hold (h : x.Settled g S s) {key : String}
    (hnobody : S.bus.listeners key = []) :
    x.Answers g (x.machine S [.run (.raise x.bus key .stop)]) (some (s.hold key)) := by
  have hn : Machine.Next Builtin.registry _ _ := x.next_resume S []
    (.run (.raise x.bus key .stop))
  simp only [Machine.resume, Machine.perform, push_machine, h.raise_machine, hnobody,
    List.isEmpty_nil, if_true] at hn
  have hs : x.Settled g { S with bus := S.bus.hold key } (s.hold key) :=
    { h.hold key with
      queue_eq := h.queue_eq
      dispatching := h.dispatching }
  exact (hs.answers (spent_nil.cons (.inl rfl))).head (.single hn)

theorem Settled.answers_raise (h : x.Settled g S s) (key : String) :
    x.Answers g (x.machine S [.run (.raise x.bus key .stop)]) (Walk.call g s (.raise key)) := by
  have hhears := h.hears
  rw [Walk.call]
  generalize ha : s.attention = a at hhears
  cases hhears with
  | nothing quiet leave => exact h.answers_hold (listeners_eq_nil quiet.subscribers key)
  | quest node visit id current waiters armed open_ subscribers watches =>
      exact h.answers_hold (listeners_eq_nil subscribers key)
  | @event k heard node visit id current subscribers armed waiters watch listeners =>
      dsimp only
      by_cases hk : k = key
      · have hheard : S.bus.listeners key = [x.word visit] := by
          rw [Bus.listeners, subscribers, ← hk]
          simp
        have hn : Machine.Next Builtin.registry _ _ := x.next_resume S []
          (.run (.raise x.bus key .stop))
        simp only [Machine.resume, Machine.perform, push_machine, h.raise_machine, hheard,
          List.isEmpty_cons, Bool.false_eq_true, if_false] at hn
        have hl := Relation.ReflTransGen.head hn (.single (next_deliver (some x.bus) _))
        have hK : x.Spent [.deliver (some x.bus) [], .run .stop] :=
          (spent_nil.cons (.inl rfl)).cons (.inr (.inr rfl))
        rw [if_pos hk]
        cases heard with
        | true =>
            have hv : visit ∉ S.runner.armed := by simp [armed]
            have hword := next_word (x := x) (S := S) Builtin.registry
              [.deliver (some x.bus) [], .run .stop] visit
            rw [if_neg hv] at hword
            exact (h.answers (hK.cons (.inl rfl))).head (hl.trans (.single hword))
        | false =>
            have hv : visit ∈ S.runner.armed := armed.2 rfl
            have hs : x.Settled g (disarmed S visit) { s with attention := .event k true } :=
              { h with
                armed_le := fun v hv => h.armed_le v (List.mem_of_mem_erase hv)
                armed_nodup := h.armed_nodup.erase visit
                hears := .event node visit id current subscribers
                  (by simp [disarmed, h.armed_nodup.mem_erase_iff]) waiters watch listeners }
            have hc : s.current = some node := by rw [← h.current_eq, current]; rfl
            have hvis : s.visits = visit := by rw [← h.visits_eq, ← h.visit_eq _ current]
            exact (hs.answers_word hv hc hvis hK).head hl
      · have hnobody : S.bus.listeners key = [] := by
          rw [Bus.listeners, subscribers]
          simp [hk]
        rw [if_neg hk]
        exact h.answers_hold hnobody

/-- The bus gives notice to the only one who waits for a quest, if the quest is completed. -/
theorem Proper.notify_machine (h : x.Proper S) {l : Nat} (hl : x.log? = some l) {quest : String}
    {id : Nat} {t : Script σ} (hw : S.bus.waiters = [⟨quest, id, t⟩]) (hwatch : x.Watches S) :
    (x.machine S K).notify x.bus =
      if x.Knows S quest then
        x.machine { S with bus := { S.bus with waiters := [], watch := none }
                           log := { S.log with listeners := [] } }
          (.deliver (some x.bus) [t] :: K)
      else x.machine S (.deliver (some x.bus) [] :: K) := by
  have hservice : S.bus.service.isNone = false := by rw [h.service_eq, hl]; rfl
  have hpart : S.bus.waiters.partition
      (fun w => (x.place S).knowsCompleted S.bus w.topic) =
        if x.Knows S quest then (S.bus.waiters, []) else ([], S.bus.waiters) := by
    rw [hw]
    by_cases hk : x.Knows S quest <;>
      simp [List.partition, List.partition.loop, h.knowsCompleted_place S.bus rfl, hk]
  simp only [Machine.notify, world_machine, h.bus?_place, hservice, Bool.false_eq_true, if_false,
    hpart]
  split_ifs with hk
  · simp only [h.settle_place_nil (B := { S.bus with waiters := [] }) rfl rfl
      (.inr ⟨hwatch, rfl⟩), hw]
    rfl
  · have hne : S.bus.waiters.isEmpty = false := by
      rw [hw]
      rfl
    simp only [World.settle, hne, Bool.false_eq_true, if_false, setBus_place]
    rfl

theorem Agrees.notice_eq (h : x.Agrees g S s) : Walk.notice g s = some s := by
  have hhears := h.hears
  unfold Walk.notice
  generalize s.attention = a at hhears
  cases hhears with
  | nothing | event => rfl
  | @quest quest node visit id current waiters armed open_ subscribers watches =>
      exact if_neg fun hc => open_ ((h.knows_iff quest).2 hc)

/-- A quest has got further while nobody listens to the quest log. -/
theorem Settled.answers_unnoticed (h : x.Settled g S s) {log : QuestLog (Script σ)}
    (hlisten : log.listeners = []) (hears : x.Hears { S with log } s.attention) :
    x.Answers g
      (x.machine { S with log } [.deliver none (log.listeners.map Prod.snd), .run .stop])
      (some { s with quests := x.log?.map fun _ => log.state }) := by
  have hs : x.Settled g { S with log } { s with quests := x.log?.map fun _ => log.state } :=
    { h with
      quests_eq := rfl
      hears := hears }
  rw [hlisten]
  exact hs.answers ((spent_nil.cons (.inl rfl)).cons (.inr (.inl rfl)))

/-- A quest has got further while the node waits for one. -/
theorem Settled.answers_noticed (h : x.Settled g S s) {l : Nat} (hl : x.log? = some l)
    {log : QuestLog (Script σ)} {quest : String} {node : NodeId} {visit id : Nat}
    (hlisten : log.listeners = S.log.listeners) (hs : s.attention = .quest quest)
    (current : S.runner.current = some ⟨node, visit, some (x.abandon quest id)⟩)
    (waiters : S.bus.waiters = [⟨quest, id, x.word visit⟩]) (armed : visit ∈ S.runner.armed)
    (subscribers : S.bus.subscribers = []) (watches : x.Watches S) :
    x.Answers g
      (x.machine { S with log } [.deliver none (log.listeners.map Prod.snd), .run .stop])
      (Walk.notice g { s with quests := x.log?.map fun _ => log.state }) := by
  have hp : x.Proper { S with log } := { h with }
  have hwatch : x.Watches { S with log } := by
    unfold Watches at watches ⊢
    rw [hlisten]
    exact watches
  have hlog : log.listeners.map Prod.snd = [.notify x.bus .stop] := by
    rw [Watches, hl] at hwatch
    obtain ⟨watch, -, hlisteners⟩ := hwatch
    rw [hlisteners]
    rfl
  have hn : Machine.Next Builtin.registry _ _ := x.next_resume { S with log }
    [.deliver none [], .run .stop] (.run (.notify x.bus .stop))
  simp only [Machine.resume, Machine.perform, push_machine,
    hp.notify_machine hl waiters hwatch] at hn
  have hK : x.Spent [.run .stop, .deliver none [], .run .stop] :=
    ((spent_nil.cons (.inl rfl)).cons (.inr (.inl rfl))).cons (.inl rfl)
  rw [hlog]
  refine Answers.head ?_ (.head (next_deliver none _) (.single hn))
  simp only [Walk.notice, hs, ← knows_iff_completed (x := x) (S := { S with log })
    (s := { s with attention := .quest quest, quests := x.log?.map fun _ => log.state }) rfl]
  split_ifs with hk
  · refine Answers.head ?_ (.single (next_deliver (some x.bus) _))
    refine Settled.answers_word ?_ armed (a := node) ?_ ?_ (hK.cons (.inr (.inr rfl)))
    · exact
        { h with
          armed_le := fun v hv => h.armed_le v (List.mem_of_mem_erase hv)
          armed_nodup := h.armed_nodup.erase visit
          quests_eq := rfl
          hears := .nothing ⟨subscribers, rfl, rfl, rfl⟩ (by
            intro c hc
            obtain rfl := Option.some.inj (current.symm.trans hc)
            exact .abandon quest id) }
    · rw [← h.current_eq, current]
      rfl
    · rw [← h.visits_eq, ← h.visit_eq _ current]
  · refine Settled.answers ?_ (hK.cons (.inr (.inr rfl)))
    exact
      { h with
        quests_eq := rfl
        hears := .quest node visit id current waiters armed hk subscribers hwatch }

theorem Settled.answers_quest (h : x.Settled g S s) (name : String) (step : QuestStep) :
    x.Answers g
      (x.machine S [.run ((Walk.Call.quest name step).script x.runner x.bus x.log?)])
      (Walk.call g s (.quest name step)) := by
  have hstop : x.Spent [.run .stop] := spent_nil.cons (.inl rfl)
  rw [Walk.call]
  cases hl : x.log? with
  | none =>
      rw [h.advance_of_none hl name step, h.notice_eq]
      exact h.answers hstop
  | some l =>
      have hn : Machine.Next Builtin.registry _ _ := x.next_resume S []
        (.run (.advance l name step .stop))
      simp only [Machine.resume, Machine.perform, push_machine, advance_machine hl] at hn
      cases hstep : S.log.advance? name step with
      | none =>
          rw [hstep] at hn
          rw [h.advance_of_advance?_none hl hstep, h.notice_eq]
          exact (h.answers hstop).head (.single hn)
      | some log =>
          rw [hstep] at hn
          have hlisten : log.listeners = S.log.listeners := (state_of_advance? hstep).2.2
          rw [h.advance_of_advance? hl hstep]
          refine Answers.head ?_ (.single hn)
          obtain ⟨a, ha⟩ : ∃ a, s.attention = a := ⟨_, rfl⟩
          have hhears := h.hears
          rw [ha] at hhears
          cases hhears with
          | nothing quiet leave =>
              have hears : x.Hears { S with log } s.attention := by
                rw [ha]
                exact .nothing ⟨quiet.1, quiet.2, quiet.3, hlisten.trans quiet.4⟩ leave
              have hs := h.answers_unnoticed (hlisten.trans quiet.listeners) hears
              simpa only [Walk.notice, ha] using hs
          | event node visit id current subscribers armed waiters watch listeners =>
              have hears : x.Hears { S with log } s.attention := by
                rw [ha]
                exact .event node visit id current subscribers armed waiters watch
                  (hlisten.trans listeners)
              have hs := h.answers_unnoticed (hlisten.trans listeners) hears
              simpa only [Walk.notice, ha] using hs
          | quest node visit id current waiters armed open_ subscribers watches =>
              exact h.answers_noticed hl hlisten ha current waiters armed subscribers watches

/-- Any call is answered as a walk answers it. -/
theorem Settled.answers_call (h : x.Settled g S s) (c : Walk.Call) :
    x.Answers g (x.machine S [.run (c.script x.runner x.bus x.log?)]) (Walk.call g s c) := by
  have hstop : x.Spent [.run .stop] := spent_nil.cons (.inl rfl)
  cases c with
  | start =>
      have hn : Machine.Next Builtin.registry _ _ := x.next_resume S []
        (.run (.start x.runner fun _ => .stop))
      simp only [Machine.resume, Machine.perform, world_machine, runners_place, h.graph_eq,
        push_machine] at hn
      rw [Walk.call]
      cases he : g.entry with
      | error e =>
          rw [he] at hn
          exact (h.answers hstop).head (.single hn)
      | ok id =>
          rw [he] at hn
          exact (h.answers_request (.goTo id) hstop).head (.single hn)
  | ask request =>
      have hn : Machine.Next Builtin.registry _ _ := x.next_resume S []
        (.run (.ask x.runner request .stop))
      exact (h.answers_request request hstop).head (.single hn)
  | raise key => exact h.answers_raise key
  | clear =>
      have hn : Machine.Next Builtin.registry _ _ := x.next_resume S [] (.run (.clear x.bus .stop))
      simp only [Machine.resume, Machine.perform, world_machine, h.bus?_place,
        setBus_place] at hn
      have hs : x.Settled g { S with bus := { S.bus with pending := [] } }
          { s with pending := ∅ } :=
        { h.withPending (by simp) with
          queue_eq := h.queue_eq
          dispatching := h.dispatching }
      exact (hs.answers hstop).head (.single hn)
  | quest name step => exact h.answers_quest name step
  | set key value =>
      have hn : Machine.Next Builtin.registry _ _ := x.next_resume S []
        (.run (.set x.runner key value .stop))
      simp only [Machine.resume, Machine.perform, world_machine, runners_place, setRunner_machine,
        push_machine] at hn
      have hs : x.Settled g
          { S with runner := { S.runner with blackboard := S.runner.blackboard.set key value } }
          { s with blackboard := s.blackboard.set key value } :=
        { h with
          blackboard_eq := by rw [← h.blackboard_eq]
          hears := h.hears.withRunner rfl rfl }
      exact (hs.answers hstop).head (.single hn)

theorem Answers.ends_iff {m : Machine σ} {t : State} (h : x.Answers g m (some t)) :
    ∃ T, x.Settled g T t ∧ ∀ n, Machine.Ends Builtin.registry m n ↔ n = x.machine T [] := by
  obtain ⟨T, hl, hT⟩ := h.leads t rfl
  exact ⟨T, hT, fun n => Machine.ends_iff_eq hl rfl⟩

theorem play_cons (g : Graph) (s : State) (c : Walk.Call) (calls : List Walk.Call) :
    Walk.play g s (c :: calls) = (Walk.call g s c).bind fun t => Walk.play g t calls := rfl

def scripts (x : Setting σ) (calls : List Walk.Call) : List (Script σ) :=
  calls.map fun c => c.script x.runner x.bus x.log?

theorem Settled.exists_plays (h : x.Settled g S s) {calls : List Walk.Call} {t : State}
    (ht : Walk.play g s calls = some t) :
    ∃ T, Machine.Plays Builtin.registry (x.machine S []) (x.scripts calls) (x.machine T []) ∧
      x.Settled g T t := by
  induction calls generalizing S s with
  | nil =>
      obtain rfl := Option.some.inj ht
      exact ⟨S, rfl, h⟩
  | cons c calls ih =>
      rw [play_cons] at ht
      obtain ⟨u, hu, ht⟩ := Option.bind_eq_some_iff.1 ht
      obtain ⟨U, hU, hends⟩ := (hu ▸ h.answers_call c).ends_iff
      obtain ⟨T, hp, hT⟩ := ih hU ht
      exact ⟨T, ⟨x.machine U [], (hends _).2 rfl, hp⟩, hT⟩

theorem Settled.exists_play (h : x.Settled g S s) {calls : List Walk.Call} {n : Machine σ}
    (hn : Machine.Plays Builtin.registry (x.machine S []) (x.scripts calls) n) :
    ∃ T t, n = x.machine T [] ∧ Walk.play g s calls = some t ∧ x.Settled g T t := by
  induction calls generalizing S s with
  | nil => exact ⟨S, s, hn, rfl, h⟩
  | cons c calls ih =>
      obtain ⟨k, hk, hn⟩ := hn
      have ha := h.answers_call c
      obtain ⟨u, hu⟩ := Option.isSome_iff_exists.1 (ha.isSome k hk)
      obtain ⟨U, hU, hends⟩ := (hu ▸ ha).ends_iff
      obtain rfl := (hends k).1 hk
      obtain ⟨T, t, hT, ht, hs⟩ := ih hU hn
      exact ⟨T, t, hT, by rw [play_cons, hu, Option.bind_some, ht], hs⟩

theorem Settled.shows (h : x.Settled g S s) : (x.place S).Shows x.runner x.bus x.log? s where
  runner := ⟨S.runner, x.runners_place S, h.current_eq, h.halted_eq, h.visits_eq, h.blackboard_eq⟩
  bus := ⟨S.bus, x.buses_place S, h.mem_pending_iff⟩
  quests := by
    rw [h.quests_eq]
    cases hl : x.log? with
    | none => rfl
    | some l => rw [Option.bind_some, x.logs_place S hl]; rfl

end Setting

namespace World

variable {σ : Type} {w : World (Script σ)} {g : Graph} {r b : Nat} {log? : Option Nat}

theorem set_of_getElem? {α : Type*} {l : List α} {i : Nat} {a : α} (h : l[i]? = some a) :
    l.set i a = l := by
  obtain ⟨hi, rfl⟩ := List.getElem?_eq_some_iff.1 h
  exact List.set_getElem_self hi

/-- A runner that is alone on its bus is a scene of its world. -/
theorem Solitary.exists_scene {s : Walk.State} (h : w.Solitary g r b log?)
    (hs : w.Shows r b log? s) (ha : s.attention = .nothing) (data : σ) :
    ∃ (x : Setting σ) (S : Scene σ), x.runner = r ∧ x.bus = b ∧ x.log? = log? ∧
      x.data = data ∧ x.place S = w ∧ x.Settled g S s := by
  obtain ⟨blackboard, exposed, hR⟩ := h.runner
  obtain ⟨pending, lastId, hB⟩ := h.bus
  have hlog : ∀ l ∈ log?, l < w.logs.length := by
    intro l hl
    obtain ⟨L, hL, -⟩ := h.log l hl
    exact (List.getElem?_eq_some_iff.1 hL).1
  let x : Setting σ :=
    { world := w, data, runner := r, bus := b, log?
      runner_lt := (List.getElem?_eq_some_iff.1 hR).1
      bus_lt := (List.getElem?_eq_some_iff.1 hB).1
      log_lt := hlog }
  -- Without a quest service any quest log will do, as long as nobody listens to it.
  obtain ⟨L, hL, hlisten⟩ : ∃ L : QuestLog (Script σ), (∀ l ∈ log?, w.logs[l]? = some L) ∧
      L.listeners = [] := by
    cases log? with
    | none => exact ⟨{}, by simp, rfl⟩
    | some l =>
        obtain ⟨L, hL, hlisten⟩ := h.log l rfl
        refine ⟨L, fun l' hl' => ?_, hlisten⟩
        obtain rfl := Option.some.inj hl'
        exact hL
  obtain ⟨R', hR', hcurrent, hhalted, hvisits, hboard⟩ := hs.runner
  obtain rfl := Option.some.inj (hR'.symm.trans hR)
  obtain ⟨B', hB', hpending⟩ := hs.bus
  obtain rfl := Option.some.inj (hB'.symm.trans hB)
  let S : Scene σ :=
    { runner := { graph := g, bus := b, limit := none, blackboard, exposed }
      bus := { pending, lastId, service := log?.map fun l => ⟨l, true⟩ }
      log := L }
  refine ⟨x, S, rfl, rfl, rfl, rfl, ?_, ?_⟩
  · have hlogs : log?.elim w.logs (fun l => w.logs.set l L) = w.logs := by
      cases log? with
      | none => rfl
      | some l => exact set_of_getElem? (hL l rfl)
    simp only [Setting.place, x, S, hlogs, set_of_getElem? hR, set_of_getElem? hB]
  · have hquests : s.quests = log?.map fun _ => L.state := by
      rw [hs.quests]
      cases log? with
      | none => rfl
      | some l => rw [Option.bind_some, hL l rfl]; rfl
    exact
      { bus_eq := rfl
        limit_eq := rfl
        runner_kept := rfl
        bus_kept := rfl
        service_eq := rfl
        graph_eq := rfl
        current_eq := hcurrent
        visit_eq := by simp
        halted_eq := hhalted
        visits_eq := hvisits
        armed_le := fun id hid => absurd hid List.not_mem_nil
        armed_nodup := List.nodup_nil
        blackboard_eq := hboard
        mem_pending_iff := hpending
        quests_eq := hquests
        hears := ha ▸ .nothing ⟨rfl, rfl, rfl, hlisten⟩ (by simp)
        queue_eq := rfl
        dispatching := rfl }

end World

/-- A runner without a limit that is alone on its bus does what a walk does. Whatever it is asked
from outside, one call after the other, the calls come to an end exactly if the walk does, and
then the runner shows the state of the walk. -/
theorem Machine.plays_iff_walk {σ : Type} {m : Machine σ} {g : Graph} {r b : Nat}
    {log? : Option Nat} {s : Walk.State} (hstack : m.stack = []) (hpanic : m.panic = none)
    (h : m.world.Solitary g r b log?) (hs : m.world.Shows r b log? s)
    (ha : s.attention = .nothing) (calls : List Walk.Call) :
    (∀ t, Walk.play g s calls = some t →
      ∃ n, Plays Builtin.registry m (calls.map fun c => c.script r b log?) n ∧
        n.world.Shows r b log? t) ∧
    ∀ n, Plays Builtin.registry m (calls.map fun c => c.script r b log?) n →
      ∃ t, Walk.play g s calls = some t ∧ n.world.Shows r b log? t := by
  obtain ⟨x, S, rfl, rfl, rfl, hdata, hw, hS⟩ := h.exists_scene hs ha m.data
  have hm : m = x.machine S [] := by
    obtain ⟨world, data, stack, panic⟩ := m
    dsimp only at hstack hpanic hdata hw
    rw [hstack, hpanic, ← hdata, ← hw]
    rfl
  rw [hm]
  constructor
  · intro t ht
    obtain ⟨T, hp, hT⟩ := hS.exists_plays ht
    exact ⟨x.machine T [], hp, hT.shows⟩
  · intro n hn
    obtain ⟨T, t, rfl, ht, hT⟩ := hS.exists_play hn
    exact ⟨t, ht, hT.shows⟩

def Graph.gate : Graph where
  start := some ⟨"gate"⟩
  nodes :=
    [{ kind := "wait_event", id := ⟨"gate"⟩, outputs := [some ⟨"hall"⟩]
       properties := ⟨[("key", .string "door")], by simp [Ascending]⟩ },
      { kind := "note", id := ⟨"hall"⟩ }]

theorem Machine.plays_gate :
    ∃ n, Plays Builtin.registry
        { world := { runners := [{ graph := .gate, bus := 0, limit := none }], buses := [{}] }
          data := () }
        [.start 0 fun _ => .stop, .raise 0 "door" .stop] n ∧
      n.world.Shows 0 0 none { current := some ⟨"hall"⟩, halted := true, visits := 2 } := by
  have hplay : Walk.play .gate {} [.start, .raise "door"] =
      some { current := some ⟨"hall"⟩, halted := true, visits := 2 } := by cbv
  refine (plays_iff_walk (g := .gate) (r := 0) (b := 0) rfl rfl ?_ ?_ rfl [.start, .raise "door"]).1
    _ hplay
  · exact ⟨⟨∅, ∅, rfl⟩, ⟨[], 0, rfl⟩, by simp⟩
  · exact ⟨⟨_, rfl, rfl, rfl, rfl, rfl⟩, ⟨_, rfl, fun key => by simp⟩, rfl⟩

end StoryGraph
