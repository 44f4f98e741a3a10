import StoryGraph.Proofs.Flow.Delivery
import StoryGraph.Proofs.Flow.Registered
import StoryGraph.Proofs.Flow.Words

/-!
# One raise completes one wait

Three things keep a raise from waking a runner twice: those who are called are known when the raise
begins, a node has one chance to say that it is done, and what it says counts in its own visit only.

The first says whom a raise may find. When it begins, those who listen are the nodes that wait in
visits that go on, one for each runner (`Machine.waiting_of_listener`, `Machine.nodup_listeners`),
and the delivery calls them one after the other, whatever is nested in it
(`Machine.calls_of_raise`).

The other two say when a call completes a visit. A node that has begun to wait is through with its
being entered before anything else goes on (`Machine.Poised`). So its runner rests when the node is
called, and hears at once what the node says (`Machine.Composed.completes`). A chance that was
there when the raise began and is gone by the node's turn was used by another raise, which completed
the visit (`Machine.Heedful.exists_completes`). Together they say what a turn does
(`Machine.Heedful.completes_iff`).

Whom a raise finds is read off the books of the session, which numbers that are given back unfairly
may spoil. What becomes of the turns of those who have been found does not depend on it.
-/

namespace StoryGraph

variable {σ : Type}

open Builtin (Wait)

theorem Runner.visit?_stance (R : Runner (Script σ)) :
    R.stance.current.map Current.visit = R.visit? := by
  rw [stance, map, visit?, Option.map_map]
  rfl

namespace Machine

variable {kinds : Registry (Behaviour σ)} {b r visit : Nat} {past : List (Machine σ)}
  {m n k : Machine σ} {R : Runner (Script σ)} {below : List (Frame σ)} {w : Wait} {key : String}

/-! ### Nodes that have begun to wait -/

inductive Returning (r visit : Nat) : List (Frame σ) → Prop where
  | lays (leave : Script σ) (below : List (Frame σ)) :
    Returning r visit (.run (.onLeave r visit leave .stop) :: .entering r visit :: below)
  | stops (below : List (Frame σ)) : Returning r visit (.run .stop :: .entering r visit :: below)
  | returns (below : List (Frame σ)) : Returning r visit (.entering r visit :: below)

theorem Conducted.not_mem_of_entering (h : Conducted kinds r m) {visit' : Nat}
    (hm : m.stack = .entering r visit :: below) : .entering r visit' ∉ below := by
  have hmem : .entering r visit ∈ m.stack := hm ▸ List.mem_cons_self
  obtain ⟨g, a, past, h⟩ := h.exists_conduct hmem
  obtain ⟨⟨entered, rfl⟩, -⟩ := h.current_of_entering hmem
  obtain ⟨rest, hstack, hrest⟩ := h.eq_frames_append hm rfl
  obtain ⟨-, rfl⟩ := List.cons.inj hstack
  intro hbelow
  rcases List.mem_cons.1 hbelow with hbelow | hbelow
  · cases hbelow
  · exact hrest _ hbelow rfl

theorem Returning.next (h : Returning r visit m.stack)
    (hcaught : m.panic ≠ none → ∀ f ∈ m.stack.head?, f.Catches) (hr : Conducted kinds r m)
    (hn : Next kinds m k) (hmem : .entering r visit ∈ k.stack) : Returning r visit k.stack := by
  have hp : m.panic = none := by
    by_contra hp
    generalize m.stack = stack at h hcaught
    cases h <;> cases hcaught hp _ rfl
  generalize hm : m.stack = stack at h
  cases h with
  | lays leave below =>
      rw [eq_resume_of_next hm hp hn]
      simp only [resume, perform]
      split
      · exact .stops below
      · exact .stops below
  | stops below =>
      rw [eq_resume_of_next hm hp hn]
      exact .returns below
  | returns below =>
      rw [eq_resume_of_next hm hp hn] at hmem
      exact absurd hmem (hr.not_mem_of_entering hm)

/-- A node that begins to wait is called because it is entered, and the call is about to return. -/
theorem Begins.returning (h : m.Begins b r visit w) (hr : Conducted Builtin.registry r m)
    (hn : Next Builtin.registry m k) :
    (∃ R ∈ m.world.runners[r]?, visit ≤ R.visits) ∧ Returning r visit k.stack := by
  obtain ⟨below, hm⟩ := h.stack
  refine ⟨?_, ?_⟩
  · have hmem : .entering r visit ∈ m.stack := by
      rw [hm]
      exact List.mem_cons_of_mem _ List.mem_cons_self
    obtain ⟨g, a, past, hconduct⟩ := hr.exists_conduct hmem
    obtain ⟨-, R, hR, hvisits, -⟩ := hconduct.current_of_entering hmem
    exact ⟨R, hR, hvisits.ge⟩
  · let v : Visit := ⟨r, b, visit⟩
    let n : Machine σ := { m with stack := .entering r visit :: below }
    have hwait : n.perform (w.script v) = n.wait b (Builtin.done v) (w.hold v) w := by
      cases w <;> rfl
    have hwaited := n.waited_wait b w (w.hold v) (Script.called_done v)
    have hk : k = n.wait b (Builtin.done v) (w.hold v) w := by
      rw [eq_resume_of_next hm h.panic hn, ← hwait]
      rfl
    rw [← hk] at hwaited
    obtain ⟨B, hB, hunmet⟩ := h.unmet
    cases hwaited with
    | alone hB' => exact absurd (hB.symm.trans hB') (Option.some_ne_none B)
    | met hB' hmeets edits =>
        obtain rfl := Option.some.inj (hB.symm.trans hB')
        exact absurd hmeets hunmet
    | listed hB' hmeets edits => exact .lays _ below

/-- Whoever waits does so in a visit that is not new, and the call to the node is about to return if
it has not. -/
def Poised (b : Nat) (past : List (Machine σ)) (m : Machine σ) : Prop :=
  ∀ r visit w, Waits b past r visit w → (∃ R ∈ m.world.runners[r]?, visit ≤ R.visits) ∧
    (.entering r visit ∈ m.stack → Returning r visit m.stack)

theorem Poised.next (h : Poised b past m) (hm : m.Composed) (hn : Next Builtin.registry m n) :
    Poised b (m :: past) n := by
  have hvisits : ∀ {r visit : Nat}, (∃ R ∈ m.world.runners[r]?, visit ≤ R.visits) →
      ∃ R ∈ n.world.runners[r]?, visit ≤ R.visits := by
    rintro r visit ⟨R, hR, hle⟩
    obtain ⟨R', hR', hkeeps⟩ := exists_keeps_of_next hR hn
    exact ⟨R', hR', hle.trans hkeeps.visits⟩
  intro r visit w hw
  have hconducted := hm.conducted r
  rcases hw with hbegins | ⟨hw, -⟩
  · obtain ⟨hold, hreturning⟩ := hbegins.returning hconducted hn
    exact ⟨hvisits hold, fun _ => hreturning⟩
  · obtain ⟨hold, hreturning⟩ := h r visit w hw
    refine ⟨hvisits hold, fun hmem => ?_⟩
    obtain ⟨R, hR, hle⟩ := hold
    obtain ⟨f, below, hstack, -⟩ := exists_of_next hn
    obtain ⟨new, hstack', hnew⟩ := exists_new_of_next hstack hn
    have hbefore : .entering r visit ∈ m.stack := by
      rw [hstack'] at hmem
      rcases List.mem_append.1 hmem with hmem | hmem
      · obtain ⟨R', hR', rfl⟩ := hnew r visit hmem
        obtain rfl := Option.some.inj (hR.symm.trans hR')
        exact absurd hle (Nat.not_succ_le_self _)
      · exact hstack ▸ List.mem_cons_of_mem _ hmem
    exact (hreturning hbefore).next hm.covered.caught hconducted hn hmem

/-! ### Every moment -/

/-- What is known of those who wait at every moment, fair or not: no word of a runner without a limit
may be heard twice, and nobody begins to wait without coming to rest. -/
structure Heedful (b : Nat) (past : List (Machine σ)) (m : Machine σ) : Prop extends
    Composed m where
  hears : ∀ r : Nat, ∀ R ∈ m.world.runners[r]?, R.limit = none → R.Hears []
  poised : Poised b past m

theorem Heedful.next (h : m.Heedful b past) (hn : Next Builtin.registry m n) :
    n.Heedful b (m :: past) := by
  refine ⟨h.toComposed.next hn, fun r R' hR' hlimit => ?_, h.poised.next h.toComposed hn⟩
  rcases keeps_or_fresh hn hR' with ⟨R, hR, hkeeps⟩ | ⟨-, hfresh⟩
  · have hbefore := hkeeps.limit.symm.trans hlimit
    obtain ⟨S, hS, hturns⟩ := exists_turns_of_next hR hbefore hn
    obtain rfl := Option.some.inj (hR'.symm.trans hS)
    exact ((h.hears r R hR hbefore).turns hturns).unsaid
  · exact hfresh.hears

theorem Chronicle.heedful (h : Chronicle Builtin.registry m past n) (hm : m.Fresh) :
    n.Heedful b past := by
  induction h with
  | refl =>
      refine ⟨hm.composed, fun r R hR _ => ?_, fun r visit w hw => hw.elim⟩
      exact (hm.runners R (List.mem_of_getElem? hR)).hears
  | step h fair next ih => exact ih.next next
  | call h rests outside ih =>
      refine ⟨ih.toComposed.call rests _, ih.hears, fun r visit w hw => ?_⟩
      refine ⟨(ih.poised r visit w hw).1, fun hmem => ?_⟩
      cases List.mem_singleton.1 hmem

/-- A node goes on to wait for an event as long as its visit lasts. -/
theorem Heedful.leads (h : m.Heedful b past) (hl : Leads Builtin.registry m n) :
    ∃ past', n.Heedful b past' ∧ ∀ r visit key,
      Waits b past r visit (.event key) → Waits b past' r visit (.event key) := by
  induction hl with
  | refl => exact ⟨past, h, fun _ _ _ hw => hw⟩
  | @tail n k _ next ih =>
      obtain ⟨past', h', hwaits⟩ := ih
      refine ⟨n :: past', h'.next next, fun r visit key hw => .inr ⟨hwaits r visit key hw, ?_⟩⟩
      intro hnotifies
      obtain ⟨s, below, judge, -, -, B, -, hdue⟩ := hnotifies.judged
      cases hdue

/-! ### Words that are given while the runner rests -/

theorem Conduct.isAlive {g : Graph} {a : Activity} {happened : List Happening}
    (h : Conduct kinds g r a happened m) (hR : R ∈ m.world.runners[r]?)
    (hcurrent : R.stance.current ≠ none) : R.isAlive = true := by
  obtain ⟨R', hR', hs⟩ := h.runner
  obtain rfl := Option.some.inj (hR.symm.trans hR')
  have hover : R.lifetime ≠ .over := by
    cases a with
    | resting => exact mt hs.suits.2.2.2.1 hcurrent
    | working | leaving | entering => exact hs.suits.2.1
    | exiting => exact absurd hs.suits.2.2.1 hcurrent
  simpa [Runner.isAlive] using hover

/-- A runner whose node is not called while a visit goes on rests, unless it is about to do
something. -/
theorem Conduct.rests {g : Graph} {a : Activity} {happened : List Happening}
    (h : Conduct kinds g r a happened m) (hR : R ∈ m.world.runners[r]?)
    (hvisit : R.visit? = some visit) (hout : .entering r visit ∉ m.stack) {f : Frame σ}
    (hm : m.stack = f :: below) (hf : f.runner? ≠ some r) :
    R.dispatching = false ∧ R.queue = [] ∧ R.isAlive = true := by
  obtain ⟨R', hR', hs⟩ := h.runner
  obtain rfl := Option.some.inj (hR.symm.trans hR')
  have hsuits := hs.suits
  have hcurrent : R.stance.current ≠ none := by
    intro hnone
    rw [← R.visit?_stance, hnone] at hvisit
    cases hvisit
  have hidle : ¬a.Busy := (h.pop hm hf).2
  cases a with
  | resting =>
      obtain ⟨hd, hq, -⟩ := hsuits
      exact ⟨hd, hq, h.isAlive hR hcurrent⟩
  | working | leaving => exact absurd trivial hidle
  | entering visit' entered =>
      obtain ⟨above, rest, hstack, -⟩ := h.stack
      have hmem : .entering r visit' ∈ m.stack := by
        rw [hstack]
        exact List.mem_append_right _ List.mem_cons_self
      obtain ⟨-, R', hR', -, -, -, hvisit'⟩ := h.current_of_entering hmem
      obtain rfl := Option.some.inj (hR.symm.trans hR')
      rw [R.visit?_stance, hvisit] at hvisit'
      exact absurd (Option.some.inj hvisit' ▸ hmem) hout
  | exiting => exact absurd hsuits.2.2.1 hcurrent

/-- A runner without a limit conducts itself. -/
theorem Composed.exists_conduct (h : m.Composed) (hR : R ∈ m.world.runners[r]?)
    (hlimit : R.limit = none) : ∃ g a happened, Conduct Builtin.registry g r a happened m := by
  rcases h.conducted r with hconduct | hbarred | habsent
  · exact hconduct
  · obtain ⟨R', hR', hzero, -⟩ := hbarred.runner
    obtain rfl := Option.some.inj (hR.symm.trans hR')
    rw [hlimit] at hzero
    cases hzero
  · cases habsent.runner.symm.trans hR

def InVisit (r visit : Nat) (m : Machine σ) : Prop :=
  ∃ R ∈ m.world.runners[r]?, R.visit? = some visit

theorem inVisit_of_visit? (h : (m.visit? r).map Prod.fst = some visit) : m.InVisit r visit := by
  obtain ⟨v, hv, rfl⟩ := Option.map_eq_some_iff.1 h
  obtain ⟨c, hc, rfl⟩ := Option.map_eq_some_iff.1 hv
  obtain ⟨R, hR, hcurrent⟩ := Option.bind_eq_some_iff.1 hc
  exact ⟨R, hR, congrArg (Option.map Current.visit) hcurrent⟩

def Armed (r visit : Nat) (m : Machine σ) : Prop := ∃ R ∈ m.world.runners[r]?, visit ∈ R.armed

/-- In the next step a runner hears, in a visit, that the node is done. -/
def Completes (r visit : Nat) (m : Machine σ) : Prop :=
  m.InVisit r visit ∧ ∃ move, m.taken? r = some (.done visit, move)

/-- A live runner that rests begins to work off its queue when it is given a task. -/
theorem submit_of_rests (hR : R ∈ m.world.runners[r]?) (halive : R.isAlive = true)
    (hd : R.dispatching = false) (task : Task) : m.submit r task =
      (m.setRunner r { R with queue := R.queue ++ [task], dispatching := true }).push
        (.dispatch r 0) := by
  unfold submit
  rw [Option.mem_def.1 hR]
  simp [halive, hd]

/-- A word that is given while the runner rests is heard at once. -/
theorem Composed.completes (h : m.Composed) (hu : m.Unlimited r) (hin : m.InVisit r visit)
    (harmed : m.Armed r visit) (hout : .entering r visit ∉ m.stack) {next : Bool → Script σ}
    (hm : m.stack = .run (.done r visit next) :: below) (hp : m.panic = none)
    (hn : Next kinds m k) : k.Completes r visit := by
  obtain ⟨R, hR, hlimit⟩ := hu
  obtain ⟨R', hR', hvisit⟩ := hin
  obtain rfl := Option.some.inj (hR.symm.trans hR')
  obtain ⟨R', hR', hmem⟩ := harmed
  obtain rfl := Option.some.inj (hR.symm.trans hR')
  obtain ⟨g, a, happened, hconduct⟩ := h.exists_conduct hR hlimit
  obtain ⟨hd, hq, halive⟩ := hconduct.rests hR hvisit hout hm (Option.some_ne_none r).symm
  let S : Runner (Script σ) := { R with armed := R.armed.erase visit }
  let n : Machine σ := ({ m with stack := below }.setRunner r S).push (.run (next true))
  have hS : S ∈ n.world.runners[r]? := runners_setRunner (m := { m with stack := below }) hR S
  have hk : k = n.submit r (.done visit) := by
    rw [eq_resume_of_next hm hp hn]
    simp only [resume, perform, done, Option.mem_def.1 hR, if_pos hmem]
    rfl
  rw [submit_of_rests hS halive hd] at hk
  let S' : Runner (Script σ) := { S with queue := S.queue ++ [.done visit], dispatching := true }
  have hS' : S' ∈ k.world.runners[r]? := hk ▸ runners_setRunner (m := n) hS S'
  refine ⟨⟨S', hS', hvisit⟩, S'.move (.done visit), ?_⟩
  have hpk : k.panic = none := by
    rw [hk]
    exact hp
  have hstack : k.stack = .dispatch r 0 :: n.stack := by rw [hk]; rfl
  have hqueue : S'.queue = [.done visit] := by
    show R.queue ++ [.done visit] = [.done visit]
    rw [hq, List.nil_append]
  rw [taken?_of_dispatch hstack hpk hS', hqueue]
  rfl

/-! ### Words that are given in the meantime -/

theorem exists_of_given? (h : m.given? r = some visit) :
    m.panic = none ∧ ∃ next below, m.stack = .run (.done r visit next) :: below := by
  unfold given? at h
  split at h
  · rename_i r' visit' next below hp hm
    split at h
    · rename_i hr
      obtain rfl := Option.some.inj h
      exact ⟨hp, next, below, hr ▸ hm⟩
    · cases h
  · cases h

/-- A chance that has been used between two moments was used at a moment between them. -/
theorem exists_given_of_leads (hl : Leads kinds m n) (hR : R ∈ m.world.runners[r]?)
    (hlimit : R.limit = none) (hv : visit ∈ R.armed) (hn : ¬n.Armed r visit) :
    ∃ i j, Leads kinds m i ∧ Next kinds i j ∧ Leads kinds j n ∧ i.Armed r visit ∧
      i.given? r = some visit := by
  induction hl using Relation.ReflTransGen.head_induction_on generalizing R with
  | refl => exact absurd ⟨R, hR, hv⟩ hn
  | @head m k next hl ih =>
      obtain ⟨R', hR', hturns⟩ := exists_turns_of_next hR hlimit next
      by_cases hv' : visit ∈ R'.armed
      · have hlimit' := ((Runner.Later.refl R).turns hturns).limit.trans hlimit
        obtain ⟨i, j, hi, hrest⟩ := ih hR' hlimit' hv'
        exact ⟨i, j, hi.head next, hrest⟩
      · exact ⟨m, k, .refl, next, hl, ⟨R, hR, hv⟩, hturns.given_of_armed hv hv'⟩

/-- Once a node has begun to wait, the call to it has returned whenever anything else goes on. -/
theorem Heedful.not_mem_entering (h : m.Heedful b past) (hw : Waits b past r visit w)
    {s : Script σ} (hm : m.stack = .run s :: below) (hstop : s ≠ .stop)
    (hlays : ∀ leave, s ≠ .onLeave r visit leave .stop) : .entering r visit ∉ m.stack := by
  intro hmem
  have hreturning := (h.poised r visit w hw).2 hmem
  rw [hm] at hreturning
  cases hreturning with
  | lays leave => exact hlays leave rfl
  | stops => exact hstop rfl

/-- A visit that goes on after it has begun to be waited in went on all the time, and a chance that
is left was there all the time. -/
theorem Heedful.before (h : m.Heedful b past) (hu : m.Unlimited r) (hw : Waits b past r visit w)
    (hl : Leads kinds m n) : (n.InVisit r visit → m.InVisit r visit) ∧
      (n.Armed r visit → m.Armed r visit) := by
  obtain ⟨R, hR, hlimit⟩ := hu
  obtain ⟨S, hS, hle⟩ := (h.poised r visit w hw).1
  obtain rfl := Option.some.inj (hR.symm.trans hS)
  obtain ⟨R', hR', hlater⟩ := later_of_leads hl hR hlimit
  constructor
  · rintro ⟨S, hS, hvisit⟩
    obtain rfl := Option.some.inj (hR'.symm.trans hS)
    exact ⟨R, hR, hlater.visit visit hle hvisit⟩
  · rintro ⟨S, hS, harmed⟩
    obtain rfl := Option.some.inj (hR'.symm.trans hS)
    exact ⟨R, hR, hlater.armed visit hle harmed⟩

/-- A visit in which a node waits for an event has been completed if the node has used its chance
in the meantime. -/
theorem Heedful.exists_completes (h : m.Heedful b past) (hu : m.Unlimited r)
    (hw : Waits b past r visit (.event key)) (harmed : m.Armed r visit)
    (hl : Leads Builtin.registry m n) (hin : n.InVisit r visit) (hnot : ¬n.Armed r visit) :
    ∃ i, Leads Builtin.registry m i ∧ Leads Builtin.registry i n ∧ i.Completes r visit := by
  obtain ⟨R, hR, hlimit⟩ := id hu
  obtain ⟨S, hS, hmem⟩ := harmed
  obtain rfl := Option.some.inj (hR.symm.trans hS)
  obtain ⟨i, j, hi, hnext, hj, harmed, hgiven⟩ := exists_given_of_leads hl hR hlimit hmem hnot
  have hu' := hu.leads hi
  obtain ⟨hp, next, below, hstack⟩ := exists_of_given? hgiven
  obtain ⟨past', h', hwaits⟩ := h.leads hi
  have hw' := hwaits r visit key hw
  have hout : .entering r visit ∉ i.stack :=
    h'.not_mem_entering hw' hstack (by simp) (by simp)
  have hin' : i.InVisit r visit := (h'.before hu' hw' (hj.head hnext)).1 hin
  exact ⟨j, hi.tail hnext, hj, h'.completes hu' hin' harmed hout hstack hp hnext⟩

/-- Once a visit is completed its node has used its chance. -/
theorem Heedful.not_armed (h : m.Heedful b past) (hu : m.Unlimited r) (hc : m.Completes r visit)
    (hl : Leads kinds m n) : ¬n.Armed r visit := by
  rintro ⟨R', hR', hv⟩
  obtain ⟨S, hS, hlimit⟩ := hu
  obtain ⟨-, move, htaken⟩ := hc
  obtain ⟨R, hR, queue, entered, stack, hqueue, -⟩ := exists_of_taken? htaken
  obtain rfl := Option.some.inj (hR.symm.trans hS)
  have hhears := h.hears r R hR hlimit
  obtain ⟨R'', hR'', hlater⟩ := later_of_leads hl hR hlimit
  obtain rfl := Option.some.inj (hR'.symm.trans hR'')
  have hword : visit ∈ R.queue.filterMap Task.word? := by
    rw [hqueue]
    exact List.mem_cons_self
  have honce : (R.armed ++ R.queue.filterMap Task.word?).Nodup := hhears.once
  have hold : visit ≤ R.visits := hhears.old visit (List.mem_append_right R.armed hword)
  exact (List.nodup_append.1 honce).2.2 visit (hlater.armed visit hold hv) visit hword rfl

/-! ### Those whom a raise finds -/

theorem Waiting.waits (h : m.Waiting b past r w) (hin : m.InVisit r visit) :
    Waits b past r visit w := by
  obtain ⟨R, hR, -, -, c, hc, -, hw⟩ := h
  obtain ⟨R', hR', hvisit⟩ := hin
  obtain rfl := Option.some.inj (hR.symm.trans hR')
  rw [Runner.visit?, Option.mem_def.1 hc, Option.map_some] at hvisit
  exact Option.some.inj hvisit ▸ hw

theorem InVisit.eq {visit' : Nat} (h : m.InVisit r visit) (h' : m.InVisit r visit') :
    visit = visit' := by
  obtain ⟨R, hR, hvisit⟩ := h
  obtain ⟨R', hR', hvisit'⟩ := h'
  obtain rfl := Option.some.inj (hR.symm.trans hR')
  exact Option.some.inj (hvisit.symm.trans hvisit')

theorem page?_raise (m : Machine σ) (b : Nat) (key : String) :
    (m.raise b key).world.page? = m.world.page? := by
  unfold raise
  split
  · rfl
  · rename_i B hB
    split
    · refine World.page?_setBus_of_eq (World.getElem?_of_bus? hB) ?_
      unfold Bus.hold
      split <;> rfl
    · rfl

/-- When an event is raised the page of the bus is in order. -/
theorem Kept.ledger_of_raise (h : Kept b past n) {next : Script σ}
    (hn : n.stack = .run (.raise b key next) :: below) (hp : n.panic = none) :
    ∃ p ∈ n.world.page? b, Ledger b (Waits b past) n.world.card? p := by
  rcases h.nearly with hbalanced | ⟨-, k, hk, hbalanced⟩
  · exact hbalanced.ledger
  · have hledger := hbalanced.ledger
    have hk' : k = (({ n with stack := below } : Machine σ).push (.run next)).raise b key :=
      eq_resume_of_next hn hp hk
    rw [hk', page?_raise, World.card?_congr (atBuses_raise _ _ _).runners] at hledger
    exact hledger

section Found

variable {B : Bus (Script σ)} (hB : m.world.bus? b = some B)
  (hledger : ∃ p ∈ m.world.page? b, Ledger b (Waits b past) m.world.card? p)

include hB hledger

/-- Whoever is called for a visit waits for the event in that visit. -/
theorem waiting_of_listener {s : Script σ} (hlistens : s ∈ B.listeners key)
    (hs : s.speaker? = some (r, visit)) :
    m.Waiting b past r (.event key) ∧ m.InVisit r visit := by
  rw [Bus.listeners_eq] at hlistens
  obtain ⟨e, he, rfl⟩ := List.mem_map.1 hlistens
  obtain ⟨he, hwait⟩ := List.mem_filter.1 he
  obtain ⟨hwaiting, hvisit⟩ := waiting_of_speaker hB hledger he hs
  exact ⟨of_decide_eq_true hwait ▸ hwaiting, inVisit_of_visit? hvisit⟩

theorem exists_listener (hw : m.Waiting b past r (.event key)) (hin : m.InVisit r visit) :
    ∃ s ∈ B.listeners key, s.speaker? = some (r, visit) := by
  obtain ⟨p, hpage, hledger⟩ := hledger
  obtain ⟨B', hB', -, rfl⟩ := World.exists_bus?_of_mem_page? hpage
  obtain rfl := Option.some.inj (hB.symm.trans hB')
  obtain ⟨R, hR, -, hbus, c, hc, -, hwaits⟩ := hw
  obtain ⟨R', hR', hvisit⟩ := hin
  obtain rfl := Option.some.inj (hR.symm.trans hR')
  obtain rfl : c.visit = visit := by
    rw [Runner.visit?, Option.mem_def.1 hc, Option.map_some] at hvisit
    exact Option.some.inj hvisit
  obtain ⟨e, he, hwait, hs⟩ := hledger.found r _ (World.mem_card? hR) hbus c hc _ hwaits
  refine ⟨e.callback, ?_, hs⟩
  rw [Bus.listeners_eq]
  exact List.mem_map_of_mem (List.mem_filter.2 ⟨he, decide_eq_true hwait⟩)

/-- No runner is called for two visits. -/
theorem nodup_listeners (key : String) :
    ((B.listeners key).filterMap fun s => s.speaker?.map Prod.fst).Nodup := by
  obtain ⟨p, hpage, hledger⟩ := hledger
  obtain ⟨B', hB', -, rfl⟩ := World.exists_bus?_of_mem_page? hpage
  obtain rfl := Option.some.inj (hB.symm.trans hB')
  rw [Bus.listeners_eq, List.filterMap_map, List.Nodup, List.pairwise_filterMap]
  have hentries : (B.entries.filter fun e => decide (e.wait = .event key)).Nodup :=
    (List.Nodup.of_map _ hledger.numbered.nodup).filter _
  refine hentries.imp_of_mem fun {e e'} he he' hne r hr r' hr' heq => hne ?_
  obtain ⟨⟨r₁, visit⟩, hs, rfl⟩ := Option.map_eq_some_iff.1 hr
  obtain ⟨⟨r₂, visit'⟩, hs', rfl⟩ := Option.map_eq_some_iff.1 hr'
  obtain rfl : r₁ = r₂ := heq
  exact hledger.eq_of_speaker (List.mem_of_mem_filter he) (List.mem_of_mem_filter he') hs hs'

end Found

/-! ### One raise -/

variable {calls : List (Machine σ × Script σ)} {t : Machine σ} {base : List (Frame σ)}

/-- Whoever speaks for a visit in which the node waits completes it when it is called, if the visit
goes on and the node has not used its chance. -/
theorem Heedful.completes_of_turn (h : m.Heedful b past) (hu : m.Unlimited r)
    (hw : Waits b past r visit (.event key)) {bus : Option Nat} {s : Script σ}
    {rest : List (Script σ)} (hm : m.stack = .deliver bus (s :: rest) :: base)
    (hp : m.panic = none) (hs : s.speaker? = some (r, visit)) (hin : m.InVisit r visit)
    (harmed : m.Armed r visit) : ∃ k, Leads Builtin.registry m k ∧ k.Completes r visit := by
  obtain ⟨next, rfl⟩ := Script.exists_of_speaker? hs
  let n : Machine σ := { m with stack := .run (.done r visit next) :: .deliver bus rest :: base }
  have hcall : Next Builtin.registry m n := next_resume hm hp
  have hword : Next Builtin.registry n _ := next_resume rfl hp
  obtain ⟨past', h', hwaits⟩ := h.leads (.single hcall)
  have hout : .entering r visit ∉ n.stack :=
    h'.not_mem_entering (hwaits r visit key hw) rfl (by simp) (by simp)
  exact ⟨_, (Relation.ReflTransGen.single hcall).tail hword,
    h'.completes (hu.leads (.single hcall)) hin harmed hout rfl hp hword⟩

/-- The turn of a node that waits completes the visit if the node had its chance before, the visit
goes on, and nothing has completed it in the meantime. -/
theorem Heedful.completes_iff (h : n.Heedful b past) (hu : n.Unlimited r)
    (hw : Waits b past r visit (.event key)) (hl : Leads Builtin.registry n m) {bus : Option Nat}
    {s : Script σ} {rest : List (Script σ)} (hm : m.stack = .deliver bus (s :: rest) :: base)
    (hp : m.panic = none) (hs : s.speaker? = some (r, visit)) :
    (m.Armed r visit ∧ ∃ k, Leads Builtin.registry m k ∧ k.Completes r visit) ↔
      n.Armed r visit ∧ m.InVisit r visit ∧
        ∀ i, Leads Builtin.registry n i → Leads Builtin.registry i m → ¬i.Completes r visit := by
  obtain ⟨past', h', hwaits⟩ := h.leads hl
  have hw' := hwaits r visit key hw
  have hu' := hu.leads hl
  constructor
  · rintro ⟨harmed, k, hk, hcompletes⟩
    refine ⟨(h.before hu hw hl).2 harmed, (h'.before hu' hw' hk).1 hcompletes.1, ?_⟩
    intro i hi hlast hdone
    obtain ⟨_, hheedful, -⟩ := h.leads hi
    exact hheedful.not_armed (hu.leads hi) hdone hlast harmed
  · rintro ⟨harmed, hin, hnot⟩
    have harmed' : m.Armed r visit := by
      by_contra hused
      obtain ⟨i, hi, hlast, hdone⟩ := h.exists_completes hu hw harmed hl hin hused
      exact hnot i hi hlast hdone
    exact ⟨harmed', h'.completes_of_turn hu' hw' hm hp hs hin harmed'⟩

/-- Among those who are called is one who speaks for a visit. What it says has not been said before,
and is heard in that visit. -/
def CompletedBy (kinds : Registry (Behaviour σ)) (calls : List (Machine σ × Script σ))
    (r visit : Nat) : Prop :=
  ∃ c ∈ calls, c.2.speaker? = some (r, visit) ∧ c.1.Armed r visit ∧
    ∃ k, Leads kinds c.1 k ∧ k.Completes r visit

/-- A raise completes the visits of runners without a limit whose nodes waited for the event when it
began and had not been completed, and which have neither ended nor been completed when their turn
comes. No runner has more than one turn, and that is for the visit in which its node waited when the
raise began. -/
theorem Chronicle.raise_completes_once (h : Chronicle Builtin.registry m past n) (hm : m.Fresh)
    (hb : b < m.world.buses.length) {next : Script σ}
    (hn : n.stack = .run (.raise b key next) :: below) (hp : n.panic = none)
    (hk : Next Builtin.registry n k)
    (hd : Delivers Builtin.registry (.run next :: below) k calls t) :
    (∀ r visit, (∀ R ∈ n.world.runners[r]?, R.limit = none) →
      (CompletedBy Builtin.registry calls r visit ↔
        n.Waiting b past r (.event key) ∧ n.InVisit r visit ∧ n.Armed r visit ∧
          ∃ c ∈ calls, c.2.speaker? = some (r, visit) ∧ c.1.InVisit r visit ∧
            ∀ i, Leads Builtin.registry n i → Leads Builtin.registry i c.1 →
              ¬i.Completes r visit)) ∧
    (∀ r visit visit', CompletedBy Builtin.registry calls r visit →
      CompletedBy Builtin.registry calls r visit' → visit = visit') ∧
    (∀ c ∈ calls, ∀ r visit, c.2.speaker? = some (r, visit) →
      n.Waiting b past r (.event key) ∧ n.InVisit r visit) ∧
    (calls.filterMap fun c => c.2.speaker?.map Prod.fst).Nodup ∧
    (t.stack = .run next :: below → ∀ r visit, n.Waiting b past r (.event key) →
      n.InVisit r visit → ∃ c ∈ calls, c.2.speaker? = some (r, visit)) := by
  have hheedful := h.heedful (b := b) hm
  have hledger := (h.kept hm hb).ledger_of_raise hn hp
  obtain ⟨p, hpage, -⟩ := id hledger
  obtain ⟨B, hB, -⟩ := World.exists_bus?_of_mem_page? hpage
  obtain ⟨⟨rest, hcalls, hover⟩, hturns⟩ := calls_of_raise hB hn hp hk hd
  have hfound : ∀ c ∈ calls, ∀ r visit, c.2.speaker? = some (r, visit) →
      n.Waiting b past r (.event key) ∧ n.InVisit r visit := by
    intro c hc r visit hs
    have hlistens : c.2 ∈ B.listeners key :=
      hcalls ▸ List.mem_append_left rest (List.mem_map_of_mem hc)
    exact waiting_of_listener hB hledger hlistens hs
  have hturn : ∀ c ∈ calls, ∀ r visit, c.2.speaker? = some (r, visit) →
      n.Waiting b past r (.event key) → n.InVisit r visit →
      (∀ R ∈ n.world.runners[r]?, R.limit = none) →
      ((c.1.Armed r visit ∧ ∃ k, Leads Builtin.registry c.1 k ∧ k.Completes r visit) ↔
        n.Armed r visit ∧ c.1.InVisit r visit ∧ ∀ i, Leads Builtin.registry n i →
          Leads Builtin.registry i c.1 → ¬i.Completes r visit) := by
    intro c hc r visit hs hwaiting hin hlimit
    obtain ⟨hlc, hpc, rest, hstack⟩ := hturns c hc
    obtain ⟨R, hR, -⟩ := id hin
    exact hheedful.completes_iff ⟨R, hR, hlimit R hR⟩ (hwaiting.waits hin) hlc hstack hpc hs
  refine ⟨fun r visit hlimit => ⟨?_, ?_⟩, ?_, hfound, ?_, ?_⟩
  · rintro ⟨c, hc, hs, hcompletes⟩
    obtain ⟨hwaiting, hin⟩ := hfound c hc r visit hs
    obtain ⟨harmed, hrest⟩ := (hturn c hc r visit hs hwaiting hin hlimit).1 hcompletes
    exact ⟨hwaiting, hin, harmed, c, hc, hs, hrest⟩
  · rintro ⟨hwaiting, hin, harmed, c, hc, hs, hrest⟩
    exact ⟨c, hc, hs, (hturn c hc r visit hs hwaiting hin hlimit).2 ⟨harmed, hrest⟩⟩
  · rintro r visit visit' ⟨c, hc, hs, -⟩ ⟨c', hc', hs', -⟩
    exact (hfound c hc r visit hs).2.eq (hfound c' hc' r visit' hs').2
  · have hnodup := nodup_listeners hB hledger key
    rw [← hcalls, List.filterMap_append, List.filterMap_map] at hnodup
    exact (List.nodup_append.1 hnodup).1
  · intro hthrough r visit hwaiting hin
    obtain ⟨s, hlistens, hs⟩ := exists_listener hB hledger hwaiting hin
    rw [← hcalls, hover hthrough, List.append_nil] at hlistens
    obtain ⟨c, hc, rfl⟩ := List.mem_map.1 hlistens
    exact ⟨c, hc, hs⟩

def hark (id next : String) : Node :=
  { kind := "wait_event", id := ⟨id⟩, outputs := [some ⟨next⟩]
    properties := ⟨[("key", .string "call")], by simp [Ascending]⟩ }

def echo : Machine Unit where
  world :=
    { runners :=
        [{ bus := 0, limit := none
           graph :=
             { start := some ⟨"a"⟩
               nodes :=
                 [hark "a" "b",
                  { kind := "raise_event", id := ⟨"b"⟩, outputs := [some ⟨"c"⟩]
                    properties := ⟨[("key", .string "call")], by simp [Ascending]⟩ },
                  hark "c" "a"] } },
          { bus := 0, limit := none
            graph := { start := some ⟨"d"⟩, nodes := [hark "d" "e", hark "e" "d"] } }]
      buses := [{}] }
  data := ()

def beginEcho : Script Unit := .start 0 fun _ => .start 1 fun _ => .raise 0 "call" .stop

/-- The raise that is nested in the first one completes the visit of the second runner. -/
theorem raise_completes_once_echo : ∃ past n k calls t,
    Chronicle Builtin.registry echo past n ∧ n.stack = [.run (.raise 0 "call" .stop)] ∧
      Next Builtin.registry n k ∧ Delivers Builtin.registry [.run .stop] k calls t ∧
      t.stack = [.run .stop] ∧
      n.Waiting 0 past 0 (.event "call") ∧ CompletedBy Builtin.registry calls 0 1 ∧
      n.Waiting 0 past 1 (.event "call") ∧ (∀ visit, ¬CompletedBy Builtin.registry calls 1 visit) ∧
      t.visit? 0 = some (3, ⟨"c"⟩) ∧ t.visit? 1 = some (2, ⟨"e"⟩) := by
  obtain ⟨n, k, t, ⟨hn, hfair⟩, hunlimited, ⟨hraise, hp, hk⟩, ⟨ht, habove, hthrough⟩, hvisits, s, s',
      k', hcalls, hs, hs', hin, harmed, hused⟩ : ∃ n k t,
      ((echo.call beginEcho).after Builtin.registry 16 = some n ∧
        ((echo.call beginEcho).moments Builtin.registry 16).all (fun i => decide i.Fair) = true) ∧
      n.Unlimited 0 ∧
      (n.stack = [.run (.raise 0 "call" .stop)] ∧ n.panic = none ∧ Next Builtin.registry n k) ∧
      (k.after Builtin.registry 39 = some t ∧
        (∀ i < 39, ∀ n ∈ k.after Builtin.registry i, 1 < n.stack.length) ∧
        t.stack = [.run .stop]) ∧
      (t.visit? 0 = some (3, ⟨"c"⟩) ∧ t.visit? 1 = some (2, ⟨"e"⟩)) ∧
      ∃ s s' k', ((List.range 39).flatMap fun i => ((k.after Builtin.registry i).bind fun n =>
          (n.turn? [.run .stop]).map fun s => (n, s)).toList) = [(k, s), (k', s')] ∧
        s.speaker? = some (0, 1) ∧ s'.speaker? = some (1, 1) ∧ k.InVisit 0 1 ∧ k.Armed 0 1 ∧
        k'.world.runners[1]?.map Runner.armed = some [2] :=
    ⟨_, _, _, ⟨rfl, rfl⟩, ⟨_, rfl, rfl⟩, ⟨rfl, rfl, rfl⟩, ⟨rfl, by decide +kernel, rfl⟩,
      ⟨rfl, rfl⟩, _, _, _, rfl, rfl, rfl, ⟨_, rfl, rfl⟩, ⟨_, rfl, List.mem_cons_self⟩, rfl⟩
  have hfresh : echo.Fresh := by
    refine ⟨rfl, ?_, List.forall_mem_singleton.2 ⟨none, rfl⟩, fun l hl => ?_⟩
    · rintro R hR
      rcases List.mem_pair.1 hR with rfl | rfl <;> exact ⟨_, _, _, _, _, rfl⟩
    · cases hl
  have houtside : beginEcho.All Script.Outside :=
    ⟨trivial, fun _ => ⟨trivial, fun _ => ⟨trivial, trivial⟩⟩⟩
  have h := chronicle_of_after rfl houtside hn hfair
  have hd : Delivers Builtin.registry [.run .stop] k [(k, s), (k', s')] t :=
    hcalls ▸ delivers_of_after ht habove
  obtain ⟨hiff, -, hfound, -, -⟩ :=
    h.raise_completes_once hfresh (b := 0) (by decide) hraise hp hk hd
  obtain ⟨hwaiting, hbefore⟩ := hfound _ List.mem_cons_self 0 1 hs
  obtain ⟨hwaiting', -⟩ := hfound _ (List.mem_cons_of_mem _ List.mem_cons_self) 1 1 hs'
  refine ⟨_, n, k, _, t, h, hraise, hk, hd, hthrough, hwaiting, ?_, hwaiting', ?_, hvisits⟩
  · have hheedful := h.heedful (b := 0) hfresh
    have hearlier := (hheedful.before hunlimited (hwaiting.waits hbefore) (.single hk)).2 harmed
    refine (hiff 0 1 fun R hR => ?_).2 ⟨hwaiting, hbefore, hearlier, _, List.mem_cons_self, hs, hin,
      fun i hi hlast hdone => ?_⟩
    · obtain ⟨S, hS, hlimit⟩ := hunlimited
      exact Option.some.inj (hR.symm.trans hS) ▸ hlimit
    · obtain ⟨_, hlater, -⟩ := hheedful.leads hi
      exact hlater.not_armed (hunlimited.leads hi) hdone hlast harmed
  · rintro visit ⟨c, hc, hspeaker, ⟨R, hR, hv⟩, -⟩
    rcases List.mem_pair.1 hc with rfl | rfl
    · cases hs.symm.trans hspeaker
    · cases hs'.symm.trans hspeaker
      rw [Option.mem_def.1 hR] at hused
      rw [Option.some.inj hused] at hv
      cases List.mem_singleton.1 hv

end Machine

end StoryGraph
