import StoryGraph.Proofs.Flow.Books
import StoryGraph.Proofs.Flow.Stack

/-!
# How long a node waits

The node of a visit begins to wait when it asks for something that is not to be had at once
(`Machine.Begins`). It waits for an event until its visit ends, however often the event is raised,
and for a quest until those who wait for it are called, because somebody has the bus look at its
quests or attaches another quest service to it (`Machine.Notifies`).

If nobody but a node that is left gives back the number of a node (`Machine.Fair`), every step
leaves the books of a session in order, or is followed by one that puts them in order
(`Machine.Balanced.next`).
-/

namespace StoryGraph

variable {σ : Type}

open Builtin (Wait)

def Script.Stirs : Script σ → Prop
  | .subscribe .. | .await .. | .notify .. | .serve .. => True
  | _ => False

theorem Script.stirs_of_judges {s : Script σ} {e : Nat × (Bus (Script σ) → Bus (Script σ))}
    (h : s.judges? = some e) : s.Stirs := by
  cases s with
  | notify | serve => trivial
  | _ => cases h

namespace Builtin.Wait

theorem stirs_script (w : Wait) (v : Visit) : (w.script v : Script σ).Stirs := by
  cases w <;> trivial

theorem not_stirs_leave (w : Wait) (v : Visit) (id : Nat) :
    ¬(w.leave v id : Script σ).Stirs := by
  cases w <;> exact fun h => h

theorem script_inj {w w' : Wait} {v v' : Visit} (h : (w.script v : Script σ) = w'.script v') :
    w = w' ∧ v.bus = v'.bus := by
  cases w <;> cases w' <;> simp_all [script, waitEvent, waitQuest]

end Builtin.Wait

namespace Machine

/-- The node of a visit asks for something on a bus, and does not get it at once. -/
structure Begins (b r visit : Nat) (w : Wait) (m : Machine σ) : Prop where
  stack : ∃ below, m.stack = .run (w.script ⟨r, b, visit⟩) :: .entering r visit :: below
  panic : m.panic = none
  unmet : ∃ B, m.world.bus? b = some B ∧ ¬m.world.Meets B w

structure Notifies (b : Nat) (w : Wait) (m : Machine σ) : Prop where
  panic : m.panic = none
  judged : ∃ s below judge, m.stack = .run s :: below ∧ s.judges? = some (b, judge) ∧
    ∃ B, m.world.bus? b = some B ∧ m.world.due (judge B) w = true

/-- The script that runs, unless it is called because a node is left. -/
def running? (m : Machine σ) : Option (Script σ) :=
  match m.stack with
  | .run _ :: .exiting _ _ :: _ => none
  | .run s :: _ => some s
  | _ => none

/-- Nobody gives back the number of a node in the next step, but a node that is left. -/
def Fair (m : Machine σ) : Prop := ∀ s ∈ m.running?, s.Fair m.world

instance (m : Machine σ) : Decidable m.Fair :=
  inferInstanceAs (Decidable (∀ s ∈ m.running?, s.Fair m.world))

def After (b : Nat) (m : Machine σ) (waits waits' : Nat → Nat → Wait → Prop) : Prop :=
  ∀ r visit w, waits' r visit w ↔ m.Begins b r visit w ∨ waits r visit w ∧ ¬m.Notifies b w

structure Quiet (b : Nat) (m : Machine σ) : Prop where
  begins : ∀ r visit w, ¬m.Begins b r visit w
  notifies : ∀ w, ¬m.Notifies b w

variable {kinds : Registry (Behaviour σ)} {b r : Nat} {waits waits' : Nat → Nat → Wait → Prop}
  {m n k : Machine σ}

theorem After.eq_of_quiet (h : m.After b waits waits') (hq : m.Quiet b) : waits' = waits := by
  funext r visit w
  refine propext ((h r visit w).trans ?_)
  rw [or_iff_right (hq.begins r visit w), and_iff_left (hq.notifies w)]

theorem quiet_of_head {f : Frame σ} {below : List (Frame σ)} (hm : m.stack = f :: below)
    (hf : ∀ s, f = .run s → ¬s.Stirs) : m.Quiet b := by
  refine ⟨fun r visit w hbegins => ?_, fun w hnotifies => ?_⟩
  · obtain ⟨below', hstack⟩ := hbegins.stack
    rw [hm] at hstack
    exact hf _ (List.cons.inj hstack).1 (w.stirs_script _)
  · obtain ⟨s, below', judge, hstack, hjudges, -⟩ := hnotifies.judged
    rw [hm] at hstack
    exact hf s (List.cons.inj hstack).1 (Script.stirs_of_judges hjudges)

section Script

variable {visit bus r' visit' : Nat} {below : List (Frame σ)} {w w' : Wait}

/-- The node of a visit begins to wait for what it asks for, on its bus. -/
theorem begins_script_iff (hm : m.stack = .entering r visit :: below) (hp : m.panic = none) :
    (m.push (.run (w.script ⟨r, bus, visit⟩))).Begins b r' visit' w' ↔
      r' = r ∧ visit' = visit ∧ w' = w ∧ bus = b ∧
        ∃ B, m.world.bus? b = some B ∧ ¬m.world.Meets B w := by
  constructor
  · intro hbegins
    obtain ⟨below', hstack⟩ := hbegins.stack
    have hpushed : (m.push (.run (w.script ⟨r, bus, visit⟩))).stack =
        .run (w.script ⟨r, bus, visit⟩) :: .entering r visit :: below := congrArg (_ :: ·) hm
    rw [hpushed] at hstack
    obtain ⟨hrun, hrest⟩ := List.cons.inj hstack
    obtain ⟨rfl, rfl⟩ := Frame.entering.inj (List.cons.inj hrest).1
    obtain ⟨rfl, hbus⟩ := Wait.script_inj (Frame.run.inj hrun)
    exact ⟨rfl, rfl, rfl, hbus, hbegins.unmet⟩
  · rintro ⟨rfl, rfl, rfl, rfl, hunmet⟩
    exact ⟨⟨below, congrArg (_ :: ·) hm⟩, hp, hunmet⟩

theorem not_notifies_of_script {v : Visit} : ¬(m.push (.run (w.script v))).Notifies b w' := by
  intro hnotifies
  obtain ⟨s, below', judge, hstack, hjudges, -⟩ := hnotifies.judged
  obtain rfl := Frame.run.inj (List.cons.inj hstack).1
  cases w <;> cases hjudges

end Script

/-- The books of a session are in order, or will be after the next step. -/
def Nearly (kinds : Registry (Behaviour σ)) (b : Nat) (waits : Nat → Nat → Wait → Prop)
    (m : Machine σ) : Prop :=
  m.Balanced b waits ∨ m.Quiet b ∧ ∃ n, Next kinds m n ∧ n.Balanced b waits

namespace Balanced

/-! ### Visits begin and end -/

/-- The card of a runner does not matter to a stack on which none of its nodes is entered. -/
theorem fitting_dealt (h : m.Balanced b waits) (hout : ∀ visit, .entering r visit ∉ m.stack)
    (c : Card σ) : Fitting (dealt m.world.card? r c) m.stack := by
  refine h.fitting.mono fun r' visit hmem c' hc' => mem_dealt_of_ne ?_ hc' c
  rintro rfl
  exact hout visit hmem

section Leave

variable {R R' : Runner (Script σ)}

/-- The node of a runner is left that has laid nothing down on the bus. -/
theorem leaves_idle (h : m.Balanced b waits) (hR : R ∈ m.world.runners[r]?)
    (hvisits : R'.visits = R.visits) (hout : ∀ visit, .entering r visit ∉ m.stack)
    (hidle : R.bus = b → ∀ cur ∈ R.current, ∀ (w : Wait) v id, cur.leave ≠ some (w.leave v id)) :
    (m.setRunner r { R' with current := none }).Balanced b waits := by
  obtain ⟨p, hpage, hledger⟩ := h.ledger
  have hcards : (m.world.setRunner r { R' with current := none }).card? =
      dealt m.world.card? r _ := World.card?_setRunner hR
  refine ⟨⟨p, hpage, ?_⟩, ⟨h.calls.buses, h.calls.logs⟩, hcards ▸ h.fitting_dealt hout _⟩
  show Ledger b waits (m.world.setRunner r { R' with current := none }).card? p
  rw [hcards]
  exact hledger.ends_idle (World.mem_card? hR) hidle hvisits.ge rfl

/-- The node of a runner is left, and what it has laid down is done in the next step. -/
theorem leaves_waiting (h : m.Balanced b waits) (hp : m.panic = none)
    (hR : R ∈ m.world.runners[r]?) (hvisits : R'.visits = R.visits)
    (hout : ∀ visit, .entering r visit ∉ m.stack) {id : NodeId} {visit number : Nat} {w : Wait}
    (hcur : R.current = some ⟨id, visit, some (w.leave ⟨r, R.bus, visit⟩ number)⟩) :
    (((m.setRunner r { R' with current := none }).push (.exiting r visit)).push
      (.run (w.leave ⟨r, R.bus, visit⟩ number))).Nearly kinds b waits := by
  obtain ⟨p, hpage, hledger⟩ := h.ledger
  have hc := World.mem_card? hR
  let c : Card σ := ({ R' with current := none } : Runner (Script σ)).card
  let k := (m.setRunner r { R' with current := none }).push (.exiting r visit)
  have hle : R.card.visits ≤ c.visits := hvisits.ge
  obtain ⟨world, a, hedits, hperform⟩ :=
    k.exists_edits_giveBack w R.bus number fun _ => .stop
  rw [← w.leave_eq ⟨r, R.bus, visit⟩] at hperform
  have hnext : Next kinds (k.push (.run (w.leave ⟨r, R.bus, visit⟩ number)))
      ({ k with world := world }.push (.run .stop)) :=
    hperform ▸ next_resume (m := k.push (.run (w.leave ⟨r, R.bus, visit⟩ number))) rfl hp
  have hcards : world.card? = dealt m.world.card? r c :=
    hedits.cards.trans (World.card?_setRunner hR)
  have hpage' : p ∈ k.world.page? b := hpage
  refine .inr ⟨quiet_of_head rfl fun s hs => ?_, _, hnext,
    ⟨?_, hedits.calls ⟨h.calls.buses, h.calls.logs⟩, rfl, trivial, hcards ▸ h.fitting_dealt hout c⟩⟩
  · obtain rfl := Frame.run.inj hs
    exact w.not_stirs_leave _ _
  · show ∃ p ∈ world.page? b, Ledger b waits world.card? p
    rw [hcards]
    by_cases hb : R.bus = b
    · subst hb
      obtain ⟨p', hmem, hdrops⟩ := hedits.page p hpage'
      exact ⟨p', hmem, hledger.ends hc rfl hcur hdrops hle rfl⟩
    · refine ⟨p, ?_, hledger.ends_idle hc (fun hb' => absurd hb' hb) hle rfl⟩
      rw [hedits.others b (Ne.symm hb)]
      exact hpage'

theorem leave (h : m.Balanced b waits) (hp : m.panic = none) (hR : R ∈ m.world.runners[r]?)
    (hcurrent : R'.current = R.current) (hvisits : R'.visits = R.visits)
    (hout : ∀ visit, .entering r visit ∉ m.stack) : (m.leave r R').Nearly kinds b waits := by
  obtain ⟨p, hpage, hledger⟩ := h.ledger
  have hidle : (R.bus = b → ∀ cur ∈ R.current, ∀ (w : Wait) v id,
      cur.leave ≠ some (w.leave v id)) →
      (m.setRunner r { R' with current := none }).Balanced b waits :=
    h.leaves_idle hR hvisits hout
  unfold Machine.leave
  dsimp only
  split
  · rename_i id visit s hs
    rw [hcurrent] at hs
    rcases hledger.closes r _ (World.mem_card? hR) _ hs s rfl with rfl | ⟨w, number, hleave, -⟩
    · refine .inl (((hidle fun _ cur hcur w v id hleave => ?_).push
        (f := .exiting r visit) trivial).push (f := .run .stop) rfl)
      obtain rfl := Option.some.inj (hs.symm.trans hcur)
      exact w.leave_ne_stop v id (Option.some.inj hleave).symm
    · replace hleave : s = w.leave ⟨r, R.bus, visit⟩ number := hleave
      subst hleave
      exact h.leaves_waiting hp hR hvisits hout hs
  · rename_i hnot
    refine .inl (hidle fun _ cur hcur w v id hleave => ?_)
    obtain ⟨nid, visit, leave⟩ := cur
    obtain rfl : leave = some (w.leave v id) := hleave
    exact hnot nid visit _ (hcurrent.trans hcur)

end Leave

theorem expireRunner (h : m.Balanced b waits) (hp : m.panic = none)
    (hout : ∀ visit, .entering r visit ∉ m.stack) :
    (m.expireRunner r).Nearly kinds b waits := by
  unfold Machine.expireRunner
  split
  · exact .inl h
  · rename_i R hR
    split
    · refine (h.push (f := .deliver (some R.bus) []) fun s hs => by cases hs).leave hp hR rfl rfl ?_
      intro visit hmem
      rcases List.mem_cons.1 hmem with hmem | hmem
      · cases hmem
      · exact hout visit hmem
    · exact .inl h

theorem release (h : m.Balanced b waits) (hp : m.panic = none)
    (hidle : ∀ R ∈ m.world.runners[r]?, R.dispatching = false →
      ∀ visit, .entering r visit ∉ m.stack) :
    (m.release r).Nearly kinds b waits := by
  unfold Machine.release
  split
  · exact .inl h
  · rename_i R hR
    have hcard : ({ R with lifetime := R.lifetime.release } : Runner (Script σ)).card =
        R.card := by
      simp only [Runner.card, Runner.isAlive]
      cases R.lifetime <;> rfl
    have hset := h.setRunner hR _ hcard
    by_cases hd : R.dispatching = true
    · rw [expireRunner_eq_self (runners_setRunner hR { R with lifetime := R.lifetime.release })
        (.inr hd)]
      exact .inl hset
    · exact hset.expireRunner hp (hidle R hR (by simpa using hd))

theorem dispatch (h : m.Balanced b waits) (hp : m.panic = none) {R : Runner (Script σ)}
    (hR : R ∈ m.world.runners[r]?) (hout : ∀ visit, .entering r visit ∉ m.stack) (entered : Nat) :
    (m.dispatch r R entered).Nearly kinds b waits := by
  have hleaves : ∀ {R' : Runner (Script σ)} target e, R'.current = R.current →
      R'.visits = R.visits → (((m.push (.dispatch r e)).push (.leaving r target)).leave r
        R').Nearly kinds b waits := by
    intro R' target e hcurrent hvisits
    refine ((h.push (f := .dispatch r e) trivial).push (f := .leaving r target) trivial).leave hp
      hR hcurrent hvisits fun visit hmem => ?_
    rcases List.mem_cons.1 hmem with hmem | hmem
    · cases hmem
    · rcases List.mem_cons.1 hmem with hmem | hmem
      · cases hmem
      · exact hout visit hmem
  unfold Machine.dispatch
  split
  · exact (h.setRunner hR { R with dispatching := false } rfl).expireRunner hp hout
  · rename_i task queue _
    split
    · exact (h.setRunner hR { R with queue := [], halted := true, dispatching := false }
        rfl).expireRunner hp hout
    · split
      · exact .inl ((h.setRunner hR { R with queue } rfl).push
          (f := .dispatch r entered) trivial)
      · exact .inl ((h.setRunner hR { R with queue, halted := true } rfl).push
          (f := .dispatch r entered) trivial)
      · exact hleaves _ _ rfl rfl
      · exact hleaves _ _ rfl rfl

theorem enter (h : m.Balanced b waits) {R : Runner (Script σ)} (hR : R ∈ m.world.runners[r]?)
    (hnone : R.current = none) (halive : R.isAlive = true)
    (hout : ∀ visit, .entering r visit ∉ m.stack) {node : Node}
    (hnode : R.graph.node? node.id = some node) :
    (m.enter Builtin.registry r R node).Balanced b waits := by
  obtain ⟨p, hpage, hledger⟩ := h.ledger
  have hc := World.mem_card? hR
  have hset : ∀ {R' : Runner (Script σ)} {leave : Option (Script σ)}, R'.isAlive = true →
      R'.visits = R.visits + 1 → R'.current = some ⟨node.id, R.visits + 1, leave⟩ →
      (∀ s ∈ leave, s = .stop) → (m.setRunner r R').Balanced b waits := by
    intro R' leave halive' hvisits hcurrent hleave
    have hcards : (m.setRunner r R').world.card? = dealt m.world.card? r R'.card :=
      World.card?_setRunner hR
    refine ⟨⟨p, hpage, ?_⟩, ⟨h.calls.buses, h.calls.logs⟩, hcards ▸ h.fitting_dealt hout _⟩
    rw [hcards]
    exact hledger.enters hc hnone hvisits hcurrent halive' hleave
  unfold Machine.enter
  dsimp only
  split
  · exact hset halive rfl rfl fun s hs => by cases hs
  · rename_i e he
    exact absurd he (Builtin.build_ne_panicked node e)
  · rename_i behaviour hbuild
    let armed : Runner (Script σ) :=
      { R with visits := R.visits + 1, halted := false, armed := (R.visits + 1) :: R.armed
               current := some ⟨node.id, R.visits + 1, some .stop⟩ }
    have hstop : ∀ s ∈ some (Script.stop : Script σ), s = .stop := fun s hs =>
      (Option.some.inj hs).symm
    have harmed : (m.setRunner r armed).Balanced b waits := hset halive rfl rfl hstop
    obtain ⟨act, hact, hbehaviour⟩ := Builtin.exists_act_of_build hbuild
    refine (harmed.push (f := .entering r (R.visits + 1)) trivial).push (f := .run _)
      (.inr ⟨?_, ?_⟩)
    · exact Builtin.steady_of_build hbuild _
    · refine ⟨armed.card, World.mem_card? (runners_setRunner hR armed), node.id, act, ?_, ?_, rfl⟩
      · exact Option.bind_eq_some_iff.2 ⟨node, hnode, hact⟩
      · rw [hbehaviour]
        exact .enter node.id

/-! ### What nodes do -/

section Waits

variable {visit : Nat} {below : List (Frame σ)} {c : Card σ} {id : NodeId} {w : Wait}

theorem listed (h : m.Balanced b waits) (hp : m.panic = none)
    (hm : m.stack = .entering r visit :: below) (hout : ∀ visit, .entering r visit ∉ below)
    (hc : c ∈ m.world.card? r) (hcur : c.current = some ⟨id, visit, some .stop⟩)
    (hsuits : c.graph.wait? id = some w) {number : Nat}
    {world : World (Script σ)} (hedits : m.world.Edits c.bus
      (·.Adds ⟨w, number, Builtin.done ⟨r, c.bus, visit⟩⟩ ·) world)
    (hbegins : c.bus = b → ∀ r' visit' w',
      waits' r' visit' w' ↔ waits r' visit' w' ∨ r' = r ∧ visit' = visit ∧ w' = w)
    (hsame : c.bus ≠ b → waits' = waits) :
    ({ m with world := world }.push
      (.run (.onLeave r visit (w.leave ⟨r, c.bus, visit⟩ number) .stop))).Nearly
        kinds b waits' := by
  obtain ⟨R, hR, rfl⟩ := World.exists_of_mem_card? (hedits.cards ▸ hc)
  let leave : Script σ := w.leave ⟨r, R.bus, visit⟩ number
  let R' : Runner (Script σ) := { R with current := some ⟨id, visit, some leave⟩ }
  let k : Machine σ := { m with world := world }
  have hcurrent : R.current = some ⟨id, visit, some .stop⟩ := hcur
  have hlaid : k.perform (.onLeave r visit leave .stop) =
      (k.setRunner r R').push (.run .stop) := by
    simp only [perform, k, Option.mem_def.1 hR, hcurrent, Option.map_some, if_true]
    rfl
  have hnext : Next kinds (k.push (.run (.onLeave r visit leave .stop)))
      ((k.setRunner r R').push (.run .stop)) :=
    hlaid ▸ next_resume (m := k.push (.run (.onLeave r visit leave .stop))) rfl hp
  have hcards : (k.setRunner r R').world.card? = dealt m.world.card? r R'.card :=
    (World.card?_setRunner hR).trans (congrArg (dealt · r R'.card) hedits.cards)
  have hcalls := hedits.calls h.calls
  refine .inr ⟨quiet_of_head rfl fun s hs => ?_, _, hnext, ⟨?_, ⟨hcalls.buses, hcalls.logs⟩, ?_⟩⟩
  · obtain rfl := Frame.run.inj hs
    exact False.elim
  · obtain ⟨p, hpage, hledger⟩ := h.ledger
    have hliving := hledger.living r _ hc _ hcur
    show ∃ p ∈ world.page? b, Ledger b waits' (k.setRunner r R').world.card? p
    rw [hcards]
    by_cases hb : R.card.bus = b
    · subst hb
      obtain ⟨p', hpage', hadds⟩ := hedits.page p hpage
      exact ⟨p', hpage', hledger.begins hc rfl hcur hsuits hadds rfl (hbegins rfl)⟩
    · rw [hsame hb, hedits.others b (Ne.symm hb)]
      refine ⟨p, hpage, hledger.deals_idle hc (fun hb' => absurd hb' hb) le_rfl
        (fun hb' => absurd hb' hb) (fun cur hcur' s hs => ?_) (fun cur hcur' => ?_)
        fun cur hcur' w' hw' => ?_⟩
      all_goals obtain rfl := Option.some.inj hcur'
      · obtain rfl := Option.some.inj hs
        exact .inr ⟨w, _, rfl, fun hb' => absurd hb' hb⟩
      · exact hliving
      · exact hledger.suits r _ hc _ hcur w' hw'
  · have hfitting := h.fitting
    rw [hm] at hfitting
    show Fitting (k.setRunner r R').world.card? (.run .stop :: m.stack)
    rw [hcards, hm]
    refine ⟨Frame.fits_stop _ _, trivial, hfitting.2.mono fun r' visit' hmem c' hc' => ?_⟩
    refine mem_dealt_of_ne ?_ hc' _
    rintro rfl
    exact hout visit' hmem

/-- The node of a visit asks for something on its bus. -/
theorem asksFor (h : m.Balanced b waits) (hp : m.panic = none)
    (hm : m.stack = .entering r visit :: below) (hout : ∀ visit, .entering r visit ∉ below)
    (hc : c ∈ m.world.card? r) (hcur : c.current = some ⟨id, visit, some .stop⟩)
    (hsuits : c.graph.wait? id = some w)
    (hafter : (m.push (.run (w.script ⟨r, c.bus, visit⟩))).After b waits waits') :
    (m.perform (w.script ⟨r, c.bus, visit⟩)).Nearly kinds b waits' := by
  let v : Visit := ⟨r, c.bus, visit⟩
  have hnotifies : ∀ w', ¬(m.push (.run (w.script v))).Notifies b w' :=
    fun _ => not_notifies_of_script
  have hquiet : (c.bus = b → ∀ B, m.world.bus? c.bus = some B → m.world.Meets B w) →
      waits' = waits := by
    refine fun hmeets => hafter.eq_of_quiet ⟨fun r' visit' w' hbegins => ?_, hnotifies⟩
    obtain ⟨-, -, -, hb, B, hB, hunmet⟩ := (begins_script_iff hm hp).1 hbegins
    exact hunmet (hmeets hb B (hb ▸ hB))
  have hwait : m.perform (w.script v) = m.wait v.bus (Builtin.done v) (w.hold v) w := by
    cases w <;> rfl
  have hwaited := m.waited_wait v.bus w (w.hold v) (Script.called_done v)
  rw [hwait]
  generalize m.wait v.bus (Builtin.done v) (w.hold v) w = k at hwaited
  cases hwaited with
  | alone hB =>
      rw [hquiet fun _ B hB' => absurd (hB.symm.trans hB') (Option.some_ne_none B).symm]
      exact .inl (h.push (Frame.fits_stop _ _))
  | met hB hmeets edits =>
      rw [hquiet fun _ B hB' => Option.some.inj (hB.symm.trans hB') ▸ hmeets]
      have hedit := h.edits edits (fun _ p _ p' heq hledger => heq ▸ hledger) fun _ => rfl
      exact .inl ((hedit.push (f := .run .stop) (Frame.fits_stop _ _)).push (f := .deliver _ _)
        (List.forall_mem_singleton.2 (Script.called_done v)))
  | listed hB hmeets edits =>
      refine h.listed hp hm hout hc hcur hsuits edits (fun hb r' visit' w' => ?_) fun hb => ?_
      · rw [hafter r' visit' w', and_iff_left (hnotifies w'), or_comm, begins_script_iff hm hp]
        refine or_congr_right ⟨fun ⟨hr, hvisit, hw, _⟩ => ⟨hr, hvisit, hw⟩, ?_⟩
        exact fun ⟨hr, hvisit, hw⟩ => ⟨hr, hvisit, hw, hb, _, hb ▸ hB, hmeets⟩
      · exact hquiet fun hb' => absurd hb' hb

theorem does (h : m.Balanced b waits) {s : Script σ} (hs : s.Remains m.world.card? r visit)
    (hm : m.stack = .entering r visit :: below) (hcalm : ¬s.Stirs) :
    (m.perform s).Balanced b waits := by
  obtain ⟨hsteady, c, hc, id, act, hact, hdoes, hcur⟩ := hs
  have hfits : ∀ {next : Script σ}, next.Steady → Builtin.Does act ⟨r, c.bus, visit⟩ next →
      (Frame.run next).Fits m.world.card? m.stack := by
    intro next hnext hdoes'
    rw [hm]
    exact .inr ⟨hnext, c, hc, id, act, hact, hdoes', hcur⟩
  have hdone : (Frame.run (Builtin.done ⟨r, c.bus, visit⟩)).Fits m.world.card? m.stack :=
    hfits trivial .done
  have hadvance : ∀ {next : Script σ} (b' : Nat) (name : String) (step : QuestStep),
      next.Steady → Builtin.Does act ⟨r, c.bus, visit⟩ next →
      (m.perform (.quest b' name step next)).Balanced b waits := by
    intro next b' name step hnext hdoes'
    simp only [perform]
    split
    · exact h.push (hfits hnext hdoes')
    · exact (h.push (hfits hnext hdoes')).advance _ _ name step
  cases hdoes with
  | stop => exact h
  | done => exact h.done r visit fun _ => Frame.fits_stop _ _
  | enter nid =>
      cases act with
      | note => exact h.done r visit fun _ => Frame.fits_stop _ _
      | set key value =>
          simp only [Walk.Act.behaviour, Builtin.setValue, perform]
          split
          · exact h.push hdone
          · rename_i R hR
            let R' : Runner (Script σ) := { R with blackboard := R.blackboard.set key value }
            have hcards : (m.world.setRunner r R').card? = m.world.card? :=
              World.card?_setRunner_of_eq hR rfl
            exact (h.setRunner hR R' rfl).push (hcards.symm ▸ hdone)
      | raise key => exact (h.push hdone).raise c.bus key
      | wait key => exact absurd trivial hcalm
      | quest name source autoStart =>
          cases autoStart with
          | true => exact hadvance _ _ _ trivial (.start name source rfl)
          | false => exact hadvance _ _ _ trivial (.wait (.quest name) rfl)
      | branch key => exact h.push (hfits trivial (.ask _))
  | start name source hquest => exact hadvance _ _ _ trivial (.wait (.quest name) (hquest ▸ rfl))
  | wait w => exact absurd (w.stirs_script _) hcalm
  | hold => exact hsteady.elim
  | leave w => cases w <;> exact hsteady.elim
  | ask request => exact (h.push (Frame.fits_stop _ _)).submit r _

theorem entered (h : m.Balanced b waits) (hp : m.panic = none)
    (hm : m.stack = .entering r visit :: below) (hout : ∀ visit, .entering r visit ∉ below)
    {s : Script σ} (hs : s.Remains m.world.card? r visit)
    (hafter : (m.push (.run s)).After b waits waits') : (m.perform s).Nearly kinds b waits' := by
  by_cases hstirs : s.Stirs
  · obtain ⟨-, c, hc, id, act, hact, hdoes, hcur⟩ := hs
    have hwait : ∀ {w : Wait}, act.wait? = some w → c.graph.wait? id = some w := fun hw =>
      Option.bind_eq_some_iff.2 ⟨act, hact, hw⟩
    cases hdoes with
    | enter nid =>
        cases act with
        | wait key =>
            exact h.asksFor (w := .event key) hp hm hout hc hcur (hwait rfl) hafter
        | _ => exact hstirs.elim
    | wait w hw => exact h.asksFor hp hm hout hc hcur (hwait hw) hafter
    | leave w => exact absurd hstirs (w.not_stirs_leave _ _)
    | _ => exact hstirs.elim
  · have hquiet : (m.push (.run s)).Quiet b :=
      quiet_of_head rfl fun s' hs' => Frame.run.inj hs' ▸ hstirs
    rw [hafter.eq_of_quiet hquiet]
    exact .inl (h.does hs hm hstirs)

end Waits

/-! ### What others do -/

theorem givesBack (h : m.Balanced b waits) {b' id : Nat} {w : Wait} {next : Bool → Script σ}
    (hfair : (w.giveBack b' id next).Fair m.world)
    (hnext : ∀ a, (Frame.run (next a)).Fits m.world.card? m.stack) :
    (m.perform (w.giveBack b' id next)).Balanced b waits := by
  obtain ⟨world, a, hedits, hperform⟩ := m.exists_edits_giveBack w b' id next
  have hedit : Balanced b waits { m with world := world } := by
    refine h.edits hedits (fun hb p hp p' hdrops hledger => ?_) fun _ => rfl
    subst hb
    obtain ⟨B, hB, -, rfl⟩ := World.exists_bus?_of_mem_page? hp
    exact hledger.withdraws hdrops fun e he hgone => hfair.speaker? hB he hgone.1 hgone.2
  rw [hperform]
  exact hedit.push (hedits.cards.symm ▸ hnext a)

theorem wait (h : m.Balanced b waits) (b' : Nat) (w : Wait) {callback : Script σ}
    {next : Option Nat → Script σ} (hcallback : callback.Called)
    (hspeaker : callback.speaker? = none)
    (hnext : ∀ a, (Frame.run (next a)).Fits m.world.card? m.stack) :
    (m.wait b' callback next w).Balanced b waits := by
  have hwaited := m.waited_wait b' w next hcallback
  generalize m.wait b' callback next w = k at hwaited
  cases hwaited with
  | alone => exact h.push (hnext none)
  | met hB hmeets edits =>
      have hedit := h.edits edits (fun _ p _ p' heq hledger => heq ▸ hledger) fun _ => rfl
      exact (hedit.push (f := .run (next none)) (edits.cards.symm ▸ hnext none)).push
        (f := .deliver _ _) (List.forall_mem_singleton.2 hcallback)
  | listed hB hmeets edits =>
      have hedit := h.edits edits (fun _ p _ p' hadds hledger => hledger.adds hadds hspeaker)
        fun _ => rfl
      exact hedit.push (f := .run _) (edits.cards.symm ▸ hnext _)

/-- A step of somebody from outside by which nobody is called who waits for quests. -/
theorem others (h : m.Balanced b waits) (hp : m.panic = none)
    (hfits : ∀ next : Script σ, next.Called → (Frame.run next).Fits m.world.card? m.stack)
    (hidle : ∀ r, ∀ R ∈ m.world.runners[r]?, R.dispatching = false →
      ∀ visit, .entering r visit ∉ m.stack) {s : Script σ} (hs : s.All Script.Outside)
    (hfair : s.Fair m.world) (hjudges : s.judges? = none) :
    (m.perform s).Nearly kinds b waits := by
  have hrun : ∀ {next : Script σ}, next.All Script.Outside →
      (Frame.run next).Fits m.world.card? m.stack := fun hall => hfits _ (.inl hall)
  cases s with
  | notify | serve => cases hjudges
  | stop => exact .inl h
  | panic e => exact .inl ⟨h.ledger, h.calls, h.fitting⟩
  | look next => exact .inl (h.push (hrun (hs.2 _ _)))
  | keep change next => exact .inl ⟨h.ledger, h.calls, hrun hs.2, h.fitting⟩
  | raise b' key next => exact .inl ((h.push (hrun hs.2)).raise b' key)
  | subscribe b' key callback next =>
      exact .inl (h.wait b' (.event key) (.inl hs.2.1) (Script.speaker?_of_outside hs.2.1.self)
        fun a => hrun (hs.2.2 a))
  | unsubscribe b' key id next =>
      exact .inl (h.givesBack (w := .event key) hfair fun a => hrun (hs.2 a))
  | unawait b' name id next =>
      exact .inl (h.givesBack (w := .quest name) hfair fun a => hrun (hs.2 a))
  | clear b' next =>
      simp only [perform]
      split
      · exact .inl (h.push (hrun hs.2))
      · rename_i B hB
        have hcalls := h.calls.bus hB
        exact .inl ((h.setBus hB { B with pending := [] } rfl
          ⟨hcalls.subscribers, hcalls.waiters⟩).push (hrun hs.2))
  | await b' name callback next =>
      exact .inl (h.wait b' (.quest name) (.inl hs.2.1) (Script.speaker?_of_outside hs.2.1.self)
        fun a => hrun (hs.2.2 a))
  | quest b' name step next =>
      simp only [perform]
      split
      · exact .inl (h.push (hrun hs.2))
      · exact .inl ((h.push (hrun hs.2)).advance _ _ name step)
  | advance l name step next => exact .inl ((h.push (hrun hs.2)).advance none l name step)
  | listen l listener next =>
      simp only [perform]
      split
      · exact .inl (h.push (hrun (hs.2.2 _)))
      · rename_i log hlog
        have hlisteners : ∀ e ∈ (log.listen listener).2.listeners, e.2.Called :=
          List.forall_mem_append.2 ⟨h.calls.log hlog, List.forall_mem_singleton.2 (.inl hs.2.1)⟩
        exact .inl ((h.setLog l hlisteners).push (hrun (hs.2.2 _)))
  | unlisten l id next =>
      simp only [perform]
      split
      · exact .inl (h.push (hrun (hs.2 _)))
      · rename_i log hlog
        have hlisteners : ∀ e ∈ (log.unlisten id).2.listeners, e.2.Called := fun e he =>
          h.calls.log hlog e (List.mem_of_mem_filter he)
        exact .inl ((h.setLog l hlisteners).push (hrun (hs.2 _)))
  | assign graph bus limit next =>
      refine .inl ((h.makes (R := { graph, bus, limit }) rfl).push (f := .run (next _)) ?_)
      refine (hrun (hs.2 _)).mono fun r _ _ c hc => ?_
      rw [World.card?_append]
      exact World.mem_dealt_length hc
  | start r next =>
      simp only [perform]
      split
      · exact .inl (h.push (hrun (hs.2 _)))
      · split
        · exact .inl (h.push (hrun (hs.2 _)))
        · exact .inl ((h.push (hrun (hs.2 _))).submit r _)
  | ask r request next => exact .inl ((h.push (hrun hs.2)).submit r _)
  | set r key value next =>
      simp only [perform]
      split
      · exact .inl (h.push (hrun hs.2))
      · rename_i R hR
        let R' : Runner (Script σ) := { R with blackboard := R.blackboard.set key value }
        have hcards : (m.world.setRunner r R').card? = m.world.card? :=
          World.card?_setRunner_of_eq hR rfl
        exact .inl ((h.setRunner hR R' rfl).push (hcards.symm ▸ hrun hs.2))
  | release r next =>
      refine (h.push (hrun hs.2)).release hp fun R hR hd visit hmem => ?_
      rcases List.mem_cons.1 hmem with hmem | hmem
      · cases hmem
      · exact hidle r R hR hd visit hmem
  | close | done | onLeave => exact hs.self.elim

/-- A step of somebody who is called, or comes from outside. -/
theorem called (h : m.Balanced b waits) (hp : m.panic = none)
    (hfits : ∀ next : Script σ, next.Called → (Frame.run next).Fits m.world.card? m.stack)
    (hnot : ∀ r visit below, m.stack ≠ .entering r visit :: below)
    (hidle : ∀ r, ∀ R ∈ m.world.runners[r]?, R.dispatching = false →
      ∀ visit, .entering r visit ∉ m.stack) {s : Script σ} (hs : s.Called)
    (hfair : s.Fair m.world) (hafter : (m.push (.run s)).After b waits waits') :
    (m.perform s).Nearly kinds b waits' := by
  have hbegins : ∀ r visit w, ¬(m.push (.run s)).Begins b r visit w := by
    intro r visit w hbegins
    obtain ⟨below, hstack⟩ := hbegins.stack
    exact hnot r visit below (List.cons.inj hstack).2
  have hsame : (∀ judge, s.judges? ≠ some (b, judge)) → waits' = waits := by
    refine fun hne => hafter.eq_of_quiet ⟨hbegins, fun w hnotifies => ?_⟩
    obtain ⟨s', below, judge, hstack, hjudges, -⟩ := hnotifies.judged
    obtain rfl := Frame.run.inj (List.cons.inj hstack).1
    exact hne judge hjudges
  rcases hs with hs | ⟨v, rfl⟩
  · cases hjudges : s.judges? with
    | none =>
        rw [hsame fun judge => by simp [hjudges]]
        exact h.others hp hfits hidle hs hfair hjudges
    | some e =>
        obtain ⟨b', judge⟩ := e
        obtain ⟨next, hnext, halone, hjudged⟩ := exists_dismisses_perform (m := m) hjudges
        refine .inl ((h.push (hfits next (.inl (hnext _ hs)))).judged halone hjudged
          (fun hb B hB r visit w => ?_) fun hb => hsame fun judge' heq => hb ?_)
        · subst hb
          rw [hafter r visit w, or_iff_right (hbegins r visit w)]
          refine and_congr_right fun _ => not_congr ⟨fun hnotifies => ?_, fun hdue => ?_⟩
          · obtain ⟨s', below, judge', hstack, hjudges', B', hB', hdue⟩ := hnotifies.judged
            obtain rfl := Frame.run.inj (List.cons.inj hstack).1
            obtain ⟨-, rfl⟩ := Prod.mk.inj (Option.some.inj (hjudges.symm.trans hjudges'))
            obtain rfl := Option.some.inj (hB.symm.trans hB')
            exact hdue
          · exact ⟨hp, s, m.stack, judge, rfl, hjudges, B, hB, hdue⟩
        · exact (Prod.mk.inj (Option.some.inj (hjudges.symm.trans heq))).1
  · rw [hsame fun judge hjudges => by cases hjudges]
    exact .inl (h.done _ _ fun _ => Frame.fits_stop _ _)

/-- A step of a script, whoever's it is. -/
theorem runs (h : m.Balanced b waits) (hp : m.panic = none) {s : Script σ}
    (hfits : (Frame.run s).Fits m.world.card? m.stack)
    (hidle : ∀ r, ∀ R ∈ m.world.runners[r]?, R.dispatching = false →
      ∀ visit, .entering r visit ∉ m.stack)
    (honce : ∀ r, ∀ R ∈ m.world.runners[r]?, ∀ visit below,
      m.stack = .entering r visit :: below → ∀ visit', .entering r visit' ∉ below)
    (hfair : (m.push (.run s)).Fair) (hafter : (m.push (.run s)).After b waits waits') :
    (m.perform s).Nearly kinds b waits' := by
  have hstops : s = .stop → (m.perform s).Nearly kinds b waits' := by
    rintro rfl
    have hquiet : (m.push (.run .stop)).Quiet b :=
      quiet_of_head rfl fun s hs => Frame.run.inj hs ▸ not_false
    rw [hafter.eq_of_quiet hquiet]
    exact .inl h
  cases hm : m.stack with
  | nil =>
      rw [hm] at hfits
      refine h.called hp ?_ (fun r visit below hs => ?_) hidle hfits
        (hfair s (by rw [running?, Machine.push, hm]; rfl)) hafter
      · rw [hm]
        exact fun next hnext => hnext
      · rw [hm] at hs
        cases hs
  | cons g below =>
      rw [hm] at hfits
      cases g with
      | entering r visit =>
          rcases hfits with hstop | hs
          · exact hstops hstop
          · obtain ⟨c, hc, -⟩ := hs.2
            obtain ⟨R, hR, -⟩ := World.exists_of_mem_card? hc
            exact h.entered hp hm (honce r R hR visit below hm) hs hafter
      | exiting r visit => exact hstops hfits
      | run | deliver | dispatch | leaving =>
          refine h.called hp ?_ (fun r visit below hs => ?_) hidle hfits
            (hfair s (by rw [running?, Machine.push, hm]; rfl)) hafter
          · rw [hm]
            exact fun next hnext => hnext
          · rw [hm] at hs
            cases hs

end Balanced

structure Orderly (m : Machine σ) : Prop where
  /-- While a node is entered its runner is at work. -/
  idle : ∀ r, ∀ R ∈ m.world.runners[r]?, R.dispatching = false →
    ∀ visit, .entering r visit ∉ m.stack
  /-- A runner takes a task when none of its nodes is called. -/
  working : ∀ r, ∀ R ∈ m.world.runners[r]?, ∀ f below, m.stack = f :: below →
    ((∃ entered, f = .dispatch r entered) ∨ ∃ target, f = .leaving r target) →
    ∀ visit, .entering r visit ∉ below
  arriving : ∀ r target below, m.stack = .leaving r target :: below →
    ∀ R ∈ m.world.runners[r]?, R.current = none ∧ R.isAlive = true ∧
      ∀ node ∈ target, R.graph.node? node.id = some node
  once : ∀ r, ∀ R ∈ m.world.runners[r]?, ∀ visit f below,
    m.stack = f :: .entering r visit :: below → ∀ visit', .entering r visit' ∉ below
  caught : m.panic ≠ none → ∀ f ∈ m.stack.head?, f.Catches

/-- Every step leaves the books in order, or is followed by one that does. -/
theorem Balanced.next (h : m.Balanced b waits) (ho : m.Orderly) (hfair : m.Fair)
    (hafter : m.After b waits waits') (hn : Next Builtin.registry m n) :
    n.Nearly Builtin.registry b waits' := by
  obtain ⟨f, below, hm, hstep⟩ := exists_of_next hn
  have hpop := h.pop hm
  have hfits : f.Fits m.world.card? below := by
    have hfitting := h.fitting
    rw [hm] at hfitting
    exact hfitting.1
  have hquiet : (∀ s, f ≠ .run s) → waits' = waits := fun hne =>
    hafter.eq_of_quiet (quiet_of_head hm fun s hs => absurd hs (hne s))
  obtain ⟨hp, rfl⟩ | ⟨hp, rfl⟩ := hstep
  · have hp' : ({ m with stack := below } : Machine σ).panic = none := hp
    cases f with
    | run s =>
        have hsame : ({ m with stack := below } : Machine σ).push (.run s) = m := by
          rw [Machine.push, ← hm]
        refine hpop.runs hp' hfits (fun r R hR hd visit hbelow => ?_)
          (fun r R hR visit below' hbelow => ?_) (hsame.symm ▸ hfair) (hsame.symm ▸ hafter)
        · exact ho.idle r R hR hd visit (hm ▸ List.mem_cons_of_mem _ hbelow)
        · exact ho.once r R hR visit _ below' (hm.trans (congrArg _ hbelow))
    | deliver bus rest =>
        rw [hquiet fun s hs => by cases hs]
        cases rest with
        | nil =>
            cases bus with
            | none => exact .inl hpop
            | some b' => exact .inl (hpop.expireBus b')
        | cons s rest =>
            obtain ⟨hs, hrest⟩ := List.forall_mem_cons.1 hfits
            exact .inl ((hpop.push (f := .deliver bus rest) hrest).push (f := .run s) hs)
    | dispatch r entered =>
        rw [hquiet fun s hs => by cases hs]
        simp only [resume]
        split
        · exact .inl hpop
        · rename_i R hR
          exact hpop.dispatch hp' hR (ho.working r R hR _ below hm (.inl ⟨entered, rfl⟩))
            entered
    | entering | exiting =>
        rw [hquiet fun s hs => by cases hs]
        exact .inl hpop
    | leaving r target =>
        rw [hquiet fun s hs => by cases hs]
        simp only [resume]
        split
        · exact .inl hpop
        · rename_i R hR
          exact .inl (hpop.setRunner hR _ rfl)
        · rename_i R node hR
          obtain ⟨hnone, halive, hnode⟩ := ho.arriving r _ below hm R hR
          exact .inl (hpop.enter hR hnone halive
            (ho.working r R hR _ below hm (.inr ⟨_, rfl⟩)) (hnode node rfl))
  · have hcatches := ho.caught hp f (by rw [hm]; rfl)
    rw [hquiet fun s hs => by cases hcatches <;> cases hs]
    refine .inl ?_
    cases hcatches with
    | deliver bus rest => exact ⟨hpop.ledger, hpop.calls, hfits, hpop.fitting⟩
    | exiting r visit => exact ⟨hpop.ledger, hpop.calls, hpop.fitting⟩

end Machine

end StoryGraph
