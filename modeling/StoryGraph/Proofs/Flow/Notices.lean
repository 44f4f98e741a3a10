import StoryGraph.Proofs.Flow.Attention

/-!
# Notices of quest logs

What a step does to the buses of a world leaves the listeners of quest logs in order
(`Machine.keeps_perform`), and those from outside are read off the moments of a session
(`Machine.outsiders`). When a quest log changes, every bus for which somebody waits in it is among
those who are told. So as long as somebody waits for a quest that is completed, a notice to that bus
is still to come (`Machine.Owed`), and none is to come when nothing is going on.
-/

namespace StoryGraph

variable {σ : Type}

def Script.OfLog : Script σ → Prop
  | .quest .. | .advance .. | .listen .. | .unlisten .. => True
  | _ => False

def Script.unlisten? : Script σ → Option (Nat × Nat)
  | .unlisten l id _ => some (l, id)
  | _ => none

/-- Those who listen to a quest log from outside, after a step of a script. -/
def Script.enlist (w : World (Script σ)) (l : Nat) (outside : List (Nat × Script σ)) :
    Script σ → List (Nat × Script σ)
  | .listen l' listener _ =>
    if l' = l then
      outside ++ (w.logs[l]?).toList.map fun L => ((L.listen listener).1, listener)
    else outside
  | .unlisten l' id _ => if l' = l then outside.filter fun e => e.1 ≠ id else outside
  | _ => outside

namespace Machine

open World (Keeps Unsettled)

variable {kinds : Registry (Behaviour σ)} {m n k : Machine σ} {b : Nat} {B : Bus (Script σ)}
  {outside : Nat → List (Nat × Script σ)} {past : List (Machine σ)}

/-! ### What happens to buses -/

theorem keeps_expireBus (m : Machine σ) (b : Nat) : Keeps m.world (m.expireBus b).world := by
  rcases world_expireBus m b with h | ⟨B, hB, -, h⟩
  · rw [h]
    exact .refl m.world
  · rw [h]
    exact .expire hB

theorem keeps_close (m : Machine σ) (b : Nat) : Keeps m.world (m.close b).world := by
  unfold close
  split
  · exact .refl m.world
  · rename_i B hB
    have hreleased : Keeps m.world
        (m.world.setBus b { B with lifetime := B.lifetime.release }) := by
      refine .store hB rfl rfl rfl ?_
      cases hlife : B.lifetime <;> simp [Bus.isAlive, Lifetime.release, hlife]
    exact hreleased.trans (keeps_expireBus { m with world := _ } b)

theorem keeps_raise (m : Machine σ) (b : Nat) (key : String) :
    Keeps m.world (m.raise b key).world := by
  unfold raise
  split
  · exact .refl m.world
  · rename_i B hB
    split
    · refine .store (World.bus?_eq_some_iff.1 hB).1 ?_ ?_ ?_ ?_ <;>
        by_cases hkey : key ∈ B.pending <;> simp [Bus.hold, Bus.isAlive, hkey]
    · exact .refl m.world

theorem keeps_subscribe (m : Machine σ) (b : Nat) (key : String) (callback : Script σ)
    (next : Option Nat → Script σ) : Keeps m.world (m.subscribe b key callback next).world := by
  unfold subscribe
  split
  · exact .refl m.world
  · rename_i B hB
    split
    · exact .store (World.bus?_eq_some_iff.1 hB).1 rfl rfl rfl rfl
    · exact .store (World.bus?_eq_some_iff.1 hB).1 rfl rfl rfl rfl

theorem keeps_await (m : Machine σ) (b : Nat) (name : String) (callback : Script σ)
    (next : Option Nat → Script σ) : Keeps m.world (m.await b name callback next).world := by
  unfold await
  split
  · exact .refl m.world
  · rename_i B hB
    split
    · exact .refl m.world
    · rename_i hknows
      exact .await hB (s := ⟨name, B.lastId + 1, callback⟩) (by simpa using hknows)

theorem keeps_notify (m : Machine σ) (b : Nat) : Keeps m.world (m.notify b).world := by
  cases hB : m.world.bus? b with
  | none =>
      rw [notify_of_none hB]
      exact .refl m.world
  | some B =>
      rw [world_notify hB]
      split
      · exact .refl m.world
      · exact .settle hB fun s hs => List.mem_of_mem_filter hs

theorem not_unsettled_notify (m : Machine σ) (b : Nat) : ¬(m.notify b).world.Unsettled b := by
  rintro ⟨B', hB', ⟨l, hservice⟩, s, hs, hknows⟩
  cases hB : m.world.bus? b with
  | none =>
      rw [notify_of_none hB, hB] at hB'
      cases hB'
  | some B =>
      rw [world_notify hB] at hB' hknows
      split at hB'
      · rename_i hnone
        obtain rfl := Option.some.inj (hB.symm.trans hB')
        rw [hservice] at hnone
        cases hnone
      · rename_i hsome
        rw [if_neg hsome, World.knowsCompleted_congr (World.states_settle ..) rfl] at hknows
        have hget := (World.bus?_eq_some_iff.1 hB').1
        have hlt := (List.getElem?_eq_some_iff.1 (World.bus?_eq_some_iff.1 hB).1).1
        rw [World.buses_settle, List.getElem?_set_self hlt] at hget
        obtain rfl := Option.some.inj hget
        have hwaits : s ∈ B.waiters.filter fun s => !m.world.knowsCompleted B s.topic := hs
        have hnot := (List.mem_filter.1 hwaits).2
        have hdue : m.world.knowsCompleted B s.topic = true := by
          rw [← hknows]
          exact (World.knowsCompleted_congr rfl rfl s.topic).symm
        rw [hdue] at hnot
        cases hnot

theorem keeps_serve (m : Machine σ) (b : Nat) (service : Option QuestService) :
    Keeps m.world (m.serve b service).world := by
  cases hB : m.world.bus? b with
  | none =>
      rw [serve_of_none hB]
      exact .refl m.world
  | some B =>
      have hget := (World.bus?_eq_some_iff.1 hB).1
      by_cases hwaiters : B.waiters = []
      · rw [serve_of_waiters hB hwaiters]
        exact .attach hget hwaiters service
      · obtain ⟨watch, hserve, -⟩ := exists_notify_of_serve hB hwaiters service
        obtain ⟨watch', hbuses, -⟩ := World.exists_buses_attach m.world b B service
        have hkeeps := keeps_notify { m with world := m.world.attach b B service } b
        rw [hserve]
        refine ⟨fun h => hkeeps.listed (h.attach hget service),
          fun h => hkeeps.watched (h.attach hB hwaiters service), fun {b'} h => ?_⟩
        -- In between somebody may wait on this bus for nothing, but the notice calls him.
        by_cases hb : b' = b
        · exact absurd (hb ▸ h) (not_unsettled_notify _ b)
        · refine (hkeeps.settled h).congr ?_ (World.states_attach ..)
          rw [World.bus?, hbuses, List.getElem?_set_ne (Ne.symm hb), World.bus?]

theorem keeps_perform (m : Machine σ) {s : Script σ} (hs : ¬s.OfLog) :
    Keeps m.world (m.perform s).world := by
  by_cases haside : s.Aside
  · exact .of_untouched (untouched_perform m haside)
  cases s with
  | raise b key next => exact keeps_raise (m.push (.run next)) b key
  | subscribe b key callback next => exact keeps_subscribe m b key callback next
  | unsubscribe b key id next =>
      simp only [perform]
      split
      · exact .refl m.world
      · rename_i B hB
        exact .store (World.bus?_eq_some_iff.1 hB).1 rfl rfl rfl rfl
  | clear b next =>
      simp only [perform]
      split
      · exact .refl m.world
      · rename_i B hB
        exact .store (World.bus?_eq_some_iff.1 hB).1 rfl rfl rfl rfl
  | await b name callback next => exact keeps_await m b name callback next
  | unawait b name id next =>
      simp only [perform]
      split
      · exact .refl m.world
      · rename_i B hB
        exact .settle hB fun s hs => List.mem_of_mem_filter hs
  | notify b next => exact keeps_notify (m.push (.run next)) b
  | serve b service next => exact keeps_serve (m.push (.run next)) b service
  | close b next => exact keeps_close (m.push (.run next)) b
  | quest | advance | listen | unlisten => exact absurd trivial hs
  | _ => exact absurd trivial haside

theorem keeps_next (hs : m.asked? = none) (hn : Next kinds m n) : Keeps m.world n.world := by
  rcases next_cases hn with ⟨s, below, hasked, -⟩ | ⟨-, h | ⟨k, b, hk, hn⟩⟩
  · rw [hs] at hasked
    cases hasked
  · exact .of_untouched h
  · rw [hn]
    exact Keeps.trans (.of_untouched hk) (keeps_expireBus k b)

/-! ### Listeners from outside -/

def outsiders (l : Nat) (past : List (Machine σ)) : List (Nat × Script σ) :=
  past.foldr (fun m outside => m.asked?.elim outside (Script.enlist m.world l outside)) []

/-- Nobody takes the listener of a bus out of a quest log in the next step. -/
def Honest (m : Machine σ) : Prop :=
  ∀ l id, m.asked?.bind Script.unlisten? = some (l, id) → id ∉ (m.world.notices l).map Prod.fst

theorem listed_advance (h : m.world.Listed outside) (bus : Option Nat) (l : Nat) (name : String)
    (step : QuestStep) : (m.advance bus l name step).world.Listed outside := by
  unfold advance
  split
  · exact h
  · rename_i L' hL'
    obtain ⟨L, hL, hadvance⟩ := Option.bind_eq_some_iff.1 hL'
    have hkept := QuestLog.listeners_of_advance? hadvance
    have hnumbered := h.numbered L (List.mem_of_getElem? hL)
    refine h.setLog ⟨?_, ?_⟩ ?_ fun _ _ => rfl
    · rw [hkept.1]
      exact hnumbered.nodup
    · rw [hkept.1, hkept.2]
      exact hnumbered.le
    · rw [hkept.1]
      exact h.perm l L hL

theorem listed_perform (h : m.world.Listed outside) (s : Script σ)
    (honest : ∀ l id, s.unlisten? = some (l, id) → id ∉ (m.world.notices l).map Prod.fst) :
    (m.perform s).world.Listed fun l => s.enlist m.world l (outside l) := by
  by_cases hlog : s.OfLog
  · cases s with
    | quest b name step next =>
        simp only [perform]
        split
        · exact h
        · rename_i service _
          exact listed_advance (m := m.push (.run next)) h (some b) service.log name step
    | advance l name step next =>
        exact listed_advance (m := m.push (.run next)) h none l name step
    | listen l listener next =>
        have hother : ∀ l', l' ≠ l → Script.enlist m.world l' (outside l')
            (.listen l listener next) = outside l' := fun l' hl => if_neg (Ne.symm hl)
        simp only [perform]
        split
        · rename_i hL
          exact h.congr fun l' L hL' => hother l' fun hl => by simp [← hl, hL'] at hL
        · rename_i L hL
          refine h.listen hL listener ?_ hother
          rw [Script.enlist, if_pos rfl, hL]
          rfl
    | unlisten l id next =>
        have hother : ∀ l', l' ≠ l → Script.enlist m.world l' (outside l')
            (.unlisten l id next) = outside l' := fun l' hl => if_neg (Ne.symm hl)
        simp only [perform]
        split
        · rename_i hL
          exact h.congr fun l' L hL' => hother l' fun hl => by simp [← hl, hL'] at hL
        · rename_i L hL
          exact h.unlisten hL (honest l id rfl) (if_pos rfl) hother
    | _ => exact hlog.elim
  · have hsame : (fun l => s.enlist m.world l (outside l)) = outside := by
      funext l
      cases s with
      | listen | unlisten => exact absurd trivial hlog
      | _ => rfl
    rw [hsame]
    exact (keeps_perform m hlog).listed h

/-- The listeners of each quest log stay those from outside and those of the buses. -/
theorem listed_next (h : m.world.Listed fun l => outsiders l past) (honest : m.Honest)
    (hn : Next kinds m n) : n.world.Listed fun l => outsiders l (m :: past) := by
  rcases next_cases hn with ⟨s, below, hs, -, rfl⟩ | ⟨hs, -⟩
  · have hnow : ∀ l, outsiders l (m :: past) = s.enlist m.world l (outsiders l past) := by
      intro l
      rw [outsiders, List.foldr_cons, hs]
      rfl
    simp only [hnow]
    refine listed_perform (m := { m with stack := below }) h s fun l id hid => ?_
    exact honest l id (by rw [hs]; exact hid)
  · have hnow : ∀ l, outsiders l (m :: past) = outsiders l past := by
      intro l
      rw [outsiders, List.foldr_cons, hs]
      rfl
    simp only [hnow]
    exact (keeps_next hs hn).listed h

/-! ### Notices that are still to come -/

/-- A notice to a bus is still to come. -/
def Owed (b : Nat) (m : Machine σ) : Prop :=
  (∃ bus rest, .deliver bus rest ∈ m.stack ∧ .notify b .stop ∈ rest) ∨
    m.asked? = some (.notify b .stop)

theorem Owed.next (h : m.Owed b) (hn : Next kinds m n) :
    n.Owed b ∨ m.asked? = some (.notify b .stop) := by
  rcases h with ⟨bus, rest, hmem, hrest⟩ | hasked
  · left
    obtain ⟨f, below, hm⟩ := List.exists_cons_of_ne_nil (List.ne_nil_of_mem hmem)
    -- Only the delivery on top of the stack moves on, and a panic does not end it.
    by_cases hbelow : .deliver bus rest ∈ below
    · obtain ⟨new, hstack, -⟩ := exists_new_of_next hm hn
      exact .inl ⟨bus, rest, hstack ▸ List.mem_append_right new hbelow, hrest⟩
    · obtain rfl : .deliver bus rest = f :=
        (List.mem_cons.1 (hm ▸ hmem)).resolve_right hbelow
      by_cases hp : m.panic = none
      · obtain rfl := eq_resume_of_next hm hp hn
        cases rest with
        | nil => cases hrest
        | cons s rest =>
            rcases List.mem_cons.1 hrest with rfl | hrest
            · exact .inr (asked?_eq_some_iff.2 ⟨hp, _, rfl⟩)
            · exact .inl ⟨bus, rest, List.mem_cons_of_mem _ List.mem_cons_self, hrest⟩
      · obtain rfl := eq_unwind_of_next hm hp hn
        exact .inl ⟨bus, rest, List.mem_cons_self, hrest⟩
  · exact .inr hasked

/-- When a quest log changes, each bus for which somebody waits in it is told. -/
theorem unsettled_advance (hlisted : m.world.Listed outside) (hwatched : m.world.Watched)
    (bus : Option Nat) (l : Nat) (name : String) (step : QuestStep)
    (h : (m.advance bus l name step).world.Unsettled b) :
    m.world.Unsettled b ∨ (m.advance bus l name step).Owed b := by
  unfold advance at h ⊢
  split at h
  · exact .inl h
  · rename_i L' hL'
    obtain ⟨L, hL, hadvance⟩ := Option.bind_eq_some_iff.1 hL'
    obtain ⟨B, hB, ⟨l', hservice⟩, s, hs, hknows⟩ := h
    obtain ⟨hget, halive⟩ := World.bus?_eq_some_iff.1 hB
    by_cases hl : l' = l
    · -- Somebody waits, so the bus listens to the log, and is among those whom the log tells.
      subst hl
      have hwatch : B.watch.isSome := by
        refine (hwatched B (List.mem_of_getElem? hget)).2 ⟨halive, ?_, List.ne_nil_of_mem hs⟩
        rw [hservice]
        rfl
      obtain ⟨id, hid⟩ := Option.isSome_iff_exists.1 hwatch
      have hnotice : (id, .notify b .stop) ∈ L.listeners :=
        (hlisted.perm l' L hL).mem_iff.2
          (List.mem_append_right _ (World.mem_notices hget hid hservice))
      rw [← (QuestLog.listeners_of_advance? hadvance).1] at hnotice
      exact .inr (.inl ⟨bus, _, List.mem_cons_self, List.mem_map_of_mem hnotice⟩)
    · refine .inl ⟨B, hB, ⟨l', hservice⟩, s, hs, ?_⟩
      have hother : (m.world.setLog l L').logs[l']? = m.world.logs[l']? :=
        List.getElem?_set_ne (Ne.symm hl)
      rw [← hknows, World.knowsCompleted, World.logOf?, hservice, Option.bind_some, ← hother]
      rw [World.knowsCompleted, World.logOf?, hservice, Option.bind_some]
      rfl

/-- Whoever begins to wait for nothing does so because a quest log changes. -/
theorem unsettled_next (hlisted : m.world.Listed outside) (hwatched : m.world.Watched)
    (hn : Next kinds m n) (h : n.world.Unsettled b) : m.world.Unsettled b ∨ n.Owed b := by
  rcases next_cases hn with ⟨s, below, hs, -, rfl⟩ | ⟨hs, -⟩
  · by_cases hlog : s.OfLog
    · cases s with
      | quest b' name step next =>
          simp only [perform] at h ⊢
          split at h
          · exact .inl h
          · rename_i service _
            exact unsettled_advance (m := ({ m with stack := below } : Machine σ).push (.run next))
              hlisted hwatched (some b') service.log name step h
      | advance l name step next =>
          exact unsettled_advance (m := ({ m with stack := below } : Machine σ).push (.run next))
            hlisted hwatched none l name step h
      | listen | unlisten =>
          simp only [perform] at h
          split at h
          · exact .inl h
          · rename_i L hL
            exact .inl (h.congr rfl (World.states_setLog_of_eq hL rfl))
      | _ => exact hlog.elim
    · exact .inl ((keeps_perform ({ m with stack := below } : Machine σ) hlog).settled h)
  · exact .inl ((keeps_next hs hn).settled h)

theorem buses_advance (m : Machine σ) (bus : Option Nat) (l : Nat) (name : String)
    (step : QuestStep) : (m.advance bus l name step).world.buses = m.world.buses := by
  unfold advance
  split <;> rfl

theorem buses_perform (m : Machine σ) {s : Script σ} (hs : s.OfLog) :
    (m.perform s).world.buses = m.world.buses := by
  cases s with
  | quest b name step next =>
      simp only [perform]
      split
      · rfl
      · exact buses_advance (m.push (.run next)) ..
  | advance l name step next => exact buses_advance (m.push (.run next)) ..
  | listen | unlisten =>
      simp only [perform]
      split <;> rfl
  | _ => exact hs.elim

/-! ### Every moment -/

theorem watched_next (h : m.world.Watched) (hn : Next kinds m n) : n.world.Watched := by
  rcases next_cases hn with ⟨s, below, hs, -, rfl⟩ | ⟨hs, -⟩
  · by_cases hlog : s.OfLog
    · rw [World.Watched, buses_perform _ hlog]
      exact h
    · exact (keeps_perform ({ m with stack := below } : Machine σ) hlog).watched h
  · exact (keeps_next hs hn).watched h

theorem notices_of_fresh (hm : m.Fresh) (l : Nat) : m.world.notices l = [] := by
  rw [List.eq_nil_iff_forall_not_mem]
  intro e he
  rw [World.notices, List.reduceOption_mem_iff, List.mem_mapIdx] at he
  obtain ⟨b, hb, he⟩ := he
  obtain ⟨service, hB⟩ := hm.buses _ (List.getElem_mem hb)
  rw [hB, World.notice?_of_watch rfl] at he
  cases he

theorem Record.watched (h : Record kinds m past n) (hm : m.Fresh) : n.world.Watched := by
  induction h with
  | refl =>
      intro B hB
      obtain ⟨service, rfl⟩ := hm.buses B hB
      simp [Bus.Watching]
  | step _ next ih => exact watched_next ih next
  | call _ _ _ ih => exact ih

theorem Record.listed (h : Record kinds m past n) (hm : m.Fresh) (honest : ∀ k ∈ past, k.Honest) :
    n.world.Listed fun l => outsiders l past := by
  induction h with
  | refl =>
      have hnone : ∀ L ∈ m.world.logs, L.listeners = [] := hm.logs
      refine ⟨fun l L hL => ?_, fun L hL => ?_⟩
      · rw [hnone L (List.mem_of_getElem? hL), notices_of_fresh hm]
        exact .refl _
      · constructor <;> simp [hnone L hL]
  | @step past n k _ next ih =>
      obtain ⟨hn, hpast⟩ := List.forall_mem_cons.1 honest
      exact listed_next (ih hpast) hn next
  | call _ _ _ ih => exact ih honest

theorem not_owed_of_stack (hm : m.stack = []) (b : Nat) : ¬m.Owed b := by
  rintro (⟨bus, rest, hmem, -⟩ | hasked)
  · rw [hm] at hmem
    cases hmem
  · obtain ⟨-, below, hstack⟩ := asked?_eq_some_iff.1 hasked
    rw [hm] at hstack
    cases hstack

/-- As long as somebody waits for nothing, a notice is to come. -/
theorem Record.owed (h : Record kinds m past n) (hm : m.Fresh) (honest : ∀ k ∈ past, k.Honest)
    (hb : n.world.Unsettled b) : n.Owed b := by
  induction h with
  | refl =>
      obtain ⟨B, hB, -, s, hs, -⟩ := hb
      obtain ⟨service, rfl⟩ := hm.buses B (List.mem_of_getElem? (World.bus?_eq_some_iff.1 hB).1)
      cases hs
  | @step past n k h next ih =>
      obtain ⟨-, hpast⟩ := List.forall_mem_cons.1 honest
      rcases unsettled_next (h.listed hm hpast) (h.watched hm) next hb with hold | howed
      · rcases (ih hpast hold).next next with howed | hasked
        · exact howed
        · obtain ⟨hp, below, hstack⟩ := asked?_eq_some_iff.1 hasked
          obtain rfl := eq_resume_of_next hstack hp next
          exact absurd hb
            (not_unsettled_notify (({ n with stack := below } : Machine σ).push (.run .stop)) b)
      · exact howed
  | call _ rests _ ih => exact absurd (ih honest hb) (not_owed_of_stack rests b)

end Machine

end StoryGraph
