import StoryGraph.Proofs.Flow.Deeds
import Mathlib.Data.List.ReduceOption

/-!
# Who listens to a quest log

A bus listens to the quest log that it is attached to by a listener of its own, which makes it look
at those who wait (`Bus.notice?`). The listeners of a quest log are those from outside and those of
the buses that listen to it (`World.Listed`), and a bus listens if there is a quest service and
somebody who waits (`Bus.Watching`).

What happens to the buses of a world keeps both and leaves nobody waiting for a quest that is
completed who did not do so before (`World.Keeps`).
-/

namespace StoryGraph

variable {σ : Type}

/-! ### Quest logs -/

namespace QuestLog

variable {κ : Type _} {L : QuestLog κ}

structure Numbered (L : QuestLog κ) : Prop where
  nodup : (L.listeners.map Prod.fst).Nodup
  le : ∀ e ∈ L.listeners, e.1 ≤ L.lastId

theorem Numbered.listen (h : L.Numbered) (listener : κ) : (L.listen listener).2.Numbered := by
  refine ⟨?_, fun e he => ?_⟩
  · rw [QuestLog.listen, List.map_append, List.nodup_append]
    refine ⟨h.nodup, List.nodup_singleton _, fun id hid id' hid' heq => ?_⟩
    obtain ⟨e, he, rfl⟩ := List.mem_map.1 hid
    obtain rfl := List.mem_singleton.1 hid'
    exact absurd (h.le e he) (by simp [heq])
  · rcases List.mem_append.1 he with he | he
    · exact (h.le e he).trans (Nat.le_succ _)
    · rw [List.mem_singleton.1 he]
      exact le_rfl

theorem Numbered.unlisten (h : L.Numbered) (id : Nat) : (L.unlisten id).2.Numbered :=
  ⟨h.nodup.sublist (List.filter_sublist.map _), fun e he => h.le e (List.mem_of_mem_filter he)⟩

theorem perm_listen {front back : List (Nat × κ)} (hperm : L.listeners.Perm (front ++ back))
    (listener : κ) : (L.listen listener).2.listeners.Perm
      (front ++ ((L.listen listener).1, listener) :: back) :=
  (hperm.append_right _).trans (by
    rw [List.append_assoc]
    exact List.perm_append_comm.append_left front)

theorem Numbered.perm_unlisten (h : L.Numbered) {e : Nat × κ} {rest : List (Nat × κ)}
    (hperm : L.listeners.Perm (e :: rest)) : (L.unlisten e.1).2.listeners.Perm rest := by
  have hnodup := (List.Perm.nodup_iff (hperm.map Prod.fst)).1 h.nodup
  obtain ⟨hnew, -⟩ := List.nodup_cons.1 hnodup
  have hrest : rest.filter (fun l => l.1 ≠ e.1) = rest := by
    refine List.filter_eq_self.2 fun l hl => ?_
    have hne : l.1 ≠ e.1 := fun heq => hnew (heq ▸ List.mem_map_of_mem hl)
    simpa using hne
  have hfilter := hperm.filter fun l => l.1 ≠ e.1
  rw [List.filter_cons_of_neg (by simp), hrest] at hfilter
  exact hfilter

end QuestLog

/-! ### Listeners of buses -/

def Bus.notice? (b l : Nat) (B : Bus (Script σ)) : Option (Nat × Script σ) :=
  if B.service = some ⟨l, true⟩ then B.watch.map fun id => (id, .notify b .stop) else none

namespace World

variable {w w' w'' : World (Script σ)} {b l : Nat} {B B' : Bus (Script σ)}

def notices (w : World (Script σ)) (l : Nat) : List (Nat × Script σ) :=
  (w.buses.mapIdx fun b B => B.notice? b l).reduceOption

theorem length_reduceOption_mapIdx {α β : Type _} {f : Nat → α → Option β} {p : α → Bool}
    (hf : ∀ i a, (f i a).isSome = p a) (l : List α) :
    (l.mapIdx f).reduceOption.length = l.countP p := by
  induction l generalizing f with
  | nil => rfl
  | cons a l ih =>
      rw [List.mapIdx_cons, List.countP_cons, ← hf 0 a]
      cases f 0 a with
      | none => simpa using ih fun i => hf (i + 1)
      | some b => simpa using ih fun i => hf (i + 1)

/-- As many listeners have been put into a quest log by buses as there are such that listen to
it. -/
theorem length_notices (w : World (Script σ)) (l : Nat) : (w.notices l).length =
    w.buses.countP fun B => B.service = some ⟨l, true⟩ && B.watch.isSome := by
  refine length_reduceOption_mapIdx (fun b B => ?_) w.buses
  by_cases hservice : B.service = some ⟨l, true⟩ <;> simp [Bus.notice?, hservice]

theorem reduceOption_set {α : Type _} {l : List (Option α)} {i : Nat} (hi : i < l.length)
    (o : Option α) : (l.set i o).reduceOption.Perm
      (o.toList ++ ((l.take i).reduceOption ++ (l.drop (i + 1)).reduceOption)) := by
  rw [List.set_eq_take_append_cons_drop, if_pos hi, List.reduceOption_append]
  cases o with
  | none => exact .refl _
  | some a => exact List.perm_middle

/-- When a bus is exchanged for another, the listeners of the others stay. -/
theorem exists_notices (hB : w.buses[b]? = some B) (l : Nat) : ∃ others,
    (w.notices l).Perm ((B.notice? b l).toList ++ others) ∧
    ∀ (w' : World (Script σ)) (B' : Bus (Script σ)), w'.buses = w.buses.set b B' →
      (w'.notices l).Perm ((B'.notice? b l).toList ++ others) := by
  obtain ⟨hlt, hget⟩ := List.getElem?_eq_some_iff.1 hB
  let others := w.buses.mapIdx fun b B => B.notice? b l
  have hset : ∀ (w' : World (Script σ)) (B' : Bus (Script σ)), w'.buses = w.buses.set b B' →
      (w'.notices l).Perm ((B'.notice? b l).toList ++
        ((others.take b).reduceOption ++ (others.drop (b + 1)).reduceOption)) := by
    intro w' B' h
    rw [notices, h, List.mapIdx_set]
    exact reduceOption_set (by simpa using hlt) _
  refine ⟨_, hset w B ?_, hset⟩
  rw [← hget, List.set_getElem_self]

theorem mem_notices (hB : w.buses[b]? = some B) {id : Nat} (hwatch : B.watch = some id)
    (hservice : B.service = some ⟨l, true⟩) : (id, .notify b .stop) ∈ w.notices l := by
  obtain ⟨others, hperm, -⟩ := exists_notices hB l
  refine hperm.mem_iff.2 (List.mem_append_left _ ?_)
  simp [Bus.notice?, hwatch, hservice]

theorem notice?_of_service (h : B.service = some ⟨l, true⟩) (b : Nat) :
    B.notice? b l = B.watch.map fun id => (id, .notify b .stop) :=
  if_pos h

theorem notice?_of_ne (h : B.service ≠ some ⟨l, true⟩) (b : Nat) : B.notice? b l = none :=
  if_neg h

theorem notice?_of_watch (h : B.watch = none) (b l : Nat) : B.notice? b l = none := by
  simp [Bus.notice?, h]

theorem notice?_of_other {pushes : Bool} {l' : Nat} (h : B.service = some ⟨l, pushes⟩)
    (hne : l' ≠ l) (b : Nat) : B.notice? b l' = none :=
  notice?_of_ne
    (fun heq => hne (congrArg QuestService.log (Option.some.inj (heq.symm.trans h)))) b

/-- A bus listens to no quest log if its own is not there or does not push. -/
theorem notice?_of_absent {pushes : Bool} {l' : Nat} {L : QuestLog (Script σ)}
    (h : B.service = some ⟨l, pushes⟩)
    (hno : ∀ L, pushes = true → w.logs[l]? = some L → False) (hL : w.logs[l']? = some L)
    (b : Nat) : B.notice? b l' = none := by
  refine notice?_of_ne (fun heq => ?_) b
  obtain ⟨rfl, rfl⟩ := QuestService.mk.inj (Option.some.inj (h.symm.trans heq))
  exact hno L rfl hL

theorem notice?_congr (hwatch : B'.watch = B.watch) (hservice : B'.service = B.service)
    (b l : Nat) : B'.notice? b l = B.notice? b l := by
  rw [Bus.notice?, hwatch, hservice, Bus.notice?]

/-- The listeners of each quest log are those from outside and those of the buses. -/
structure Listed (outside : Nat → List (Nat × Script σ)) (w : World (Script σ)) : Prop where
  perm : ∀ (l : Nat) (L : QuestLog (Script σ)), w.logs[l]? = some L →
    L.listeners.Perm (outside l ++ w.notices l)
  numbered : ∀ L ∈ w.logs, L.Numbered

theorem eq_or_of_setLog {L L' : QuestLog (Script σ)} {l' : Nat} (hlogs : w'.logs = w.logs.set l L)
    (h : w'.logs[l']? = some L') : l' = l ∧ L' = L ∨ l' ≠ l ∧ w.logs[l']? = some L' := by
  rw [hlogs] at h
  by_cases heq : l' = l
  · subst heq
    obtain ⟨hlt, hget⟩ := List.getElem?_eq_some_iff.1 h
    rw [List.getElem_set_self] at hget
    exact .inl ⟨rfl, hget.symm⟩
  · rw [List.getElem?_set_ne (Ne.symm heq)] at h
    exact .inr ⟨heq, h⟩

namespace Listed

variable {outside outside' : Nat → List (Nat × Script σ)}

theorem of_untouched (h : w.Listed outside) (hu : Machine.Untouched w w') : w'.Listed outside := by
  have hnotices : w'.notices = w.notices := by
    funext l
    rw [notices, hu.buses, notices]
  refine ⟨fun l L hL => ?_, hu.logs ▸ h.numbered⟩
  rw [hnotices]
  exact h.perm l L (hu.logs ▸ hL)

theorem congr (h : w.Listed outside)
    (hsame : ∀ l L, w.logs[l]? = some L → outside' l = outside l) : w.Listed outside' :=
  ⟨fun l L hL => hsame l L hL ▸ h.perm l L hL, h.numbered⟩

theorem setBus (h : w.Listed outside) (hB : w.buses[b]? = some B)
    (hsame : ∀ l L, w.logs[l]? = some L → B'.notice? b l = B.notice? b l) :
    (w.setBus b B').Listed outside := by
  refine ⟨fun l L hL => ?_, h.numbered⟩
  obtain ⟨others, hold, hnew⟩ := exists_notices hB l
  have hnow := hnew (w.setBus b B') B' rfl
  rw [hsame l L hL] at hnow
  exact (h.perm l L hL).trans ((hold.trans hnow.symm).append_left _)

theorem setLog (h : w.Listed outside) {L : QuestLog (Script σ)} (hnumbered : L.Numbered)
    (hL : L.listeners.Perm (outside' l ++ w.notices l))
    (hother : ∀ l', l' ≠ l → outside' l' = outside l') : (w.setLog l L).Listed outside' := by
  refine ⟨fun l' L' hL' => ?_, fun L' hL' => ?_⟩
  · rcases eq_or_of_setLog rfl hL' with ⟨rfl, rfl⟩ | ⟨hne, hL'⟩
    · exact hL
    · rw [hother l' hne]
      exact h.perm l' L' hL'
  · rcases List.mem_or_eq_of_mem_set hL' with hL' | rfl
    · exact h.numbered L' hL'
    · exact hnumbered

theorem listen (h : w.Listed outside) {L : QuestLog (Script σ)} (hL : w.logs[l]? = some L)
    (listener : Script σ) (hl : outside' l = outside l ++ [((L.listen listener).1, listener)])
    (hother : ∀ l', l' ≠ l → outside' l' = outside l') :
    (w.setLog l (L.listen listener).2).Listed outside' := by
  refine h.setLog ((h.numbered L (List.mem_of_getElem? hL)).listen listener) ?_ hother
  rw [hl, List.append_assoc]
  exact L.perm_listen (h.perm l L hL) listener

theorem unlisten (h : w.Listed outside) {L : QuestLog (Script σ)} (hL : w.logs[l]? = some L)
    {id : Nat} (hid : id ∉ (w.notices l).map Prod.fst)
    (hl : outside' l = (outside l).filter fun e => e.1 ≠ id)
    (hother : ∀ l', l' ≠ l → outside' l' = outside l') :
    (w.setLog l (L.unlisten id).2).Listed outside' := by
  refine h.setLog ((h.numbered L (List.mem_of_getElem? hL)).unlisten id) ?_ hother
  have hothers : (w.notices l).filter (fun e => e.1 ≠ id) = w.notices l := by
    refine List.filter_eq_self.2 fun e he => ?_
    have hne : e.1 ≠ id := fun heq => hid (heq ▸ List.mem_map_of_mem he)
    simpa using hne
  have hperm := (h.perm l L hL).filter fun e => e.1 ≠ id
  rw [List.filter_append, hothers] at hperm
  rw [hl]
  exact hperm

theorem setBoth (h : w.Listed outside) (hB : w.buses[b]? = some B)
    {L L' : QuestLog (Script σ)} (hlog : w.logs[l]? = some L) (hnumbered : L'.Numbered)
    (hL : ∀ others, L.listeners.Perm (outside l ++ ((B.notice? b l).toList ++ others)) →
      L'.listeners.Perm (outside l ++ ((B'.notice? b l).toList ++ others)))
    (hother : ∀ l', l' ≠ l → B'.notice? b l' = B.notice? b l') :
    ((w.setLog l L').setBus b B').Listed outside := by
  refine ⟨fun l' L'' hL'' => ?_, fun L'' hL'' => ?_⟩
  · obtain ⟨others, hold, hnew⟩ := exists_notices hB l'
    have hnow := hnew ((w.setLog l L').setBus b B') B' rfl
    refine List.Perm.trans ?_ (hnow.symm.append_left _)
    rcases eq_or_of_setLog (w := w) rfl hL'' with ⟨rfl, rfl⟩ | ⟨hne, hL''⟩
    · exact hL others ((h.perm l' L hlog).trans (hold.append_left _))
    · rw [hother l' hne]
      exact (h.perm l' L'' hL'').trans (hold.append_left _)
  · rcases List.mem_or_eq_of_mem_set hL'' with hL'' | rfl
    · exact h.numbered L'' hL''
    · exact hnumbered

theorem watch (h : w.Listed outside) (hB : w.buses[b]? = some B)
    (hsame : ∀ l, B'.notice? b l = B.notice? b l) :
    (w.watch b B' (.notify b .stop)).Listed outside := by
  unfold World.watch
  split
  · rename_i service hwatch hservice
    have hnone : ∀ l, B.notice? b l = none := fun l =>
      (hsame l).symm.trans (notice?_of_watch hwatch b l)
    obtain ⟨log, pushes⟩ := service
    dsimp only
    split
    · rename_i L hL
      refine h.setBoth hB hL ((h.numbered L (List.mem_of_getElem? hL)).listen _) ?_ ?_
      · intro others hperm
        rw [hnone, Option.toList_none, List.nil_append] at hperm
        have hnew : ∀ id, ({ B' with watch := some id } : Bus (Script σ)).notice? b log =
            some (id, .notify b .stop) := fun id =>
          notice?_of_service (B := { B' with watch := some id }) hservice b
        rw [hnew]
        exact L.perm_listen hperm _
      · intro l hne
        rw [hnone]
        exact notice?_of_other (B := { B' with watch := some _ }) hservice hne b
    · rename_i hno
      refine h.setBus hB fun l L hL => ?_
      rw [hnone]
      exact notice?_of_absent (B := { B' with watch := some 0 }) hservice hno hL b
  · exact h.setBus hB fun l _ _ => hsame l

theorem unwatch (h : w.Listed outside) (hB : w.buses[b]? = some B)
    (hsame : ∀ l, B'.notice? b l = B.notice? b l) : (w.unwatch b B').Listed outside := by
  have hnone : ∀ l, ({ B' with watch := none } : Bus (Script σ)).notice? b l = none :=
    notice?_of_watch rfl b
  unfold World.unwatch
  dsimp only
  split
  · rename_i id service hwatch hservice
    obtain ⟨log, pushes⟩ := service
    dsimp only
    split
    · rename_i L hL
      refine h.setBoth hB hL ((h.numbered L (List.mem_of_getElem? hL)).unlisten _) ?_ ?_
      · intro others hperm
        rw [← hsame, notice?_of_service hservice, hwatch] at hperm
        rw [hnone]
        exact (h.numbered L (List.mem_of_getElem? hL)).perm_unlisten
          (hperm.trans List.perm_middle)
      · intro l hne
        rw [hnone, ← hsame]
        exact (notice?_of_other hservice hne b).symm
    · rename_i hno
      refine h.setBus hB fun l L hL => ?_
      rw [hnone, ← hsame]
      exact (notice?_of_absent hservice hno hL b).symm
  · rename_i hno
    refine h.setBus hB fun l L _ => ?_
    rw [hnone, ← hsame]
    cases hwatch : B'.watch with
    | none => exact (notice?_of_watch hwatch b l).symm
    | some id => exact (notice?_of_ne (fun heq => hno id _ hwatch heq) b).symm

theorem settle (h : w.Listed outside) (hB : w.buses[b]? = some B)
    (hsame : ∀ l, B'.notice? b l = B.notice? b l) : (w.settle b B').Listed outside := by
  unfold World.settle
  split
  · exact h.unwatch hB hsame
  · exact h.setBus hB fun l _ _ => hsame l

end Listed

end World

/-! ### Buses that listen -/

def Bus.Watching {κ : Type _} (B : Bus κ) : Prop :=
  B.watch.isSome ↔ B.isAlive = true ∧ B.service.isSome ∧ B.waiters ≠ []

namespace World

variable {w w' w'' : World (Script σ)} {b l : Nat} {B B' : Bus (Script σ)}

def Watched (w : World (Script σ)) : Prop := ∀ B ∈ w.buses, B.Watching

theorem Watched.set (h : w.Watched) (hbuses : w'.buses = w.buses.set b B') (hB' : B'.Watching) :
    w'.Watched := by
  intro B hB
  rw [hbuses] at hB
  rcases List.mem_or_eq_of_mem_set hB with hB | rfl
  · exact h B hB
  · exact hB'

theorem buses_settle (w : World (Script σ)) (b : Nat) (B : Bus (Script σ)) :
    (w.settle b B).buses =
      w.buses.set b { B with watch := if B.waiters.isEmpty then none else B.watch } := by
  unfold settle
  split
  · rw [buses_unwatch]
  · rfl

theorem states_settle (w : World (Script σ)) (b : Nat) (B : Bus (Script σ)) :
    (w.settle b B).states = w.states := by
  unfold settle
  split
  · exact states_unwatch ..
  · rfl

/-! ### Those who wait for nothing -/

/-- Somebody waits on a bus for a quest that is completed, in a quest log that tells the bus of
every change. -/
def Unsettled (w : World (Script σ)) (b : Nat) : Prop :=
  ∃ B, w.bus? b = some B ∧ (∃ l, B.service = some ⟨l, true⟩) ∧
    ∃ s ∈ B.waiters, w.knowsCompleted B s.topic = true

theorem Unsettled.congr (h : w'.Unsettled b) (hbus : w'.bus? b = w.bus? b)
    (hstates : w'.states = w.states) : w.Unsettled b := by
  obtain ⟨B, hB, hservice, s, hs, hknows⟩ := h
  refine ⟨B, hbus ▸ hB, hservice, s, hs, ?_⟩
  rw [← hknows]
  exact (knowsCompleted_congr hstates rfl s.topic).symm

/-- What happens to the buses of a world leaves the listeners in order, and nobody waits for nothing
who did not do so before. -/
structure Keeps (w w' : World (Script σ)) : Prop where
  listed : ∀ {outside}, w.Listed outside → w'.Listed outside
  watched : w.Watched → w'.Watched
  settled : ∀ {b}, w'.Unsettled b → w.Unsettled b

namespace Keeps

theorem trans (h : Keeps w w') (h' : Keeps w' w'') : Keeps w w'' :=
  ⟨fun hw => h'.listed (h.listed hw), fun hw => h'.watched (h.watched hw),
    fun hw => h.settled (h'.settled hw)⟩

theorem of_untouched (h : Machine.Untouched w w') : Keeps w w' := by
  refine ⟨fun hw => hw.of_untouched h, fun hw => ?_, fun hw => hw.congr ?_ ?_⟩
  · rw [Watched, h.buses]
    exact hw
  · rw [bus?, h.buses, bus?]
  · rw [states, h.logs, states]

theorem refl (w : World (Script σ)) : Keeps w w := of_untouched ⟨rfl, rfl⟩

/-- One bus is exchanged for another, on which nobody waits for nothing who did not do so before. -/
theorem of_set (hlisted : ∀ {outside}, w.Listed outside → w'.Listed outside)
    (hB : w.buses[b]? = some B) (hbuses : w'.buses = w.buses.set b B')
    (hstates : w'.states = w.states) (hwatching : B.Watching → B'.Watching)
    (hsettled : B'.isAlive = true → (∃ l, B'.service = some ⟨l, true⟩) →
      ∀ s ∈ B'.waiters, w.knowsCompleted B' s.topic = true →
        B.isAlive = true ∧ B'.service = B.service ∧ s ∈ B.waiters) : Keeps w w' := by
  refine ⟨hlisted, fun hw => hw.set hbuses (hwatching (hw B (List.mem_of_getElem? hB))), ?_⟩
  intro b' hw
  by_cases hb : b' = b
  · subst hb
    obtain ⟨B'', hB'', hpushes, s, hs, hknows⟩ := hw
    obtain ⟨hget, halive⟩ := bus?_eq_some_iff.1 hB''
    rw [hbuses, List.getElem?_set_self (List.getElem?_eq_some_iff.1 hB).1] at hget
    obtain rfl := Option.some.inj hget
    rw [knowsCompleted_congr hstates rfl] at hknows
    obtain ⟨halive', hservice, hwaits⟩ := hsettled halive hpushes s hs hknows
    rw [knowsCompleted_congr rfl hservice] at hknows
    exact ⟨B, bus?_eq_some_iff.2 ⟨hB, halive'⟩, hservice ▸ hpushes, s, hwaits, hknows⟩
  · refine hw.congr ?_ hstates
    rw [bus?, hbuses, List.getElem?_set_ne (Ne.symm hb), bus?]

theorem store (hB : w.buses[b]? = some B) (hwatch : B'.watch = B.watch)
    (hservice : B'.service = B.service) (hwaiters : B'.waiters = B.waiters)
    (halive : B'.isAlive = B.isAlive) : Keeps w (w.setBus b B') := by
  refine of_set (fun hw => hw.setBus hB fun l _ _ => notice?_congr hwatch hservice b l) hB rfl rfl
    (fun h => ?_) fun h _ s hs _ => ⟨halive ▸ h, hservice, hwaiters ▸ hs⟩
  rw [Bus.Watching, hwatch, hservice, hwaiters, halive]
  exact h

theorem await (hB : w.bus? b = some B) {s : Subscription (Script σ)} {id : Nat}
    (hs : w.knowsCompleted B s.topic = false) :
    Keeps w (w.watch b { B with waiters := B.waiters ++ [s], lastId := id }
      (.notify b .stop)) := by
  obtain ⟨hget, halive⟩ := bus?_eq_some_iff.1 hB
  obtain ⟨watch, hbuses, hwatch⟩ := exists_buses_watch w b
    { B with waiters := B.waiters ++ [s], lastId := id } (.notify b .stop)
  refine of_set (fun hw => hw.watch hget fun l => notice?_congr rfl rfl b l) hget hbuses
    (states_watch ..) (fun h => ?_) fun _ _ s' hs' hknows => ⟨halive, rfl, ?_⟩
  · have hiff : watch.isSome ↔ B.service.isSome := by
      refine hwatch.trans ⟨fun h' => h'.elim (fun h' => (h.1 h').2.1) fun h' => h', .inr⟩
    refine hiff.trans ⟨fun h => ⟨halive, h, ?_⟩, fun h => h.2.1⟩
    exact List.append_ne_nil_of_right_ne_nil _ (List.cons_ne_nil s [])
  · rcases List.mem_append.1 hs' with hs' | hs'
    · exact hs'
    · obtain rfl := List.mem_singleton.1 hs'
      have hdue : w.knowsCompleted B s'.topic = true := by
        rw [← hknows]
        exact (knowsCompleted_congr rfl rfl s'.topic).symm
      rw [hs] at hdue
      cases hdue

theorem settle (hB : w.bus? b = some B) {waiters : List (Subscription (Script σ))}
    (hsub : ∀ s ∈ waiters, s ∈ B.waiters) : Keeps w (w.settle b { B with waiters }) := by
  obtain ⟨hget, halive⟩ := bus?_eq_some_iff.1 hB
  refine of_set (fun hw => hw.settle hget fun l => notice?_congr rfl rfl b l) hget
    (buses_settle ..) (states_settle ..) (fun h => ?_)
    fun _ _ s hs _ => ⟨halive, rfl, hsub s hs⟩
  cases waiters with
  | nil => simp [Bus.Watching]
  | cons s waiters =>
      have hsome : B.waiters ≠ [] := List.ne_nil_of_mem (hsub s List.mem_cons_self)
      have hiff := h
      rw [Bus.Watching] at hiff ⊢
      simp only [List.isEmpty_cons, Bool.false_eq_true, if_false]
      refine hiff.trans ⟨fun h => ⟨h.1, h.2.1, List.cons_ne_nil s waiters⟩, fun h => ?_⟩
      exact ⟨halive, h.2.1, hsome⟩

theorem expire (hB : w.buses[b]? = some B) :
    Keeps w (w.unwatch b { B with lifetime := .over }) := by
  refine of_set (fun hw => hw.unwatch hB fun l => notice?_congr rfl rfl b l) hB
    (buses_unwatch ..) (states_unwatch ..) (fun _ => ?_) fun h => ?_
  · simp [Bus.Watching, Bus.isAlive]
  · cases h

end Keeps

/-! ### Exchanging the quest service -/

/-- A bus on which somebody waits is attached to another quest service. It listens to that one. -/
theorem Listed.attach {outside : Nat → List (Nat × Script σ)} (h : w.Listed outside)
    (hB : w.buses[b]? = some B) (service : Option QuestService) :
    (w.attach b B service).Listed outside := by
  have hstored : (w.unwatch b B).buses[b]? = some { B with watch := none } := by
    rw [buses_unwatch, List.getElem?_set_self (List.getElem?_eq_some_iff.1 hB).1]
  refine (h.unwatch hB fun _ => rfl).watch hstored fun l => ?_
  rw [notice?_of_watch rfl, notice?_of_watch rfl]

theorem Watched.attach (h : w.Watched) (hB : w.bus? b = some B) (hwaiters : B.waiters ≠ [])
    (service : Option QuestService) : (w.attach b B service).Watched := by
  obtain ⟨watch, hbuses, hwatch⟩ := exists_buses_attach w b B service
  refine h.set hbuses (hwatch.trans ⟨fun h => ⟨(bus?_eq_some_iff.1 hB).2, h, hwaiters⟩, ?_⟩)
  exact fun h => h.2.1

/-- A bus on which nobody waits is attached to another quest service. -/
theorem Keeps.attach (hB : w.buses[b]? = some B) (hwaiters : B.waiters = [])
    (service : Option QuestService) :
    Keeps w ((w.unwatch b B).setBus b { B with watch := none, service }) := by
  have hstored : (w.unwatch b B).buses[b]? = some { B with watch := none } := by
    rw [buses_unwatch, List.getElem?_set_self (List.getElem?_eq_some_iff.1 hB).1]
  have hbuses : ((w.unwatch b B).setBus b { B with watch := none, service }).buses =
      w.buses.set b { B with watch := none, service } := by
    rw [World.setBus, buses_unwatch, List.set_set]
  refine of_set (fun hw => (hw.unwatch hB fun _ => rfl).setBus hstored fun l _ _ => ?_) hB hbuses
    (states_unwatch ..) (fun _ => ?_) fun _ _ s hs => ?_
  · rw [notice?_of_watch rfl, notice?_of_watch rfl]
  · simp [Bus.Watching, hwaiters]
  · rw [hwaiters] at hs
    cases hs

end World

end StoryGraph
