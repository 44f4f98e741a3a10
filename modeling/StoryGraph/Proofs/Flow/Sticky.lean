import StoryGraph.Proofs.Flow.Deeds

/-!
# Events that nobody heard

An event that nobody hears stays pending until somebody subscribes to it or the pending events are
forgotten. What is pending is therefore read off what has been done to the bus (`Unheard`), and
nobody is ever subscribed to a pending event (`Desk.Kept.silent`).

A bus may keep its subscribers in one list, or in a table with a list for each key that has any
(`roster`); the lists of the table are the parts of the one list, and none of them is empty.
-/

namespace StoryGraph

variable {σ : Type}

/-- A raise has found nobody, and since then the pending events have not been forgotten and this one
has been handed to nobody. The last deed stands first. -/
def Unheard (key : String) (past : List (Deed σ)) : Prop :=
  ∃ later earlier, past = later ++ .raise key false :: earlier ∧ .clear ∉ later ∧
    ∀ callback, .handOver key callback ∉ later

theorem unheard_cons_iff {key : String} {x : Deed σ} {past : List (Deed σ)} :
    Unheard key (x :: past) ↔ x = .raise key false ∨
      Unheard key past ∧ x ≠ .clear ∧ ∀ callback, x ≠ .handOver key callback := by
  constructor
  · rintro ⟨later, earlier, heq, hclear, hover⟩
    cases later with
    | nil => exact .inl (List.cons.inj heq).1
    | cons y later =>
        obtain ⟨rfl, rfl⟩ := List.cons.inj heq
        refine .inr ⟨⟨later, earlier, rfl, ?_, ?_⟩, ?_, ?_⟩
        · exact fun h => hclear (List.mem_cons_of_mem x h)
        · exact fun callback h => hover callback (List.mem_cons_of_mem x h)
        · rintro rfl
          exact hclear List.mem_cons_self
        · rintro callback rfl
          exact hover callback List.mem_cons_self
  · rintro (rfl | ⟨⟨later, earlier, rfl, hclear, hover⟩, hx, hx'⟩)
    · exact ⟨[], past, rfl, List.not_mem_nil, fun _ => List.not_mem_nil⟩
    · refine ⟨x :: later, earlier, rfl, ?_, fun callback h => ?_⟩
      · exact fun h => (List.mem_cons.1 h).elim (fun h => hx h.symm) hclear
      · exact (List.mem_cons.1 h).elim (fun h => hx' callback h.symm) (hover callback)

theorem not_unheard_nil (key : String) : ¬Unheard key ([] : List (Deed σ)) := by
  rintro ⟨later, earlier, heq, -⟩
  exact absurd (congrArg List.length heq) (by simp)

/-- Whether an event is pending depends on what went before only where that makes a difference. -/
theorem unheard_append_congr {key : String} {past past' : List (Deed σ)}
    (h : Unheard key past ↔ Unheard key past') (later : List (Deed σ)) :
    Unheard key (later ++ past) ↔ Unheard key (later ++ past') := by
  induction later with
  | nil => exact h
  | cons x later ih =>
      rw [List.cons_append, List.cons_append, unheard_cons_iff, unheard_cons_iff, ih]

/-! ### A list for each key -/

/-- What a deed does to a table with a list of subscribers for each key. A list from which the last
one goes is taken out of the table. -/
def Deed.enroll (t : Table (List (Nat × Script σ))) : Deed σ → Table (List (Nat × Script σ))
  | .subscribe s => t.insert s.topic ((t.get? s.topic).getD [] ++ [(s.id, s.callback)])
  | .unsubscribe key id =>
    match t.get? key with
    | none => t
    | some l =>
      let rest := l.filter fun e => e.1 ≠ id
      if rest = [] then t.erase key else t.insert key rest
  | _ => t

def roster (past : List (Deed σ)) : Table (List (Nat × Script σ)) :=
  past.foldr (fun x t => x.enroll t) ∅

namespace Desk

def listing (d : Desk σ) (key : String) : List (Nat × Script σ) :=
  (d.subscribers.filter fun s => s.topic = key).map fun s => (s.id, s.callback)

theorem listing_subscribe (d : Desk σ) (s : Subscription (Script σ)) (key : String) :
    (Deed.on d (.subscribe s)).listing key =
      d.listing key ++ if s.topic = key then [(s.id, s.callback)] else [] := by
  rw [listing, Deed.on, List.filter_append, List.map_append]
  by_cases hkey : s.topic = key <;> simp [hkey, listing]

theorem listing_unsubscribe (d : Desk σ) (key : String) (id : Nat) (other : String) :
    (Deed.on d (.unsubscribe key id)).listing other =
      if other = key then (d.listing other).filter fun e => e.1 ≠ id else d.listing other := by
  have hfilter : (Deed.on d (.unsubscribe key id)).listing other =
      (d.subscribers.filter fun s => s.topic = other && !(s.topic = key && s.id = id)).map
        fun s => (s.id, s.callback) := by
    rw [listing, Deed.on, List.filter_filter]
  rw [hfilter, listing]
  split
  · rename_i heq
    rw [List.filter_map, List.filter_filter]
    refine congrArg _ (List.filter_congr fun s _ => ?_)
    by_cases hs : s.topic = key <;> simp [hs, heq]
  · rename_i hne
    refine congrArg _ (List.filter_congr fun s _ => ?_)
    by_cases hs : s.topic = other <;> simp [hs, hne]

/-- A table has a list for each key to which somebody is subscribed, and no other list. -/
def Enrolled (d : Desk σ) (t : Table (List (Nat × Script σ))) : Prop :=
  ∀ key, t.get? key = if d.listing key = [] then none else some (d.listing key)

variable {t : Table (List (Nat × Script σ))} {d : Desk σ}

theorem Enrolled.subscribe (h : d.Enrolled t) (s : Subscription (Script σ)) :
    (Deed.on d (.subscribe s)).Enrolled (Deed.enroll t (.subscribe s)) := by
  have hold : (t.get? s.topic).getD [] = d.listing s.topic := by
    rw [h s.topic]
    split
    · rename_i hnone
      exact hnone.symm
    · rfl
  intro key
  rw [Deed.enroll, Table.get?_insert, hold, listing_subscribe]
  by_cases hkey : key = s.topic
  · simp [hkey]
  · have hne : s.topic ≠ key := fun h => hkey h.symm
    simpa [hkey, hne] using h key

theorem Enrolled.unsubscribe (h : d.Enrolled t) (key : String) (id : Nat) :
    (Deed.on d (.unsubscribe key id)).Enrolled (Deed.enroll t (.unsubscribe key id)) := by
  have hkey := h key
  intro other
  rw [listing_unsubscribe, Deed.enroll]
  split at hkey
  · rename_i hnone
    rw [hkey]
    dsimp only
    rw [h other]
    by_cases heq : other = key
    · simp [heq, hnone]
    · simp [heq]
  · rw [hkey]
    dsimp only
    by_cases heq : other = key
    · subst heq
      rw [if_pos rfl]
      split
      · rw [Table.get?_erase, if_pos rfl]
      · rw [Table.get?_insert, if_pos rfl]
    · rw [if_neg heq, ← h other]
      split
      · rw [Table.get?_erase, if_neg heq]
      · rw [Table.get?_insert, if_neg heq]

namespace Kept

variable {past : List (Deed σ)} {d : Desk σ}

/-- Nobody is subscribed to a pending event. -/
theorem silent (h : Kept past d) : ∀ key ∈ d.pending, ∀ s ∈ d.subscribers, s.topic ≠ key := by
  induction h with
  | new => exact fun key hkey => absurd hkey List.not_mem_nil
  | @deed past d x _ fits ih =>
      cases x with
      | raise key heard =>
          intro other hother s hs
          rw [Deed.subscribers_raise] at hs
          rcases (Deed.mem_pending_raise d key heard).1 hother with hother | ⟨rfl, rfl⟩
          · exact ih other hother s hs
          · have hnobody : ∀ s ∈ d.subscribers, s.topic ≠ other := by
              simpa [Deed.Fits] using fits
            exact hnobody s hs
      | subscribe s =>
          intro key hkey s' hs'
          rcases List.mem_append.1 hs' with hs' | hs'
          · exact ih key hkey s' hs'
          · obtain rfl := List.mem_singleton.1 hs'
            exact fun heq => fits.1 (heq ▸ hkey)
      | handOver key callback => exact fun other hother => ih other (List.mem_of_mem_filter hother)
      | unsubscribe key id =>
          exact fun other hother s hs => ih other hother s (List.mem_of_mem_filter hs)
      | clear => exact fun key hkey => absurd hkey List.not_mem_nil
      | await | answer | unawait | notify => exact ih

/-- What is pending is what nobody heard. -/
theorem mem_pending_iff (h : Kept past d) (key : String) : key ∈ d.pending ↔ Unheard key past := by
  induction h with
  | new => exact iff_of_false List.not_mem_nil (not_unheard_nil key)
  | @deed past d x _ fits ih =>
      rw [unheard_cons_iff, ← ih]
      cases x with
      | raise key' heard =>
          rw [Deed.mem_pending_raise]
          simp [eq_comm, and_comm, or_comm]
      | handOver key' callback =>
          by_cases heq : key' = key
          · subst heq
            simp [Deed.on]
          · have hne : key ≠ key' := fun h => heq h.symm
            simp [Deed.on, heq, hne]
      | _ => simp [Deed.on]

theorem enrolled (h : Kept past d) : d.Enrolled (roster past) := by
  induction h with
  | new => exact fun key => rfl
  | @deed past d x _ _ ih =>
      change Enrolled _ (x.enroll (roster past))
      cases x with
      | subscribe s => exact ih.subscribe s
      | unsubscribe key id => exact ih.unsubscribe key id
      | raise key heard =>
          intro other
          rw [listing, Deed.subscribers_raise]
          exact ih other
      | _ => exact ih

end Kept

end Desk

namespace Machine

variable {kinds : Registry (Behaviour σ)} {m n k : Machine σ} {b : Nat} {B : Bus (Script σ)}
  {past : List (Machine σ)}

/-! ### Subscribing -/

section subscribe

variable {key : String} {callback : Script σ} {next : Option Nat → Script σ}
  {below : List (Frame σ)}

/-- A pending event is handed over to somebody, who is called at once, and once, and is not
registered. -/
structure HandsOver (kinds : Registry (Behaviour σ)) (b : Nat) (B : Bus (Script σ)) (key : String)
    (callback : Script σ) (next : Option Nat → Script σ) (below : List (Frame σ)) (k : Machine σ) :
    Prop where
  bus : k.world.bus? b = some (B.consume key)
  calls : CallsFirst kinds (some b) callback (next none) below k

structure Registers (b : Nat) (B : Bus (Script σ)) (key : String) (callback : Script σ)
    (next : Option Nat → Script σ) (below : List (Frame σ)) (k : Machine σ) : Prop where
  bus : k.world.bus? b = some (B.subscribe key callback).2
  stack : k.stack = .run (next (some (B.subscribe key callback).1)) :: below

theorem eq_of_subscribe (hB : n.world.bus? b = some B) (hp : n.panic = none)
    (hn : n.stack = .run (.subscribe b key callback next) :: below) (hk : Next kinds n k) :
    (key ∈ B.pending → HandsOver kinds b B key callback next below k) ∧
      (key ∉ B.pending → Registers b B key callback next below k) := by
  have hget := (World.bus?_eq_some_iff.1 hB).1
  have halive := (World.bus?_eq_some_iff.1 hB).2
  obtain rfl := eq_resume_of_next hn hp hk
  constructor
  · intro hkey
    have hsub : ({ n with stack := below } : Machine σ).resume kinds
        (.run (.subscribe b key callback next)) =
        ({ n with stack := .deliver (some b) [callback] :: .run (next none) :: below
                  world := n.world.setBus b (B.consume key) } : Machine σ) := by
      simp [resume, perform, subscribe, hB, hkey, push]
    rw [hsub]
    exact ⟨World.bus?_setBus hget halive, callsFirst_of_stack rfl hp⟩
  · intro hkey
    have hsub : ({ n with stack := below } : Machine σ).resume kinds
        (.run (.subscribe b key callback next)) =
        ({ n with stack := .run (next (some (B.subscribe key callback).1)) :: below
                  world := n.world.setBus b (B.subscribe key callback).2 } : Machine σ) := by
      simp [resume, perform, subscribe, hB, hkey, push]
    rw [hsub]
    exact ⟨World.bus?_setBus hget halive, rfl⟩

end subscribe

/-- At every moment of a session nobody is subscribed to a pending event and no list of subscribers
is empty, no number has been given out twice on a bus, and whoever subscribes to an event is called
at once if nobody has heard it, and registered if not. -/
theorem Record.sticky (h : Record kinds m past n) (hm : m.Fresh) (hB : n.world.bus? b = some B) :
    (∀ key ∈ B.pending, B.listeners key = []) ∧
    B.desk.Enrolled (roster (deeds b past)) ∧
    ((deeds b past).filterMap Deed.id?).Nodup ∧
    (∀ s ∈ B.subscribers, .subscribe s ∈ deeds b past) ∧
    (∀ s ∈ B.waiters, .await s ∈ deeds b past) ∧
    ∀ key callback next below k, n.panic = none →
      n.stack = .run (.subscribe b key callback next) :: below → Next kinds n k →
      (Unheard key (deeds b past) → n.deed? b = some (.handOver key callback) ∧
        HandsOver kinds b B key callback next below k) ∧
      (¬Unheard key (deeds b past) →
        n.deed? b = some (.subscribe ⟨key, (B.subscribe key callback).1, callback⟩) ∧
        Registers b B key callback next below k) := by
  have hkept := h.kept_of_fresh hm (World.bus?_eq_some_iff.1 hB).1
  refine ⟨fun key hkey => ?_, hkept.enrolled, ?_, hkept.enlisted.1, hkept.enlisted.2, ?_⟩
  · rw [Bus.listeners, List.map_eq_nil_iff, List.filter_eq_nil_iff]
    intro s hs
    simpa using hkept.silent key hkey s hs
  · exact hkept.ids.1.imp fun hlt heq => absurd heq (ne_of_gt hlt)
  · intro key callback next below k hp hn hk
    have hdeed : n.deed? b = some (if key ∈ B.pending then .handOver key callback
        else .subscribe ⟨key, B.lastId + 1, callback⟩) := by
      simp [deed?, asked?, hp, hn, Script.deed?, hB]
    have hsub := eq_of_subscribe hB hp hn hk
    have hpending : key ∈ B.pending ↔ Unheard key (deeds b past) := hkept.mem_pending_iff key
    rw [← hpending]
    refine ⟨fun hkey => ⟨?_, hsub.1 hkey⟩, fun hkey => ⟨?_, hsub.2 hkey⟩⟩
    · rw [hdeed, if_pos hkey]
    · rw [hdeed, if_neg hkey]
      rfl

def belfry : Machine Unit where
  world := { buses := [{}] }
  data := ()

theorem fresh_belfry : belfry.Fresh :=
  ⟨rfl, fun _ hR => absurd hR List.not_mem_nil, List.forall_mem_singleton.2 ⟨none, rfl⟩,
    fun _ hl => absurd hl List.not_mem_nil⟩

def ring : Script Unit := .raise 0 "bell" .stop

/-- The event is handed over twice, the second time because it was raised when it was handed over
first. -/
def toll : Script Unit :=
  .raise 0 "bell" (.subscribe 0 "bell" ring fun _ => .subscribe 0 "bell" ring fun _ => .stop)

theorem sticky_belfry : ∃ past n k B, Record Builtin.registry belfry past n ∧ belfry.Fresh ∧
    n.world.bus? 0 = some B ∧ n.panic = none ∧
    n.stack = [.run (.subscribe 0 "bell" ring fun _ => .stop)] ∧ Next Builtin.registry n k ∧
    deeds 0 past = [.raise "bell" false, .handOver "bell" ring, .raise "bell" false] ∧
    HandsOver Builtin.registry 0 B "bell" ring (fun _ => .stop) [] k := by
  obtain ⟨n, k, B, hn, hB, hp, hstack, hk, hdeeds⟩ : ∃ n k B,
      (belfry.call toll).after Builtin.registry 6 = some n ∧ n.world.bus? 0 = some B ∧
      n.panic = none ∧ n.stack = [.run (.subscribe 0 "bell" ring fun _ => .stop)] ∧
      Next Builtin.registry n k ∧
      deeds 0 ((belfry.call toll).moments Builtin.registry 6 ++ []) =
        [.raise "bell" false, .handOver "bell" ring, .raise "bell" false] :=
    ⟨_, _, _, rfl, rfl, rfl, rfl, rfl, rfl⟩
  have h := ((Record.refl : Record Builtin.registry belfry [] belfry).call rfl toll).after hn
  obtain ⟨-, -, -, -, -, hsub⟩ := h.sticky fresh_belfry hB
  have hunheard : Unheard "bell" ([.raise "bell" false, .handOver "bell" ring,
      .raise "bell" false] : List (Deed Unit)) :=
    unheard_cons_iff.2 (.inl rfl)
  rw [hdeeds] at hsub
  exact ⟨_, n, k, B, h, fresh_belfry, hB, hp, hstack, hk, hdeeds,
    ((hsub "bell" ring _ [] k hp hstack hk).1 hunheard).2⟩

end Machine

end StoryGraph
