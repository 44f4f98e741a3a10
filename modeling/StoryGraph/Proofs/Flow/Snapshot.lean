import StoryGraph.Proofs.Flow.Sticky

/-!
# A raise and what becomes of the subscribers meanwhile

While an event is delivered the subscribers change: those who are called subscribe and unsubscribe,
themselves and each other, and raise the same event again. Two lists are therefore told apart. Those
who are called are the ones who were subscribed when the raise began. Those who are subscribed when
it is over are what its callbacks have made of that list (`Deed.relist`), and they do not depend on
who is called. Both are read off the moments of the raise (`Machine.During`), at which one of those
it calls is at work whenever anything is done to the bus (`Machine.AtWork`).
-/

namespace StoryGraph

variable {σ : Type}

/-! ### The subscribers to one key -/

def Deed.relist (key : String) (l : List (Nat × Script σ)) : Deed σ → List (Nat × Script σ)
  | subscribe s => if s.topic = key then l ++ [(s.id, s.callback)] else l
  | unsubscribe topic id => if topic = key then l.filter fun e => e.1 ≠ id else l
  | _ => l

/-- What a number of deeds do to the list of the subscribers to a key. The last deed comes first. -/
def relisted (key : String) (l : List (Nat × Script σ)) (past : List (Deed σ)) :
    List (Nat × Script σ) :=
  past.foldr (fun x l => x.relist key l) l

namespace Desk

variable {past : List (Deed σ)} {d : Desk σ}

theorem listing_on (d : Desk σ) (x : Deed σ) (key : String) :
    (x.on d).listing key = x.relist key (d.listing key) := by
  cases x with
  | subscribe s =>
      rw [listing_subscribe, Deed.relist]
      split
      · rfl
      · exact List.append_nil _
  | unsubscribe topic id =>
      rw [listing_unsubscribe, Deed.relist]
      exact if_congr eq_comm rfl rfl
  | raise topic heard =>
      rw [listing, Deed.subscribers_raise]
      rfl
  | _ => rfl

theorem listing_foldr (d : Desk σ) (key : String) (past : List (Deed σ)) :
    (past.foldr (fun x d => x.on d) d).listing key = relisted key (d.listing key) past := by
  induction past with
  | nil => rfl
  | cons x past ih =>
      rw [List.foldr_cons, listing_on, ih]
      rfl

theorem Kept.listing_eq (h : Kept past d) (key : String) :
    d.listing key = relisted key [] past := by
  have hfoldr : d = past.foldr (fun x d => x.on d) {} := by
    induction h with
    | new => rfl
    | deed _ _ ih => rw [List.foldr_cons, ← ih]
  rw [hfoldr, listing_foldr]
  rfl

theorem Kept.pairwise_subscribers (h : Kept past d) :
    d.subscribers.Pairwise (fun s s' => s.id < s'.id) ∧ ∀ s ∈ d.subscribers, s.id ≤ d.lastId := by
  induction h with
  | new => exact ⟨List.Pairwise.nil, fun s hs => absurd hs List.not_mem_nil⟩
  | @deed past d x _ fits ih =>
      obtain ⟨hsorted, hle⟩ := ih
      cases x with
      | subscribe s =>
          have hnew : ∀ s' ∈ d.subscribers, s'.id < s.id := fun s' hs' =>
            fits.2 ▸ Nat.lt_succ_of_le (hle s' hs')
          refine ⟨List.pairwise_append.2 ⟨hsorted, List.pairwise_singleton _ _, ?_⟩, ?_⟩
          · intro s' hs' s'' hs''
            exact List.mem_singleton.1 hs'' ▸ hnew s' hs'
          · intro s' hs'
            rcases List.mem_append.1 hs' with hs' | hs'
            · exact (hnew s' hs').le
            · exact (congrArg _ (List.mem_singleton.1 hs')).le
      | unsubscribe key id =>
          exact ⟨hsorted.filter _, fun s hs => hle s (List.mem_of_mem_filter hs)⟩
      | await s =>
          have hid : d.lastId ≤ s.id := Nat.le_of_lt (Nat.lt_of_succ_le (Eq.ge fits))
          exact ⟨hsorted, fun s' hs' => (hle s' hs').trans hid⟩
      | raise key heard =>
          rw [Deed.subscribers_raise, Deed.lastId_raise]
          exact ⟨hsorted, hle⟩
      | _ => exact ⟨hsorted, hle⟩

theorem Kept.pairwise_listing (h : Kept past d) (key : String) :
    (d.listing key).Pairwise fun e e' => e.1 < e'.1 :=
  List.pairwise_map.2 (h.pairwise_subscribers.1.filter _)

theorem Kept.lt_of_later (h : Kept past d) {later : List (Deed σ)} {d' : Desk σ}
    (h' : Kept (later ++ past) d') {s : Subscription (Script σ)} (hs : .subscribe s ∈ later)
    {key : String} {e : Nat × Script σ} (he : e ∈ d.listing key) : e.1 < s.id := by
  obtain ⟨s', hs', rfl⟩ := List.mem_map.1 he
  have hearlier : .subscribe s' ∈ past := h.enlisted.1 s' (List.mem_of_mem_filter hs')
  have hids := h'.ids.1
  rw [List.filterMap_append] at hids
  exact (List.pairwise_append.1 hids).2.2 s.id (List.mem_filterMap.2 ⟨_, hs, rfl⟩) s'.id
    (List.mem_filterMap.2 ⟨_, hearlier, rfl⟩)

/-- Nobody has failed to hear an event that somebody is subscribed to. -/
theorem Kept.not_unheard (h : Kept past d) {key : String} (hkey : d.listing key ≠ []) :
    ¬Unheard key past := by
  intro hunheard
  obtain ⟨e, he⟩ := List.exists_mem_of_ne_nil _ hkey
  obtain ⟨s, hs, rfl⟩ := List.mem_map.1 he
  obtain ⟨hs, htopic⟩ := List.mem_filter.1 hs
  exact h.silent key ((h.mem_pending_iff key).2 hunheard) s hs (of_decide_eq_true htopic)

/-- Whatever went before, an event that is raised is pending only if nobody is subscribed to it. -/
theorem Kept.unheard_raise (h : Kept past d) (key : String) :
    Unheard key (.raise key (!(d.listing key).isEmpty) :: past) ↔
      Unheard key ([.raise key (!(d.listing key).isEmpty)] : List (Deed σ)) := by
  rw [unheard_cons_iff, unheard_cons_iff]
  cases hlisting : d.listing key with
  | nil => simp
  | cons s l =>
      have hheard := h.not_unheard (hlisting ▸ List.cons_ne_nil s l : d.listing key ≠ [])
      simp [hheard, not_unheard_nil]

end Desk

theorem Bus.listeners_eq_map_listing (B : Bus (Script σ)) (key : String) :
    B.listeners key = (B.desk.listing key).map Prod.snd := by
  rw [Desk.listing, List.map_map]
  rfl

namespace Machine

variable {kinds : Registry (Behaviour σ)} {m n k e : Machine σ} {base below : List (Frame σ)}
  {during past : List (Machine σ)} {b : Nat} {bus : Option Nat} {called : List (Script σ)}

/-! ### While something goes on above a stack -/

/-- From one moment to another all that happens happens above a stack. The moments before the last
one are kept, the latest first. -/
inductive During (kinds : Registry (Behaviour σ)) (base : List (Frame σ)) (m : Machine σ) :
    List (Machine σ) → Machine σ → Prop where
  | refl : During kinds base m [] m
  | step {during : List (Machine σ)} {n k : Machine σ} (h : During kinds base m during n)
    (above : base.length < n.stack.length) (next : Next kinds n k) :
    During kinds base m (n :: during) k

def turns (base : List (Frame σ)) (during : List (Machine σ)) : List (Script σ) :=
  during.reverse.filterMap (turn? base)

namespace During

theorem delivers (h : During kinds base m during n) :
    ∃ calls, Delivers kinds base m calls n ∧ calls.map Prod.snd = turns base during := by
  induction h with
  | refl => exact ⟨[], .refl, rfl⟩
  | @step during n k _ above next ih =>
      obtain ⟨calls, hd, hcalls⟩ := ih
      refine ⟨_, hd.step above next, ?_⟩
      rw [turns, List.reverse_cons, List.filterMap_append, List.map_append, hcalls, turns]
      cases hturn : n.turn? base <;> simp [hturn]

theorem record {first : Machine σ} (h : During kinds base m during n)
    (hm : Record kinds first past m) : Record kinds first (during ++ past) n := by
  induction h with
  | refl => exact hm
  | step _ _ next ih => exact ih.step next

theorem eq_of_stack (h : During kinds base m during n) (hm : m.stack = base) :
    during = [] ∧ n = m := by
  induction h with
  | refl => exact ⟨rfl, rfl⟩
  | step _ above _ ih =>
      obtain ⟨-, rfl⟩ := ih
      rw [hm] at above
      exact absurd above (lt_irrefl _)

theorem desk (h : During kinds base m during n) {d : Desk σ} (hd : m.world.desks[b]? = some d) :
    n.world.desks[b]? = some ((deeds b during).foldr (fun x d => x.on d) d) := by
  induction h with
  | refl => exact hd
  | @step during n k _ _ next ih =>
      rw [desks_next next b, ih, deeds_cons]
      cases n.deed? b <;> rfl

theorem after {steps : Nat} (h : m.after kinds steps = some n)
    (habove : ∀ n ∈ m.moments kinds steps, base.length < n.stack.length) :
    During kinds base m (m.moments kinds steps) n := by
  revert habove
  refine moments_induction (motive := fun during n =>
    (∀ i ∈ during, base.length < i.stack.length) → During kinds base m during n)
    (fun _ => .refl) (fun during n k ih next habove => ?_) h
  obtain ⟨hlast, hrest⟩ := List.forall_mem_cons.1 habove
  exact (ih hrest).step hlast next

end During

/-! ### While an event is delivered -/

/-- One of those who were to be called is at work, and what is left to be done afterwards is to call
the others. -/
def AtWork (base : List (Frame σ)) (bus : Option Nat) (called : List (Script σ)) (m : Machine σ) :
    Prop :=
  ∃ f above earlier s rest, m.stack = f :: above ++ .deliver bus rest :: base ∧
    called = earlier ++ s :: rest

/-- Nobody is at work for the moment, and some are yet to be called. -/
def Between (base : List (Frame σ)) (bus : Option Nat) (called : List (Script σ))
    (m : Machine σ) : Prop :=
  ∃ earlier rest, m.stack = .deliver bus rest :: base ∧ called = earlier ++ rest

structure Over (base : List (Frame σ)) (m : Machine σ) : Prop where
  stack : m.stack = base
  panic : m.panic = none

theorem AtWork.next (h : n.AtWork base bus called) (hk : Next kinds n k) :
    k.AtWork base bus called ∨ k.Between base bus called := by
  obtain ⟨f, above, earlier, s, rest, hn, hcalled⟩ := h
  have hn' : n.stack = f :: (above ++ .deliver bus rest :: base) := hn
  obtain ⟨new, hstack, -⟩ := exists_new_of_next hn' hk
  rw [← List.append_assoc] at hstack
  cases habove : new ++ above with
  | nil =>
      rw [habove] at hstack
      exact .inr ⟨earlier ++ [s], rest, hstack, by simp [hcalled]⟩
  | cons f above =>
      rw [habove] at hstack
      exact .inl ⟨f, above, earlier, s, rest, hstack, hcalled⟩

/-- A panic ends whoever it happens to, and the delivery goes on with the others. -/
theorem Between.next (h : n.Between base bus called) (hk : Next kinds n k) :
    k.AtWork base bus called ∨ k.Between base bus called ∨ k.Over base := by
  obtain ⟨earlier, rest, hn, hcalled⟩ := h
  by_cases hp : n.panic = none
  · rw [eq_resume_of_next hn hp hk]
    cases rest with
    | cons s rest => exact .inl ⟨.run s, [], earlier, s, rest, rfl, hcalled⟩
    | nil =>
        right; right
        cases bus with
        | none => exact ⟨rfl, hp⟩
        | some b =>
            have hbuses := atBuses_expireBus { n with stack := base } b
            exact ⟨stack_expireBus _ b, hbuses.panic.trans hp⟩
  · rw [eq_unwind_of_next hn hp hk]
    exact .inr (.inl ⟨earlier, rest, rfl, hcalled⟩)

/-- Until a delivery is over one of those it calls is at work, or nobody is. -/
theorem During.atWork (h : During kinds base m during n) (hm : m.Between base bus called) :
    (n.AtWork base bus called ∨ n.Between base bus called ∨ n.Over base) ∧
      ∀ p ∈ during, p.AtWork base bus called ∨ p.Between base bus called := by
  induction h with
  | refl => exact ⟨.inr (.inl hm), fun p hp => absurd hp List.not_mem_nil⟩
  | @step during n k _ above next ih =>
      obtain ⟨hwork | hbetween | hover, hall⟩ := ih
      · exact ⟨(hwork.next next).imp id .inl, List.forall_mem_cons.2 ⟨.inl hwork, hall⟩⟩
      · exact ⟨hbetween.next next, List.forall_mem_cons.2 ⟨.inr hbetween, hall⟩⟩
      · rw [hover.stack] at above
        exact absurd above (lt_irrefl _)

theorem Between.deed?_eq_none (h : n.Between base bus called) (b : Nat) : n.deed? b = none := by
  obtain ⟨earlier, rest, hn, -⟩ := h
  rw [Option.eq_none_iff_forall_ne_some]
  intro x hx
  obtain ⟨s, hs, -⟩ := deed?_eq_some_iff.1 hx
  obtain ⟨-, below, hbelow⟩ := asked?_eq_some_iff.1 hs
  cases hn.symm.trans hbelow

theorem Between.ne_base (h : n.Between base bus called) : n.stack ≠ base := by
  obtain ⟨earlier, rest, hn, -⟩ := h
  exact fun heq => List.cons_ne_self _ _ (hn.symm.trans heq)

theorem AtWork.ne_base (h : n.AtWork base bus called) : n.stack ≠ base := by
  obtain ⟨f, above, earlier, s, rest, hn, -⟩ := h
  intro heq
  have hlength := congrArg List.length (hn.symm.trans heq)
  rw [List.length_append, List.length_cons, List.length_cons] at hlength
  omega

/-- When a delivery is over no panic is on its way, and all that was done to a bus was done while
one of those who were called was at work. -/
theorem During.over (h : During kinds base m during n) (hm : m.Between base bus called)
    (hn : n.stack = base) :
    n.Over base ∧ ∀ p ∈ during, p.deed? b ≠ none → p.AtWork base bus called := by
  obtain ⟨hnow, hall⟩ := h.atWork hm
  refine ⟨(hnow.resolve_left fun h => h.ne_base hn).resolve_left fun h => h.ne_base hn, ?_⟩
  exact fun p hp hdone => (hall p hp).resolve_right fun h => hdone (h.deed?_eq_none b)

/-! ### One raise -/

/-- What a raise on a bus has led to when it is over. -/
structure Delivered (b : Nat) (B : Bus (Script σ)) (key : String) (base : List (Frame σ))
    (past during : List (Machine σ)) (e : Machine σ) : Prop where
  /-- Whoever has raised the event goes on. -/
  ended : e.Over base
  /-- Those who were subscribed have been called, each once and in the order in which they came. -/
  called : turns base during = (B.desk.listing key).map Prod.snd
  subscribed : B.desk.listing key = relisted key [] (deeds b past)
  order : (B.desk.listing key).Pairwise fun s s' => s.1 < s'.1
  /-- Whoever has subscribed in the meantime is none of them. -/
  newcomers : ∀ s, .subscribe s ∈ deeds b during → ∀ s' ∈ B.desk.listing key, s'.1 < s.id
  /-- What has been done to the bus has been done while one of them was at work. -/
  atWork : ∀ p ∈ during, p.deed? b ≠ none →
    p.AtWork base (some b) ((B.desk.listing key).map Prod.snd)
  /-- What has been done to the bus, and nothing else, has changed who is subscribed. The event is
  pending if this raise has found nobody or one of those nested in it, and it has since neither been
  handed to anybody nor been forgotten. -/
  left : ∃ E, e.world.buses[b]? = some E ∧
    E.desk.listing key = relisted key (B.desk.listing key) (deeds b during) ∧
    (key ∈ E.pending ↔
      Unheard key (deeds b during ++ [.raise key (!(B.desk.listing key).isEmpty)]))

section raise

variable {m : Machine σ} {B : Bus (Script σ)} {key : String} {next : Script σ}

theorem deed?_of_raise (hB : n.world.bus? b = some B)
    (hn : n.stack = .run (.raise b key next) :: below) (hp : n.panic = none) :
    n.deed? b = some (.raise key (!(B.desk.listing key).isEmpty)) := by
  have hheard : (B.subscribers.any fun s => s.topic = key) = !(B.desk.listing key).isEmpty := by
    rw [← List.isEmpty_map (f := Prod.snd), ← B.listeners_eq_map_listing, isEmpty_listeners,
      Bool.not_not]
  simp [deed?, asked?, hp, hn, Script.deed?, hB, hheard]

/-- Whenever a raise is over it has called those who were subscribed when it began, each once and in
the order in which they came, whatever they have done and whether or not they have panicked. -/
theorem Record.delivery_follows_snapshot (h : Record kinds m past n) (hm : m.Fresh)
    (hB : n.world.bus? b = some B) (hp : n.panic = none)
    (hn : n.stack = .run (.raise b key next) :: below) (hk : Next kinds n k)
    (hd : During kinds (.run next :: below) k during e) (he : e.stack = .run next :: below) :
    Delivered b B key (.run next :: below) past during e := by
  have hget := (World.bus?_eq_some_iff.1 hB).1
  have hkept := h.kept_of_fresh hm hget
  have hdeed := deed?_of_raise hB hn hp
  obtain ⟨hpanic, hstack⟩ := stack_of_raise hB hn hp hk
  -- The desk when the delivery begins has the same subscribers.
  have hdesk : n.world.desks[b]? = some B.desk := by rw [World.getElem?_desks, hget]; rfl
  have hdesk' : k.world.desks[b]? =
      some (Deed.on B.desk (.raise key !(B.desk.listing key).isEmpty)) := by
    rw [desks_next hk b, hdesk, hdeed]
    rfl
  have hlater := hd.desk hdesk'
  rw [World.getElem?_desks] at hlater
  obtain ⟨E, hE, hdeskE⟩ := Option.map_eq_some_iff.1 hlater
  have hdeeds : deeds b (during ++ n :: past) =
      deeds b during ++ .raise key (!(B.desk.listing key).isEmpty) :: deeds b past := by
    rw [deeds, List.filterMap_append, ← deeds, ← deeds, deeds_cons, hdeed]
    rfl
  have hkept' : Desk.Kept (deeds b (during ++ n :: past)) E.desk :=
    (hd.record (h.step hk)).kept_of_fresh hm hE
  rw [hdeeds] at hkept'
  have hwork : e.Over (.run next :: below) ∧ ∀ p ∈ during, p.deed? b ≠ none →
      p.AtWork (.run next :: below) (some b) ((B.desk.listing key).map Prod.snd) := by
    rw [← B.listeners_eq_map_listing]
    rcases hstack with ⟨-, hstack⟩ | hstack
    · obtain ⟨rfl, rfl⟩ := hd.eq_of_stack hstack
      exact ⟨⟨he, hpanic⟩, fun p hp => absurd hp List.not_mem_nil⟩
    · exact hd.over ⟨[], _, hstack, rfl⟩ he
  refine ⟨hwork.1, ?_, hkept.listing_eq key, hkept.pairwise_listing key, ?_, hwork.2, E, hE, ?_, ?_⟩
  · obtain ⟨calls, hdelivers, hcalls⟩ := hd.delivers
    obtain ⟨⟨rest, hcalled, hnone⟩, -⟩ := calls_of_raise hB hn hp hk hdelivers
    rw [← hcalls, ← B.listeners_eq_map_listing, ← hcalled, hnone he, List.append_nil]
  · intro s hs s' hs'
    rw [← List.singleton_append, ← List.append_assoc] at hkept'
    exact hkept.lt_of_later hkept' (List.mem_append_left _ hs) hs'
  · rw [hdeskE, Desk.listing_foldr, Desk.listing_on]
    rfl
  · exact (hkept'.mem_pending_iff key).trans (unheard_append_congr (hkept.unheard_raise key) _)

end raise

def upset : Script Unit :=
  .unsubscribe 0 "bell" 1 fun _ => .unsubscribe 0 "bell" 2 fun _ =>
    .subscribe 0 "bell" (.raise 0 "echo" .stop) fun _ => .raise 0 "bell" (.panic ⟨some "upset"⟩)

def peal : Script Unit :=
  .subscribe 0 "bell" upset fun _ => .subscribe 0 "bell" ring fun _ => .raise 0 "bell" .stop

/-- Both are called, and the one who came later and was called by the raise in between is the only
one who is still subscribed. -/
theorem delivery_follows_snapshot_belfry : ∃ past n k during e B,
    Record Builtin.registry belfry past n ∧ belfry.Fresh ∧ n.world.bus? 0 = some B ∧
    n.panic = none ∧ n.stack = [.run (.raise 0 "bell" .stop)] ∧ Next Builtin.registry n k ∧
    During Builtin.registry [.run .stop] k during e ∧ e.stack = [.run .stop] ∧
    B.desk.listing "bell" = [(1, upset), (2, ring)] ∧
    relisted "bell" (B.desk.listing "bell") (deeds 0 during) = [(3, .raise 0 "echo" .stop)] ∧
    Delivered 0 B "bell" [.run .stop] past during e := by
  obtain ⟨n, k, e, B, hn, hB, hp, hstack, hk, he, hover, hlisting, hleft, habove⟩ : ∃ n k e B,
      (belfry.call peal).after Builtin.registry 2 = some n ∧ n.world.bus? 0 = some B ∧
      n.panic = none ∧ n.stack = [.run (.raise 0 "bell" .stop)] ∧ Next Builtin.registry n k ∧
      k.after Builtin.registry 19 = some e ∧ e.stack = [.run .stop] ∧
      B.desk.listing "bell" = [(1, upset), (2, ring)] ∧
      relisted "bell" (B.desk.listing "bell") (deeds 0 (k.moments Builtin.registry 19)) =
        [(3, .raise 0 "echo" .stop)] ∧
      ((k.moments Builtin.registry 19).all fun n => decide (1 < n.stack.length)) = true :=
    ⟨_, _, _, _, rfl, rfl, rfl, rfl, rfl, rfl, rfl, rfl, rfl, rfl⟩
  have h := ((Record.refl : Record Builtin.registry belfry [] belfry).call rfl peal).after hn
  have hd : During Builtin.registry [.run .stop] k (k.moments Builtin.registry 19) e :=
    .after he fun n hn => of_decide_eq_true (List.all_eq_true.1 habove n hn)
  exact ⟨_, n, k, _, e, B, h, fresh_belfry, hB, hp, hstack, hk, hd, hover, hlisting, hleft,
    h.delivery_follows_snapshot fresh_belfry hB hp hstack hk hd hover⟩

end Machine

end StoryGraph
