import StoryGraph.Proofs.Flow.Deeds

/-!
# What quest logs are asked for

Scripts ask quest logs for steps of quests (`Errand`), themselves or through a bus, and whoever is
told of a change may ask for more before the others are told. Whatever else goes on in a session,
and however deeply notices are nested in each other, a log knows what it has been asked for
(`Machine.Record.reflects`).

A step that leads further is in the log before anybody is told. Those who listen to the log by then
are called one after the other, each of them once (`Machine.Announced`).
-/

namespace StoryGraph

variable {σ : Type}

/-! ### Errands of scripts -/

def Script.errand? (w : World (Script σ)) : Script σ → Option (Nat × Errand)
  | .advance l name step _ => some (l, ⟨name, step⟩)
  | .quest b name step _ =>
    ((w.bus? b).bind Bus.service).map fun s => (s.log, ⟨name, step⟩)
  | _ => none

theorem Script.errand?_of_aside {s : Script σ} (hs : s.Aside) (w : World (Script σ)) :
    s.errand? w = none := by
  cases s with
  | advance | quest => exact hs.elim
  | _ => rfl

theorem World.getElem?_bareLogs (w : World (Script σ)) (l : Nat) :
    w.bareLogs[l]? = w.logs[l]?.map QuestLog.bare :=
  List.getElem?_map

theorem World.bareLogs_settle (w : World (Script σ)) (b : Nat) (B : Bus (Script σ)) :
    (w.settle b B).bareLogs = w.bareLogs := by
  unfold settle
  split
  · exact bareLogs_unwatch ..
  · rfl

namespace Machine

variable {kinds : Registry (Behaviour σ)} {m n k : Machine σ} {l : Nat} {L : QuestLog (Script σ)}
  {e : Errand} {past later : List (Machine σ)} {asked : List Errand} {base : List (Frame σ)}

/-! ### What a step does to the quest logs -/

theorem Untouched.bareLogs {w w' : World (Script σ)} (h : Untouched w w') :
    w'.bareLogs = w.bareLogs := by
  rw [World.bareLogs, h.logs, World.bareLogs]

theorem bareLogs_expireBus (m : Machine σ) (b : Nat) :
    (m.expireBus b).world.bareLogs = m.world.bareLogs := by
  rcases world_expireBus m b with h | ⟨B, -, -, h⟩
  · rw [h]
  · rw [h, World.bareLogs_unwatch]

theorem bareLogs_close (m : Machine σ) (b : Nat) :
    (m.close b).world.bareLogs = m.world.bareLogs := by
  unfold close
  split
  · rfl
  · exact bareLogs_expireBus ..

theorem bareLogs_raise (m : Machine σ) (b : Nat) (key : String) :
    (m.raise b key).world.bareLogs = m.world.bareLogs := by
  unfold raise
  split
  · rfl
  · split <;> rfl

theorem bareLogs_notify (m : Machine σ) (b : Nat) :
    (m.notify b).world.bareLogs = m.world.bareLogs := by
  cases hB : m.world.bus? b with
  | none => rw [notify_of_none hB]
  | some B =>
      rw [world_notify hB]
      split
      · rfl
      · exact World.bareLogs_settle ..

theorem bareLogs_serve (m : Machine σ) (b : Nat) (service : Option QuestService) :
    (m.serve b service).world.bareLogs = m.world.bareLogs := by
  unfold serve
  split
  · rfl
  · dsimp only
    split
    · exact World.bareLogs_unwatch ..
    · exact (bareLogs_notify ..).trans ((World.bareLogs_watch ..).trans (World.bareLogs_unwatch ..))

theorem advance_of_lt (hL : m.world.logs[l]? = some L) (h : L.state e.quest < e.step.target)
    (bus : Option Nat) : m.advance bus l e.quest e.step =
      ({ m with world := m.world.setLog l (L.ask e) } : Machine σ).push
        (.deliver bus (L.listeners.map Prod.snd)) := by
  rw [advance, hL, Option.bind_some, QuestLog.advance?_eq_some_ask h]
  dsimp only
  rw [(QuestLog.listeners_ask L e).1]

theorem advance_of_not_lt (hL : m.world.logs[l]? = some L) (h : ¬L.state e.quest < e.step.target)
    (bus : Option Nat) : m.advance bus l e.quest e.step = m := by
  rw [advance, hL, Option.bind_some, QuestLog.advance?_eq_none_iff.2 h]

theorem bareLogs_advance (m : Machine σ) (bus : Option Nat) (l : Nat) (e : Errand) :
    (m.advance bus l e.quest e.step).world.bareLogs =
      m.world.bareLogs.modify l (QuestLog.ask · e) := by
  rw [List.modify_eq_set_getElem?, World.getElem?_bareLogs]
  cases hL : m.world.logs[l]? with
  | none =>
      rw [advance, hL]
      rfl
  | some L =>
      change _ = m.world.bareLogs.set l (L.bare.ask e)
      rw [← QuestLog.bare_ask]
      by_cases h : L.state e.quest < e.step.target
      · rw [advance_of_lt hL h]
        exact List.map_set
      · rw [advance_of_not_lt hL h, QuestLog.ask_of_not_lt h]
        exact (World.set_map_of_eq hL rfl).symm

theorem bareLogs_perform (m : Machine σ) (s : Script σ) : (m.perform s).world.bareLogs =
    (s.errand? m.world).elim m.world.bareLogs fun e =>
      m.world.bareLogs.modify e.1 (QuestLog.ask · e.2) := by
  by_cases haside : s.Aside
  · rw [Script.errand?_of_aside haside]
    exact (untouched_perform m haside).bareLogs
  cases s with
  | advance l name step next => exact bareLogs_advance (m.push (.run next)) none l ⟨name, step⟩
  | quest b name step next =>
      rw [Script.errand?, perform]
      cases (m.world.bus? b).bind Bus.service with
      | none => rfl
      | some s => exact bareLogs_advance (m.push (.run next)) (some b) s.log ⟨name, step⟩
  | raise b key next => exact bareLogs_raise ..
  | subscribe b key callback next =>
      change (m.subscribe b key callback next).world.bareLogs = m.world.bareLogs
      unfold subscribe
      split
      · rfl
      · split <;> rfl
  | unsubscribe | clear =>
      simp only [perform]
      split <;> rfl
  | await b name callback next =>
      change (m.await b name callback next).world.bareLogs = m.world.bareLogs
      unfold await
      split
      · rfl
      · split
        · rfl
        · exact World.bareLogs_watch ..
  | unawait b name id next =>
      simp only [perform]
      split
      · rfl
      · exact World.bareLogs_settle ..
  | notify b next => exact bareLogs_notify ..
  | serve b service next => exact bareLogs_serve ..
  | close b next => exact bareLogs_close ..
  | listen | unlisten =>
      simp only [perform]
      split
      · rfl
      · rename_i hL
        exact World.bareLogs_setLog_of_eq hL rfl
  | _ => exact absurd trivial haside

def errand? (l : Nat) (m : Machine σ) : Option Errand :=
  (m.asked?.bind (Script.errand? m.world)).bind fun e => if e.1 = l then some e.2 else none

theorem errand?_eq_some_iff :
    m.errand? l = some e ↔ ∃ s, m.asked? = some s ∧ s.errand? m.world = some (l, e) := by
  rw [errand?, bind_ite_eq_some_iff, Option.bind_eq_some_iff]

theorem bareLogs_next (hn : Next kinds m n) (l : Nat) : n.world.bareLogs[l]? =
    m.world.bareLogs[l]?.map fun L => (m.errand? l).elim L L.ask := by
  rcases next_cases hn with ⟨s, below, hs, hm, rfl⟩ | ⟨hs, h⟩
  · rw [bareLogs_perform, errand?, hs, Option.bind_some]
    change ((s.errand? m.world).elim m.world.bareLogs _)[l]? = _
    cases s.errand? m.world with
    | none => simp
    | some e =>
        obtain ⟨l', e⟩ := e
        by_cases hl : l' = l
        · subst hl
          simp
        · simp [hl]
  · have hlogs : n.world.bareLogs = m.world.bareLogs := by
      rcases h with h | ⟨k, b, hk, hn⟩
      · exact h.bareLogs
      · rw [hn, ← hk.bareLogs]
        exact bareLogs_expireBus k b
    simp [errand?, hs, hlogs]

theorem exists_log_of_next (hn : Next kinds m n) (hL : m.world.logs[l]? = some L) :
    ∃ K, n.world.logs[l]? = some K ∧ K.bare = ((m.errand? l).elim L L.ask).bare := by
  have hlogs := bareLogs_next hn l
  rw [World.getElem?_bareLogs, World.getElem?_bareLogs, hL, Option.map_some, Option.map_some]
    at hlogs
  obtain ⟨K, hK, hbare⟩ := Option.map_eq_some_iff.1 hlogs
  refine ⟨K, hK, hbare.trans ?_⟩
  cases m.errand? l with
  | none => rfl
  | some e => exact (QuestLog.bare_ask L e).symm

/-! ### What a session does to a quest log -/

/-- What a quest log has been asked for, the last errand first. -/
def errands (l : Nat) (past : List (Machine σ)) : List Errand := past.filterMap (errand? l)

theorem errands_cons (l : Nat) (m : Machine σ) (past : List (Machine σ)) :
    errands l (m :: past) = (m.errand? l).toList ++ errands l past :=
  filterMap_cons_eq ..

/-- Whatever goes on, a quest log knows what it has been asked for. -/
theorem Record.reflects (h : Record kinds m past n) (hL : m.world.logs[l]? = some L)
    (hasked : L.Reflects asked) :
    ∃ K, n.world.logs[l]? = some K ∧ K.Reflects (errands l past ++ asked) := by
  induction h with
  | refl => exact ⟨L, hL, hasked⟩
  | @step past n k _ next ih =>
      obtain ⟨K, hK, hreflects⟩ := ih
      obtain ⟨K', hK', hbare⟩ := exists_log_of_next next hK
      refine ⟨K', hK', ?_⟩
      rw [errands_cons]
      cases he : n.errand? l with
      | none =>
          rw [he] at hbare
          exact hreflects.of_bare hbare
      | some e =>
          rw [he] at hbare
          exact (hreflects.ask e).of_bare hbare
  | call _ _ _ ih => exact ih

/-- A quest log has not been asked for anything, whoever may listen to it. -/
def Unasked (l : Nat) (m : Machine σ) : Prop :=
  ∃ listeners lastId, m.world.logs[l]? = some { listeners, lastId }

theorem Record.reflects_of_unasked (h : Record kinds m past n) (hl : m.Unasked l) :
    ∃ L, n.world.logs[l]? = some L ∧ L.Reflects (errands l past) := by
  obtain ⟨listeners, lastId, hL⟩ := hl
  obtain ⟨L, hL, hreflects⟩ := h.reflects hL .new
  exact ⟨L, hL, List.append_nil (errands l past) ▸ hreflects⟩

def change? (l : Nat) (m : Machine σ) : Option Errand :=
  (m.errand? l).filter fun e => m.world.logs[l]?.any fun L => L.state e.quest < e.step.target

/-- The steps of quests in a log that have led further, the last one first. -/
def changes (l : Nat) (past : List (Machine σ)) : List Errand := past.filterMap (change? l)

theorem changes_cons (l : Nat) (m : Machine σ) (past : List (Machine σ)) :
    changes l (m :: past) = (m.change? l).toList ++ changes l past :=
  filterMap_cons_eq ..

theorem change?_of_errand? (hL : m.world.logs[l]? = some L) (he : m.errand? l = some e) :
    m.change? l = if L.state e.quest < e.step.target then some e else none := by
  simp [change?, he, hL, Option.filter_some]

/-- With every change of a quest its state comes to a higher rank. -/
theorem Record.length_changes_le (h : Record kinds m past n) (hL : m.world.logs[l]? = some L) :
    ∃ K, n.world.logs[l]? = some K ∧
      ∀ name, (stepsOf name (changes l past)).length ≤ (K.state name).rank := by
  induction h with
  | refl => exact ⟨L, hL, fun name => Nat.zero_le _⟩
  | @step past n k _ next ih =>
      obtain ⟨K, hK, hle⟩ := ih
      obtain ⟨K', hK', hbare⟩ := exists_log_of_next next hK
      refine ⟨K', hK', fun name => ?_⟩
      rw [← K'.state_bare, hbare, QuestLog.state_bare, changes_cons]
      cases he : n.errand? l with
      | none =>
          rw [change?, he]
          exact hle name
      | some e =>
          rw [change?_of_errand? hK he, Option.elim_some]
          by_cases hlt : K.state e.quest < e.step.target
          · rw [if_pos hlt, Option.toList_some, List.singleton_append]
            by_cases hname : e.quest = name
            · subst hname
              rw [stepsOf_cons_of_eq rfl, QuestLog.state_ask_of_lt hlt, Function.update_self]
              exact (hle e.quest).trans_lt hlt
            · rw [stepsOf_cons_of_ne hname, QuestLog.state_ask_of_ne hname]
              exact hle name
          · rw [if_neg hlt, QuestLog.ask_of_not_lt hlt]
            exact hle name
  | call _ _ _ ih => exact ih

/-! ### One change -/

/-- A session that ends comes back to whatever it has put something on top of. -/
theorem exists_delivers_of_ends (above : List (Frame σ)) (hm : m.stack = above ++ base)
    (hn : Ends kinds m n) : ∃ calls k, Delivers kinds base m calls k ∧ k.stack = base := by
  obtain ⟨hl, hover⟩ := ends_iff.1 hn
  -- The stack has come down to what it stands on, or all that has happened happened above it.
  have hback : (∃ calls k, Delivers kinds base m calls k ∧ k.stack = base) ∨
      ∃ calls above, Delivers kinds base m calls n ∧ n.stack = above ++ base := by
    clear hover hn
    induction hl with
    | refl => exact .inr ⟨[], above, .refl, hm⟩
    | @tail n k _ next ih =>
        rcases ih with hback | ⟨calls, above, hd, hstack⟩
        · exact .inl hback
        · cases above with
          | nil => exact .inl ⟨calls, n, hd, hstack⟩
          | cons f above =>
              obtain ⟨new, hk, -⟩ := exists_new_of_next hstack next
              refine .inr ⟨_, new ++ above, hd.step ?_ next, hk.trans (List.append_assoc ..).symm⟩
              rw [hstack, List.length_append, List.length_cons]
              omega
  rcases hback with hback | ⟨calls, above, hd, hstack⟩
  · exact hback
  · obtain ⟨-, hbase⟩ := List.append_eq_nil_iff.1 (hstack.symm.trans hover)
    exact ⟨calls, n, hd, hover.trans hbase.symm⟩

structure Announced (kinds : Registry (Behaviour σ)) (bus : Option Nat) (l : Nat)
    (L : QuestLog (Script σ)) (e : Errand) (next : Script σ) (below : List (Frame σ))
    (m : Machine σ) : Prop where
  changed : ∃ K, m.world.logs[l]? = some K ∧
    K.state = Function.update L.state e.quest e.step.target
  /-- Whoever listens is called once, before the one who has asked goes on. -/
  calls : CallsEach kinds bus (L.listeners.map Prod.snd) next below m
  /-- Whoever is called finds the change in the log, though it may have gone on since. -/
  known : ∀ calls n, Delivers kinds (.run next :: below) m calls n → ∀ c ∈ calls,
    ∃ K, c.1.world.logs[l]? = some K ∧ e.step.target ≤ K.state e.quest ∧
      ∀ source, e.step = .offer source → K.source? e.quest = some source
  /-- If what they do comes to an end, all of them are called. -/
  ends : ∀ n, Ends kinds m n → ∃ calls k, Delivers kinds (.run next :: below) m calls k ∧
    k.stack = .run next :: below

structure Heeds (kinds : Registry (Behaviour σ)) (bus : Option Nat) (l : Nat)
    (L : QuestLog (Script σ)) (e : Errand) (next : Script σ) (m n : Machine σ) : Prop where
  further : L.state e.quest < e.step.target →
    m.change? l = some e ∧ Announced kinds bus l L e next m.stack.tail n
  /-- Nobody is told of a step that leads no further. -/
  otherwise : ¬L.state e.quest < e.step.target →
    m.change? l = none ∧ n.world = m.world ∧ n.stack = .run next :: m.stack.tail

theorem exists_advance_of_errand? (he : m.errand? l = some e) (hn : Next kinds m n) :
    ∃ bus next, n = (({ m with stack := m.stack.tail } : Machine σ).push (.run next)).advance bus l
      e.quest e.step := by
  obtain ⟨s, hs, herrand⟩ := errand?_eq_some_iff.1 he
  obtain ⟨hp, below, hm⟩ := asked?_eq_some_iff.1 hs
  rw [eq_resume_of_next hm hp hn, hm, List.tail_cons]
  cases s with
  | advance l' name step next =>
      obtain ⟨rfl, rfl⟩ := Prod.mk.inj (Option.some.inj herrand)
      exact ⟨none, next, rfl⟩
  | quest b name step next =>
      obtain ⟨service, hservice, heq⟩ := Option.map_eq_some_iff.1 herrand
      obtain ⟨rfl, rfl⟩ := Prod.mk.inj heq
      refine ⟨some b, next, ?_⟩
      rw [resume, perform]
      dsimp only
      rw [hservice]
  | _ => cases herrand

theorem announced_of_ask {bus : Option Nat} {next : Script σ} {below : List (Frame σ)}
    (hasked : L.Reflects asked) (hlt : L.state e.quest < e.step.target)
    (hlog : m.world.logs[l]? = some (L.ask e))
    (hm : m.stack = .deliver bus (L.listeners.map Prod.snd) :: .run next :: below) :
    Announced kinds bus l L e next below m := by
  refine ⟨⟨_, hlog, QuestLog.state_ask_of_lt hlt⟩, callsEach_of_stack hm, ?_, ?_⟩
  · intro calls n hd c hc
    obtain ⟨later, hlater⟩ := Record.refl.leads (hd.exists_turn hm hc).1
    obtain ⟨K, hK, hreflects⟩ := hlater.reflects hlog (hasked.ask e)
    refine ⟨K, hK, ?_, ?_⟩
    · have hle := (hasked.ask e).state_le hreflects e.quest
      rwa [QuestLog.state_ask_of_lt hlt, Function.update_self] at hle
    · intro source hsource
      have hfirst : stepsOf e.quest (e :: asked) ≠ [] :=
        stepsOf_cons_of_eq (e := e) rfl ▸ List.cons_ne_nil _ _
      rw [(hasked.ask e).source?_eq hreflects hfirst, QuestLog.source?_ask_of_lt hlt, hsource]
      rfl
  · exact fun n hn => exists_delivers_of_ends [.deliver bus _] hm hn

theorem exists_heeds (hL : m.world.logs[l]? = some L) (hasked : L.Reflects asked)
    (he : m.errand? l = some e) (hn : Next kinds m n) :
    ∃ bus next, Heeds kinds bus l L e next m n := by
  obtain ⟨bus, next, rfl⟩ := exists_advance_of_errand? he hn
  have hbefore : (({ m with stack := m.stack.tail } : Machine σ).push
      (.run next)).world.logs[l]? = some L := hL
  refine ⟨bus, next, fun hlt => ?_, fun hnot => ?_⟩
  · rw [change?_of_errand? hL he, if_pos hlt, advance_of_lt hbefore hlt]
    refine ⟨rfl, announced_of_ask hasked hlt ?_ rfl⟩
    exact List.getElem?_set_self (List.getElem?_eq_some_iff.1 hL).1
  · rw [change?_of_errand? hL he, if_neg hnot, advance_of_not_lt hbefore hnot]
    exact ⟨rfl, rfl, rfl⟩

/-! ### A quest log and what it has been asked for -/

structure JoinsErrands (kinds : Registry (Behaviour σ)) (l : Nat) (past : List (Machine σ))
    (m : Machine σ) (L : QuestLog (Script σ)) : Prop where
  /-- The state of a quest is the greatest that it has been asked to come to. -/
  state : ∀ name, IsGreatest (reached name (errands l past)) (L.state name)
  /-- So it is the same in any log that has been asked for the same, in whatever order. -/
  order : ∀ (kinds' : Registry (Behaviour σ)) (m' : Machine σ) past' n' l' L', m'.Unasked l' →
    Record kinds' m' past' n' → n'.world.logs[l']? = some L' →
    (∀ e, e ∈ errands l' past' ↔ e ∈ errands l past) → L'.state = L.state
  /-- A quest has a source if it was offered before anything else was asked for. -/
  source : ∀ name source, L.source? name = some source ↔
    (stepsOf name (errands l past)).getLast? = some (.offer source)
  changes : ∀ name, (stepsOf name (changes l past)).length ≤ 3
  /-- No quest goes back, and once a quest has been asked for its source is settled. -/
  forward : ∀ later n, Record kinds m later n → ∃ K, n.world.logs[l]? = some K ∧
    ∀ name, L.state name ≤ K.state name ∧
      (stepsOf name (errands l past) ≠ [] → K.source? name = L.source? name)
  /-- Whoever listens is told of a change, once, and of nothing else. -/
  heeds : ∀ e n, m.errand? l = some e → Next kinds m n →
    ∃ bus next, Heeds kinds bus l L e next m n

/-- At every moment of a session a quest log joins what it has been asked for, and whatever it is
asked for next is told to those who listen if it leads further. -/
theorem Record.joins_errands (h : Record kinds m past n) (hl : m.Unasked l) :
    ∃ L, n.world.logs[l]? = some L ∧ JoinsErrands kinds l past n L := by
  obtain ⟨L, hL, hreflects⟩ := h.reflects_of_unasked hl
  obtain ⟨listeners, lastId, hfirst⟩ := hl
  obtain ⟨L', hL', hle⟩ := h.length_changes_le hfirst
  obtain rfl := Option.some.inj (hL'.symm.trans hL)
  refine ⟨L', hL, ?_⟩
  exact
    { state := hreflects.state
      order := fun kinds' m' past' n' l' K hl' h' hK hsame => by
        obtain ⟨K', hK', hreflects'⟩ := h'.reflects_of_unasked hl'
        obtain rfl := Option.some.inj (hK'.symm.trans hK)
        exact hreflects.state_eq hreflects' hsame
      source := fun name source => hreflects.source?_eq_some_iff
      changes := fun name => (hle name).trans (L'.state name).rank_le
      forward := fun later k hlater => by
        obtain ⟨K, hK, hreflects'⟩ := hlater.reflects hL hreflects
        exact ⟨K, hK, fun name =>
          ⟨hreflects.state_le hreflects' name, hreflects.source?_eq hreflects'⟩⟩
      heeds := fun e k he hk => exists_heeds hL hreflects he hk }

def tavern : Machine Unit where
  world := { logs := [{}] }
  data := ()

def eager : Script Unit := .advance 0 "rats" .start .stop

def evening : Script Unit :=
  .listen 0 eager fun _ => .listen 0 .stop fun _ =>
    .advance 0 "rats" (.offer "keeper") (.advance 0 "rats" .complete .stop)

def morning : Script Unit :=
  .advance 0 "rats" .complete (.advance 0 "rats" .start (.advance 0 "rats" (.offer "keeper") .stop))

/-- The quest is started in the middle of the notice of its offer, and both who listen are told of
that before the second one is told of the offer. Where it is completed first it comes to the same
state, and has no source. -/
theorem joins_errands_tavern : tavern.Unasked 0 ∧
    (∃ past n k L bus next, Record Builtin.registry tavern past n ∧ n.world.logs[0]? = some L ∧
      n.errand? 0 = some ⟨"rats", .start⟩ ∧ Next Builtin.registry n k ∧
      L.source? "rats" = some "keeper" ∧ L.listeners.map Prod.snd = [eager, .stop] ∧
      Announced Builtin.registry bus 0 L ⟨"rats", .start⟩ next n.stack.tail k) ∧
    ∃ past past' n n' L L', Record Builtin.registry tavern past n ∧
      Record Builtin.registry tavern past' n' ∧ n.world.logs[0]? = some L ∧
      n'.world.logs[0]? = some L' ∧ JoinsErrands Builtin.registry 0 past n L ∧
      L'.state = L.state ∧ L.state "rats" = .completed ∧
      (stepsOf "rats" (changes 0 past)).length = 3 ∧
      (stepsOf "rats" (changes 0 past')).length = 1 ∧
      L.source? "rats" = some "keeper" ∧ L'.source? "rats" = none := by
  have hnew : tavern.Unasked 0 := ⟨[], 0, rfl⟩
  have hcalled : ∀ s, Record Builtin.registry tavern [] (tavern.call s) := fun s =>
    .call .refl rfl s
  refine ⟨hnew, ?_, ?_⟩
  · obtain ⟨n, k, L, hn, hL, he, hk, hsource, hlisteners, hlt⟩ : ∃ n k L,
        (tavern.call evening).after Builtin.registry 4 = some n ∧ n.world.logs[0]? = some L ∧
        n.errand? 0 = some ⟨"rats", .start⟩ ∧ Next Builtin.registry n k ∧
        L.source? "rats" = some "keeper" ∧ L.listeners.map Prod.snd = [eager, .stop] ∧
        (L.state "rats").rank < QuestStep.start.target.rank :=
      ⟨_, _, _, rfl, rfl, rfl, rfl, rfl, rfl, by decide⟩
    have h := (hcalled evening).after hn
    obtain ⟨L', hL', hjoins⟩ := h.joins_errands hnew
    obtain rfl := Option.some.inj (hL'.symm.trans hL)
    obtain ⟨bus, next, hheeds⟩ := hjoins.heeds _ k he hk
    exact ⟨_, n, k, L', bus, next, h, hL, he, hk, hsource, hlisteners, (hheeds.further hlt).2⟩
  · obtain ⟨n, n', L, L', hn, hn', hL, hL', hcompleted, hsource, hsource'⟩ : ∃ n n' L L',
        (tavern.call evening).after Builtin.registry 23 = some n ∧
        (tavern.call morning).after Builtin.registry 4 = some n' ∧
        n.world.logs[0]? = some L ∧ n'.world.logs[0]? = some L' ∧
        L.state "rats" = .completed ∧ L.source? "rats" = some "keeper" ∧
        L'.source? "rats" = none :=
      ⟨_, _, _, _, rfl, rfl, rfl, rfl, rfl, rfl, rfl⟩
    have hasked : (∀ e ∈ errands 0 ((tavern.call morning).moments Builtin.registry 4 ++ []),
          e ∈ errands 0 ((tavern.call evening).moments Builtin.registry 23 ++ [])) ∧
        ∀ e ∈ errands 0 ((tavern.call evening).moments Builtin.registry 23 ++ []),
          e ∈ errands 0 ((tavern.call morning).moments Builtin.registry 4 ++ []) := by
      decide +kernel
    have hchanges : (stepsOf "rats" (changes 0
        ((tavern.call evening).moments Builtin.registry 23 ++ []))).length = 3 := by
      decide +kernel
    have hchanges' : (stepsOf "rats" (changes 0
        ((tavern.call morning).moments Builtin.registry 4 ++ []))).length = 1 := by
      decide +kernel
    have h := (hcalled evening).after hn
    have h' := (hcalled morning).after hn'
    obtain ⟨K, hK, hjoins⟩ := h.joins_errands hnew
    obtain rfl := Option.some.inj (hK.symm.trans hL)
    have hsame : L'.state = K.state :=
      hjoins.order _ _ _ n' 0 L' hnew h' hL' fun e => ⟨hasked.1 e, hasked.2 e⟩
    exact ⟨_, _, n, n', K, L', h, h', hL, hL', hjoins, hsame, hcompleted, hchanges, hchanges',
      hsource, hsource'⟩

end Machine

end StoryGraph
