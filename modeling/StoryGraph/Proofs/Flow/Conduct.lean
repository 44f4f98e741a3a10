import StoryGraph.Proofs.Flow.Activity

/-!
# How a runner conducts itself

`Machine.Conduct` is the invariant of a session that concerns one runner. What the runner is at
shows on the stack: its frames stand together, with nothing of its own above or below them, and
nothing at all above them unless one of its nodes is called. What has happened so far, with the
calls that have not returned yet taken as if they had, is a tale.

Every step keeps the invariant, whoever takes it (`Machine.Conduct.next`), and so does every call
from outside, so it holds all through a history (`Machine.History.conduct`).
-/

namespace StoryGraph

variable {σ : Type}

namespace Machine

structure Standing (kinds : Registry (Behaviour σ)) (g : Graph) (a : Activity)
    (past : List Happening) (R : Runner Unit) : Prop where
  graph_eq : R.graph = g
  limit_ne : R.limit ≠ some 0
  suits : a.Suits R
  tale : Tale kinds R (past ++ a.callbacks.map .returns)

structure Conduct (kinds : Registry (Behaviour σ)) (g : Graph) (r : Nat) (a : Activity)
    (past : List Happening) (m : Machine σ) : Prop where
  runner : ∃ R ∈ m.world.runners[r]?, Standing kinds g a past R.stance
  stack : ∃ above rest, m.stack = above ++ (a.frames r ++ rest) ∧ Free r above ∧ Free r rest ∧
    (a.Busy → above = [] ∧ m.panic = none)

variable {kinds : Registry (Behaviour σ)} {g : Graph} {r : Nat} {a : Activity}
  {past : List Happening} {m n k : Machine σ}

theorem callbacks_eq_of_stack {above rest : List (Frame σ)}
    (hs : m.stack = above ++ (a.frames r ++ rest)) (habove : Free r above) (hrest : Free r rest) :
    m.callbacks r = a.callbacks := by
  rw [callbacks, hs, List.filterMap_append, List.filterMap_append,
    habove.filterMap_callback?, hrest.filterMap_callback?, Activity.filterMap_frames]
  simp

theorem callbacks_eq_of_frames {rest : List (Frame σ)} (hs : m.stack = a.frames r ++ rest)
    (hrest : Free r rest) : m.callbacks r = a.callbacks :=
  callbacks_eq_of_stack hs free_nil hrest

theorem Conduct.callbacks_eq (h : Conduct kinds g r a past m) : m.callbacks r = a.callbacks := by
  obtain ⟨above, rest, hs, habove, hrest, -⟩ := h.stack
  exact callbacks_eq_of_stack hs habove hrest

theorem visit?_eq {R : Runner (Script σ)} (hR : R ∈ m.world.runners[r]?) :
    m.visit? r = R.stance.current.map fun c => (c.visit, c.id) := by
  rw [visit?, Option.mem_def.1 hR]
  simp [Runner.stance, Runner.map, Option.map_map, Function.comp_def]

theorem conduct_of_fresh (hfree : Free r m.stack) {b : Nat} {limit : Option Nat}
    {blackboard : Blackboard} {exposed : Exposed}
    (hR : m.world.runners[r]? = some { graph := g, bus := b, limit, blackboard, exposed })
    (hlimit : limit ≠ some 0) : Conduct kinds g r .resting [] m := by
  have hkept : Lifetime.kept ≠ .released := by simp
  refine ⟨⟨_, hR, rfl, hlimit, ⟨rfl, rfl, hkept, fun _ => rfl, fun _ hhalted => ?_⟩, ?_⟩,
    [], m.stack, rfl, free_nil, hfree, False.elim⟩
  · exact absurd hhalted Bool.false_ne_true
  · exact .idle [] (by simp) rfl rfl rfl

theorem Conduct.pop (h : Conduct kinds g r a past m) {f : Frame σ} {stack : List (Frame σ)}
    (hm : m.stack = f :: stack) (hf : f.runner? ≠ some r) :
    Conduct kinds g r a past { m with stack } ∧ ¬a.Busy := by
  obtain ⟨above, rest, hs, habove, hrest, hbusy⟩ := h.stack
  rw [hm] at hs
  cases above with
  | cons f' above =>
      obtain ⟨rfl, rfl⟩ := List.cons.inj hs
      have hb : ¬a.Busy := fun hb => absurd (hbusy hb).1 (List.cons_ne_nil _ _)
      exact ⟨⟨h.runner, above, rest, rfl, fun f' hf' => habove f' (List.mem_cons_of_mem _ hf'),
        hrest, fun hb' => absurd hb' hb⟩, hb⟩
  | nil =>
      cases a with
      | resting =>
          have hs' : rest = f :: stack := hs.symm
          subst hs'
          exact ⟨⟨h.runner, [], stack, rfl, free_nil,
            fun f' hf' => hrest f' (List.mem_cons_of_mem _ hf'), False.elim⟩, False.elim⟩
      | working | leaving | entering | exiting =>
          obtain ⟨rfl, -⟩ := List.cons.inj hs
          exact absurd rfl hf

theorem Conduct.spares (h : Conduct kinds g r a past m) (hb : ¬a.Busy) (hs : Spares r m n) :
    Conduct kinds g r a past n := by
  obtain ⟨R, hR, hstanding⟩ := h.runner
  obtain ⟨R', hR', hstance⟩ := hs.stance R hR
  obtain ⟨above, rest, hm, habove, hrest, -⟩ := h.stack
  obtain ⟨new, hnew, hfree⟩ := hs.stack
  refine ⟨⟨R', hR', hstance ▸ hstanding⟩, new ++ above, rest, ?_, hfree.append habove, hrest,
    fun hb' => absurd hb' hb⟩
  rw [hnew, hm, List.append_assoc]

/-- From one moment to another, a runner goes on with what ought to happen to it. -/
def GoesOn (kinds : Registry (Behaviour σ)) (g : Graph) (r : Nat) (past : List Happening)
    (m n : Machine σ) : Prop :=
  ∃ a, Conduct kinds g r a (past ++ m.news r n) n

theorem Conduct.goesOn (h : Conduct kinds g r a past n) (hc : n.callbacks r = m.callbacks r)
    (hv : n.visit? r = m.visit? r) : GoesOn kinds g r past m n := by
  refine ⟨a, ?_⟩
  rw [news_eq_nil hc hv, List.append_nil]
  exact h

theorem goesOn_setRunner {R S : Runner (Script σ)} (hR : R ∈ m.world.runners[r]?)
    (hn : n.world = (m.setRunner r S).world) (hc : S.current = R.current)
    (hcalls : m.callbacks r = a.callbacks) (hs : Standing kinds g a past S.stance)
    {above rest : List (Frame σ)} (hstack : n.stack = above ++ (a.frames r ++ rest))
    (habove : Free r above) (hrest : Free r rest) (hbusy : a.Busy → above = [] ∧ n.panic = none) :
    GoesOn kinds g r past m n := by
  have hS : S ∈ n.world.runners[r]? := hn ▸ runners_setRunner hR S
  have hconduct : Conduct kinds g r a past n :=
    ⟨⟨S, hS, hs⟩, above, rest, hstack, habove, hrest, hbusy⟩
  refine hconduct.goesOn (hconduct.callbacks_eq.trans hcalls.symm) ?_
  have hstance : S.stance.current = R.stance.current := by
    simp [Runner.stance, Runner.map, hc]
  rw [visit?_eq hS, visit?_eq hR, hstance]

theorem Conduct.submit (h : Conduct kinds g r a past m) (hb : ¬a.Busy) (hp : m.panic = none)
    (task : Task) : GoesOn kinds g r past m (m.submit r task) := by
  obtain ⟨R, hR, hgraph, hlimit, hsuits, htale⟩ := h.runner
  obtain ⟨above, rest, hm, habove, hrest, -⟩ := h.stack
  unfold Machine.submit
  rw [Option.mem_def.1 hR]
  dsimp only
  split
  · exact h.goesOn rfl rfl
  · rename_i halive
    have hover : R.lifetime ≠ .over := by simpa [Runner.isAlive] using halive
    cases hd : R.dispatching with
    | true =>
        have hqueue : a.Suits { R.stance with queue := R.queue ++ [task], dispatching := true } :=
          hd ▸ hsuits.withQueue hd _
        exact goesOn_setRunner hR rfl rfl h.callbacks_eq
          ⟨hgraph, hlimit, hqueue, htale.of_eq rfl rfl rfl⟩ hm habove hrest
          fun hb' => absurd hb' hb
    | false =>
        cases a with
        | resting =>
            obtain ⟨-, -, hreleased, -, hhalted⟩ := hsuits
            have hkept : R.lifetime = .kept := Lifetime.eq_kept hreleased hover
            have hfirst : R.limit.any (· ≤ 0) → R.stance.current.isSome := by
              intro hany
              obtain ⟨limit, hl, hle⟩ := (Option.any_eq_true _ _).1 hany
              have hzero : limit = 0 := by simpa using hle
              exact absurd (hzero ▸ hl) hlimit
            have hworking : (Activity.working 0).Suits
                { R.stance with queue := R.queue ++ [task], dispatching := true } :=
              ⟨rfl, hover, hhalted hkept, hfirst⟩
            have hstack : Frame.dispatch r 0 :: m.stack =
                [] ++ ((Activity.working 0).frames r ++ (above ++ rest)) := by rw [hm]; rfl
            exact goesOn_setRunner (a := .working 0) hR rfl rfl h.callbacks_eq
              ⟨hgraph, hlimit, hworking, htale.of_eq rfl rfl rfl⟩ hstack free_nil
              (habove.append hrest) fun _ => ⟨rfl, hp⟩
        | working | leaving => exact absurd trivial hb
        | entering => exact absurd (hsuits.1.symm.trans hd) (by decide)
        | exiting =>
            obtain ⟨-, -, -, hdo⟩ := hsuits
            rcases hdo with hdo | hdo
            · exact absurd (hdo.symm.trans hd) (by decide)
            · exact absurd hdo hover

/-- The current node of a runner is left, if there is one, and is called if its behaviour could be
built. -/
theorem goesOn_leave {R₀ R : Runner (Script σ)} (after : Activity) {rest : List (Frame σ)}
    (hR₀ : R₀ ∈ n.world.runners[r]?) (hn : n.stack = after.frames r ++ rest) (hrest : Free r rest)
    (hbusy : after.Busy → n.panic = none) (hafter : after.callbacks = [])
    (hgraph : R.graph = g) (hlimit : R.limit ≠ some 0)
    (hsuits : after.Suits { R.stance with current := none })
    (hdo : R.dispatching = true ∨ R.lifetime = .over) (htale : Tale kinds R.stance past)
    (hm : m.callbacks r = []) (hv : m.visit? r = R.stance.current.map fun c => (c.visit, c.id)) :
    GoesOn kinds g r past m (n.leave r R) := by
  have hset := runners_setRunner hR₀ { R with current := none }
  have hleft : Tale kinds { R.stance with current := none } (past ++ R.stance.farewell) :=
    htale.leave rfl rfl rfl
  have hgone : (n.setRunner r { R with current := none }).visit? r = none := by
    rw [visit?_eq hset]
    rfl
  have hcalls : (n.setRunner r { R with current := none }).callbacks r = [] :=
    (callbacks_eq_of_frames hn hrest).trans hafter
  -- Whoever was built nothing is called for nothing.
  have hquiet : n.leave r R = n.setRunner r { R with current := none } →
      m.news r (n.setRunner r { R with current := none }) = R.stance.farewell →
      GoesOn kinds g r past m (n.leave r R) := by
    intro hk hnews
    rw [hk]
    refine ⟨after, ⟨_, hset, hgraph, hlimit, hsuits, ?_⟩, [], rest, hn, free_nil, hrest,
      fun hb => ⟨rfl, hbusy hb⟩⟩
    rw [hafter, List.map_nil, List.append_nil, hnews]
    exact hleft
  cases hc : R.current with
  | none =>
      have hstance : R.stance.current = none := by simp [Runner.stance, Runner.map, hc]
      rw [hstance] at hv
      refine hquiet (by simp [Machine.leave, hc]) ?_
      rw [news_eq_nil (hcalls.trans hm.symm) (hgone.trans hv.symm), Runner.farewell, hstance]
  | some c =>
      obtain ⟨id, visit, leave⟩ := c
      cases leave with
      | none =>
          have hstance : R.stance.current = some ⟨id, visit, none⟩ := by
            simp [Runner.stance, Runner.map, hc]
          rw [hstance] at hv
          refine hquiet (by simp [Machine.leave, hc]) ?_
          rw [news_of_leave hm hv hcalls hgone, Runner.farewell, hstance]
          rfl
      | some s =>
          have hstance : R.stance.current = some ⟨id, visit, some ()⟩ := by
            simp [Runner.stance, Runner.map, hc]
          let k :=
            ((n.setRunner r { R with current := none }).push (.exiting r visit)).push (.run s)
          have hk : n.leave r R = k := by simp [Machine.leave, hc, k]
          have hstack : k.stack =
              [.run s] ++ ((Activity.exiting visit after).frames r ++ rest) := by
            have hpushed : k.stack = .run s :: .exiting r visit :: n.stack := rfl
            rw [hpushed, hn]
            rfl
          have habove : Free r [(.run s : Frame σ)] := free_run s
          have hcallsK : k.callbacks r = [.exit visit] := by
            rw [callbacks_eq_of_stack hstack habove hrest, Activity.callbacks, hafter]
          have hnews : m.news r k = [.ends visit, .starts (.exit visit)] := by
            rw [hstance] at hv
            exact news_of_leave hm hv hcallsK hgone
          rw [hk]
          refine ⟨.exiting visit after, ⟨_, hset, hgraph, hlimit, ⟨hsuits, hafter, rfl, hdo⟩, ?_⟩,
            [.run s], rest, hstack, habove, hrest, False.elim⟩
          have hfarewell : R.stance.farewell =
              [.ends visit, .starts (.exit visit), .returns (.exit visit)] := by
            rw [Runner.farewell, hstance]
            rfl
          rw [Activity.callbacks, hafter, hnews, List.append_assoc]
          rw [hfarewell] at hleft
          exact hleft

theorem expireRunner_eq_self {R : Runner (Script σ)} (hR : R ∈ n.world.runners[r]?)
    (h : R.lifetime ≠ .released ∨ R.dispatching = true) : n.expireRunner r = n := by
  unfold expireRunner
  rw [Option.mem_def.1 hR]
  rcases h with h | h <;> simp [h]

/-- The queue of a runner has been worked off. If nobody keeps it, its node is left. -/
theorem goesOn_expire {R : Runner (Script σ)} (hR : R ∈ n.world.runners[r]?)
    (hfree : Free r n.stack) (hgraph : R.graph = g) (hlimit : R.limit ≠ some 0)
    (hd : R.dispatching = false) (hq : R.queue = []) (hover : R.lifetime ≠ .over)
    (hhalted : R.halted = true → R.stance.current.isSome) (htale : Tale kinds R.stance past)
    (hm : m.callbacks r = []) (hv : m.visit? r = n.visit? r) :
    GoesOn kinds g r past m (n.expireRunner r) := by
  by_cases hreleased : R.lifetime = .released
  · have hk : n.expireRunner r =
        (n.push (.deliver (some R.bus) [])).leave r { R with lifetime := .over } := by
      unfold expireRunner
      rw [Option.mem_def.1 hR]
      simp [hreleased, hd]
    rw [hk]
    have hrest : Free r (.deliver (some R.bus) [] :: n.stack) :=
      hfree.cons (Option.some_ne_none r).symm
    have hsuits : Activity.resting.Suits { R.stance with lifetime := .over, current := none } :=
      ⟨hd, hq, by simp, fun _ => rfl, by simp⟩
    have hvisit := hv.trans (visit?_eq hR)
    exact goesOn_leave (R := { R with lifetime := .over }) .resting hR rfl hrest False.elim rfl
      hgraph hlimit hsuits (.inr rfl) (htale.of_eq rfl rfl rfl) hm hvisit
  · rw [expireRunner_eq_self hR (.inl hreleased)]
    have hsuits : Activity.resting.Suits R.stance :=
      ⟨hd, hq, hreleased, fun hl => absurd hl hover, fun _ => hhalted⟩
    have hconduct : Conduct kinds g r .resting past n := by
      refine ⟨⟨R, hR, hgraph, hlimit, hsuits, ?_⟩, [], n.stack, rfl, free_nil, hfree, False.elim⟩
      rw [Activity.callbacks, List.map_nil, List.append_nil]
      exact htale
    exact hconduct.goesOn (hconduct.callbacks_eq.trans hm.symm) hv.symm

theorem Conduct.release (h : Conduct kinds g r a past m) (hb : ¬a.Busy) :
    GoesOn kinds g r past m (m.release r) := by
  obtain ⟨R, hR, hgraph, hlimit, hsuits, htale⟩ := h.runner
  obtain ⟨above, rest, hm, habove, hrest, -⟩ := h.stack
  have hset := runners_setRunner hR { R with lifetime := R.lifetime.release }
  have hk : m.release r =
      (m.setRunner r { R with lifetime := R.lifetime.release }).expireRunner r := by
    unfold Machine.release
    rw [Option.mem_def.1 hR]
  rw [hk]
  by_cases hover : R.lifetime = .over
  · have hsame : R.lifetime.release = R.lifetime := by rw [hover]; rfl
    rw [hsame] at hset ⊢
    rw [expireRunner_eq_self hset (.inl (by simp [hover]))]
    exact goesOn_setRunner hR rfl rfl h.callbacks_eq ⟨hgraph, hlimit, hsuits, htale⟩ hm habove
      hrest fun hb' => absurd hb' hb
  · have hreleased : R.lifetime.release = .released := Lifetime.release_eq hover
    rw [hreleased] at hset ⊢
    by_cases hd : R.dispatching = true
    · rw [expireRunner_eq_self hset (.inr hd)]
      exact goesOn_setRunner hR rfl rfl h.callbacks_eq
        ⟨hgraph, hlimit, hsuits.release hd, htale.of_eq rfl rfl rfl⟩ hm habove hrest
        fun hb' => absurd hb' hb
    · cases a with
      | resting =>
          obtain ⟨hrests, hqueue, hnot, -, hhalted⟩ := hsuits
          have hkept : R.lifetime = .kept := Lifetime.eq_kept hnot hover
          have hfree : Free r m.stack := by
            rw [hm]
            exact habove.append hrest
          rw [Activity.callbacks, List.map_nil, List.append_nil] at htale
          refine goesOn_expire hset hfree hgraph hlimit hrests hqueue (by simp) (hhalted hkept)
            (htale.of_eq rfl rfl rfl) h.callbacks_eq ?_
          rw [visit?_eq hset, visit?_eq hR]
          rfl
      | working | leaving => exact absurd trivial hb
      | entering => exact absurd hsuits.1 hd
      | exiting =>
          obtain ⟨-, -, -, hdo⟩ := hsuits
          exact absurd hdo (not_or.2 ⟨hd, hover⟩)

/-! ### Steps -/

theorem GoesOn.congr (h : GoesOn kinds g r past n k) (hc : m.callbacks r = n.callbacks r)
    (hv : m.visit? r = n.visit? r) : GoesOn kinds g r past m k := by
  obtain ⟨a, ha⟩ := h
  refine ⟨a, ?_⟩
  rw [news, hc, hv]
  exact ha

theorem Conduct.visit?_eq_of_spares (h : Conduct kinds g r a past m) (hs : Spares r m n) :
    n.visit? r = m.visit? r := by
  obtain ⟨R, hR, -⟩ := h.runner
  obtain ⟨R', hR', hstance⟩ := hs.stance R hR
  rw [visit?_eq hR', visit?_eq hR, hstance]

theorem Conduct.affects (h : Conduct kinds g r a past m) (hb : ¬a.Busy) (ha : Affects r m k) :
    GoesOn kinds g r past m k := by
  cases ha with
  | spares hs =>
      have hk := h.spares hb hs
      exact hk.goesOn (hk.callbacks_eq.trans h.callbacks_eq.symm) (h.visit?_eq_of_spares hs)
  | @submits n task hs hp hk =>
      have hn := h.spares hb hs
      rw [hk]
      exact (hn.submit hb hp task).congr (h.callbacks_eq.trans hn.callbacks_eq.symm)
        (h.visit?_eq_of_spares hs).symm
  | @releases n hs hk =>
      have hn := h.spares hb hs
      rw [hk]
      exact (hn.release hb).congr (h.callbacks_eq.trans hn.callbacks_eq.symm)
        (h.visit?_eq_of_spares hs).symm

section Own

variable {R : Runner (Script σ)}

theorem goesOn_dispatch {entered : Nat} (hR : R ∈ n.world.runners[r]?) (hrest : Free r n.stack)
    (hpanic : n.panic = none) (hs : Standing kinds g (.working entered) past R.stance)
    (hm : m.callbacks r = []) (hv : m.visit? r = n.visit? r) :
    GoesOn kinds g r past m (n.dispatch r R entered) := by
  obtain ⟨hgraph, hlimit, ⟨hdispatching, hover, hhalted, hreached⟩, htale'⟩ := hs
  have htale : Tale kinds R.stance past := by
    rw [Activity.callbacks, List.map_nil, List.append_nil] at htale'
    exact htale'
  have hvisit := hv.trans (visit?_eq hR)
  have hn : n.callbacks r = [] := hrest.filterMap_callback?
  unfold dispatch
  split
  · rename_i hqueue
    have hset := runners_setRunner hR { R with dispatching := false }
    exact goesOn_expire hset hrest hgraph hlimit rfl hqueue hover hhalted
      (htale.of_eq rfl rfl rfl) hm (hvisit.trans (visit?_eq hset).symm)
  · rename_i task queue hqueue
    split
    · rename_i hany
      have hset := runners_setRunner hR
        { R with queue := [], halted := true, dispatching := false }
      exact goesOn_expire hset hrest hgraph hlimit rfl rfl hover (fun _ => hreached hany)
        (htale.of_eq rfl rfl rfl) hm (hvisit.trans (visit?_eq hset).symm)
    · rename_i hbelow
      split
      · have hsuits : (Activity.working entered).Suits { R.stance with queue } :=
          ⟨hdispatching, hover, hhalted, hreached⟩
        refine GoesOn.congr ?_ (hm.trans hn.symm) hv
        exact goesOn_setRunner (a := .working entered) (S := { R with queue }) hR rfl rfl hn
          ⟨hgraph, hlimit, hsuits, htale'.of_eq rfl rfl rfl⟩ rfl free_nil hrest
          fun _ => ⟨rfl, hpanic⟩
      · rename_i hmove
        have hcurrent : R.stance.current.isSome := by
          simpa [Runner.stance, Runner.map] using R.isSome_of_move hmove
        have hsuits : (Activity.working entered).Suits { R.stance with queue, halted := true } :=
          ⟨hdispatching, hover, fun _ => hcurrent, hreached⟩
        refine GoesOn.congr ?_ (hm.trans hn.symm) hv
        exact goesOn_setRunner (a := .working entered) (S := { R with queue, halted := true }) hR
          rfl rfl hn ⟨hgraph, hlimit, hsuits, htale'.of_eq rfl rfl rfl⟩ rfl free_nil hrest
          fun _ => ⟨rfl, hpanic⟩
      · have hsuits : (Activity.leaving none entered).Suits
            { R.stance with queue, current := none } :=
          ⟨hdispatching, hover, rfl, by simp, fun _ => hbelow⟩
        exact goesOn_leave (R := { R with queue }) (.leaving none entered) hR rfl hrest
          (fun _ => hpanic) rfl hgraph hlimit hsuits (.inl hdispatching)
          (htale.of_eq rfl rfl rfl) hm hvisit
      · rename_i node hmove
        have hnode : R.graph.node? node.id = some node := Runner.node?_of_move hmove
        have hsuits : (Activity.leaving (some node) (entered + 1)).Suits
            { R.stance with queue, current := none } := by
          refine ⟨hdispatching, hover, rfl, fun n' hn' => ?_, by simp⟩
          obtain rfl := Option.some.inj hn'
          exact hnode
        exact goesOn_leave (R := { R with queue }) (.leaving (some node) (entered + 1)) hR rfl
          hrest (fun _ => hpanic) rfl hgraph hlimit hsuits (.inl hdispatching)
          (htale.of_eq rfl rfl rfl) hm hvisit

theorem goesOn_enter (hkinds : ∀ n p, kinds.build n ≠ .panicked p) {node : Node} {entered : Nat}
    (hR : R ∈ n.world.runners[r]?) {rest : List (Frame σ)}
    (hstack : n.stack = .dispatch r entered :: rest) (hrest : Free r rest)
    (hpanic : n.panic = none)
    (hs : Standing kinds g (.leaving (some node) entered) past R.stance)
    (hm : m.callbacks r = []) (hv : m.visit? r = none) :
    GoesOn kinds g r past m (n.enter kinds r R node) := by
  obtain ⟨hgraph, hlimit, ⟨hdispatching, hover, hcurrent, hnode, -⟩, htale⟩ := hs
  rw [Activity.callbacks, List.map_nil, List.append_nil] at htale
  have hfound := hnode node rfl
  unfold enter
  dsimp only
  cases hbuild : kinds.build node with
  | panicked p => exact absurd hbuild (hkinds node p)
  | refused e =>
      have hbuilds : kinds.builds node = false := by rw [Registry.builds, hbuild]
      let R' : Runner (Script σ) :=
        { R with visits := R.visits + 1, halted := true
                 current := some ⟨node.id, R.visits + 1, none⟩ }
      have hset : R' ∈ (n.setRunner r R').world.runners[r]? := runners_setRunner hR R'
      have hcalls : (n.setRunner r R').callbacks r = [] :=
        callbacks_eq_of_frames (a := .working entered) hstack hrest
      have hnews : m.news r (n.setRunner r R') = opening kinds (R.visits + 1) node := by
        rw [news_of_enter hm hv hcalls (visit?_eq hset), opening, hbuilds]
        rfl
      have hsuits : (Activity.working entered).Suits R'.stance :=
        ⟨hdispatching, hover, fun _ => rfl, fun _ => rfl⟩
      refine ⟨.working entered, ⟨R', hset, hgraph, hlimit, hsuits, ?_⟩, [], rest, hstack, free_nil,
        hrest, fun _ => ⟨rfl, hpanic⟩⟩
      rw [hnews, Activity.callbacks, List.map_nil, List.append_nil]
      exact htale.enter hcurrent hfound rfl rfl rfl hbuilds.symm
  | ready behaviour =>
      have hbuilds : kinds.builds node = true := by rw [Registry.builds, hbuild]
      let R' : Runner (Script σ) :=
        { R with visits := R.visits + 1, halted := false, armed := (R.visits + 1) :: R.armed
                 current := some ⟨node.id, R.visits + 1, some .stop⟩ }
      let k : Machine σ := ((n.setRunner r R').push (.entering r (R.visits + 1))).push
        (.run (behaviour ⟨r, R.bus, R.visits + 1⟩))
      have hset : R' ∈ k.world.runners[r]? := runners_setRunner hR R'
      have habove : Free r [(.run (behaviour ⟨r, R.bus, R.visits + 1⟩) : Frame σ)] :=
        free_run _
      have hkstack : k.stack = [.run (behaviour ⟨r, R.bus, R.visits + 1⟩)] ++
          ((Activity.entering (R.visits + 1) entered).frames r ++ rest) := by
        have hpushed : k.stack = .run (behaviour ⟨r, R.bus, R.visits + 1⟩) ::
            .entering r (R.visits + 1) :: n.stack := rfl
        rw [hpushed, hstack]
        rfl
      have hcalls : k.callbacks r = [.enter (R.visits + 1)] :=
        callbacks_eq_of_stack hkstack habove hrest
      have hnews : m.news r k ++ [.returns (.enter (R.visits + 1))] =
          opening kinds (R.visits + 1) node := by
        rw [news_of_enter hm hv hcalls (visit?_eq hset), opening, hbuilds]
        rfl
      have hsuits : (Activity.entering (R.visits + 1) entered).Suits R'.stance :=
        ⟨hdispatching, hover, rfl⟩
      refine ⟨.entering (R.visits + 1) entered, ⟨R', hset, hgraph, hlimit, hsuits, ?_⟩,
        _, rest, hkstack, habove, hrest, False.elim⟩
      rw [Activity.callbacks, List.map_singleton, List.append_assoc, hnews]
      exact htale.enter hcurrent hfound rfl rfl rfl hbuilds.symm

theorem Conduct.returns_exit {visit : Nat} {after : Activity} {rest : List (Frame σ)}
    (h : Conduct kinds g r (.exiting visit after) past m) (hworld : k.world = m.world)
    (hstack : k.stack = after.frames r ++ rest) (hrest : Free r rest) (hpanic : k.panic = none) :
    GoesOn kinds g r past m k := by
  obtain ⟨R, hR, hgraph, hlimit, ⟨hsuits, hafter, -⟩, htale⟩ := h.runner
  have hm : m.callbacks r = [.exit visit] := by rw [h.callbacks_eq, Activity.callbacks, hafter]
  have hk : k.callbacks r = [] := by
    rw [callbacks_eq_of_frames hstack hrest, hafter]
  have hv : k.visit? r = m.visit? r := by rw [visit?, visit?, hworld]
  refine ⟨after, ⟨R, by rw [hworld]; exact hR, hgraph, hlimit, hsuits, ?_⟩, [], rest, hstack,
    free_nil, hrest, fun _ => ⟨rfl, hpanic⟩⟩
  rw [news_of_return hm hk hv, hafter, List.map_nil, List.append_nil]
  rw [Activity.callbacks, hafter] at htale
  exact htale

/-- A call to a node that is entered returns. The runner may have been told to give up. -/
theorem Conduct.returns_enter {visit entered : Nat} {rest : List (Frame σ)}
    {R' : Runner (Script σ)} (h : Conduct kinds g r (.entering visit entered) past m)
    (hR : R ∈ m.world.runners[r]?) (hR' : R' ∈ k.world.runners[r]?)
    (hsame : R'.stance = { R.stance with queue := R'.queue, halted := R'.halted })
    (hstack : k.stack = .dispatch r entered :: rest) (hrest : Free r rest)
    (hpanic : k.panic = none) : GoesOn kinds g r past m k := by
  obtain ⟨R₀, hR₀, hgraph, hlimit, ⟨hdispatching, hover, hcurrent⟩, htale⟩ := h.runner
  obtain rfl := Option.some.inj (hR.symm.trans hR₀)
  have hk : k.callbacks r = [] :=
    callbacks_eq_of_frames (a := .working entered) hstack hrest
  have hv : k.visit? r = m.visit? r := by rw [visit?_eq hR', visit?_eq hR, hsame]
  have hstanding : Standing kinds g (.working entered) (past ++ m.news r k) R'.stance := by
    rw [hsame, news_of_return h.callbacks_eq hk hv]
    refine ⟨hgraph, hlimit, ⟨hdispatching, hover, fun _ => hcurrent, fun _ => hcurrent⟩, ?_⟩
    rw [Activity.callbacks, List.map_nil, List.append_nil]
    exact htale.of_eq rfl rfl rfl
  exact ⟨.working entered, ⟨R', hR', hstanding⟩, [], rest, hstack, free_nil, hrest,
    fun _ => ⟨rfl, hpanic⟩⟩

end Own

/-- A step that is not the runner's doing. -/
theorem Conduct.next_of_ne (h : Conduct kinds g r a past m) {f : Frame σ}
    {stack : List (Frame σ)} (hm : m.stack = f :: stack) (hf : f.runner? ≠ some r)
    (hn : Next kinds m k) : GoesOn kinds g r past m k := by
  obtain ⟨hpop, hb⟩ := h.pop hm hf
  refine GoesOn.congr ?_ (h.callbacks_eq.trans hpop.callbacks_eq.symm) rfl
  by_cases hp : m.panic = none
  · have hp' : ({ m with stack } : Machine σ).panic = none := hp
    rw [eq_resume_of_next hm hp hn]
    exact hpop.affects hb (affects_resume kinds hp' hf)
  · rw [eq_unwind_of_next hm hp hn]
    exact hpop.affects hb (.spares (spares_unwind _ hf))

/-- A step of a session, whoever's it is. -/
theorem Conduct.next (h : Conduct kinds g r a past m) (hkinds : ∀ n p, kinds.build n ≠ .panicked p)
    (hn : Next kinds m k) : GoesOn kinds g r past m k := by
  obtain ⟨above, rest, hm, habove, hrest, hbusy⟩ := h.stack
  obtain ⟨R, hR, hs⟩ := h.runner
  cases above with
  | cons f above => exact h.next_of_ne hm (habove f List.mem_cons_self) hn
  | nil =>
      cases a with
      | resting =>
          cases rest with
          | nil => exact absurd hm hn.stack_ne_nil
          | cons f rest => exact h.next_of_ne hm (hrest f List.mem_cons_self) hn
      | working entered =>
          obtain ⟨-, hp⟩ := hbusy trivial
          have hk := eq_resume_of_next hm hp hn
          simp only [resume, Option.mem_def.1 hR] at hk
          rw [hk]
          exact goesOn_dispatch hR hrest hp hs h.callbacks_eq rfl
      | leaving target entered =>
          obtain ⟨-, hp⟩ := hbusy trivial
          have hk := eq_resume_of_next hm hp hn
          have hv : m.visit? r = none := by
            rw [visit?_eq hR, hs.suits.2.2.1]
            rfl
          cases target with
          | none =>
              obtain ⟨hgraph, hlimit, ⟨hdispatching, hover, hcurrent, -, hbelow⟩, htale⟩ := hs
              simp only [resume, Option.mem_def.1 hR] at hk
              have hsuits : (Activity.working entered).Suits { R.stance with halted := false } :=
                ⟨hdispatching, hover, by simp, fun hany => absurd hany (hbelow rfl)⟩
              rw [hk]
              exact goesOn_setRunner (a := .working entered) hR rfl rfl h.callbacks_eq
                ⟨hgraph, hlimit, hsuits, htale.of_eq rfl rfl rfl⟩ rfl free_nil hrest
                fun _ => ⟨rfl, hp⟩
          | some node =>
              simp only [resume, Option.mem_def.1 hR] at hk
              rw [hk]
              exact goesOn_enter hkinds hR rfl hrest hp hs h.callbacks_eq hv
      | entering visit entered =>
          by_cases hp : m.panic = none
          · rw [eq_resume_of_next hm hp hn]
            exact h.returns_enter hR hR rfl rfl hrest hp
          · have hk := eq_unwind_of_next hm hp hn
            simp only [unwind, Option.mem_def.1 hR] at hk
            have hset := runners_setRunner hR { R with queue := [], halted := true }
            rw [hk]
            exact h.returns_enter hR hset rfl rfl hrest rfl
      | exiting visit after =>
          by_cases hp : m.panic = none
          · rw [eq_resume_of_next hm hp hn]
            exact h.returns_exit rfl rfl hrest hp
          · rw [eq_unwind_of_next hm hp hn]
            exact h.returns_exit rfl rfl hrest rfl

theorem Conduct.eq_resting (h : Conduct kinds g r a past m) (hm : m.stack = []) :
    a = .resting := by
  obtain ⟨above, rest, hstack, -⟩ := h.stack
  rw [hm] at hstack
  have hframes : (a.frames r : List (Frame σ)) = [] :=
    (List.append_eq_nil_iff.1 (List.append_eq_nil_iff.1 hstack.symm).2).1
  cases a with
  | resting => rfl
  | working | leaving | entering | exiting => cases hframes

/-- What a runner does on top of the stack is what it is at. -/
theorem Conduct.eq_frames_append (h : Conduct kinds g r a past m) {f : Frame σ}
    {stack : List (Frame σ)} (hm : m.stack = f :: stack) (hf : f.runner? = some r) :
    ∃ rest, f :: stack = a.frames r ++ rest ∧ Free r rest := by
  obtain ⟨above, rest, hstack, habove, hrest, -⟩ := h.stack
  rw [hm] at hstack
  cases above with
  | nil => exact ⟨rest, hstack, hrest⟩
  | cons f' above =>
      obtain ⟨rfl, -⟩ := List.cons.inj hstack
      exact absurd hf (habove _ List.mem_cons_self)

theorem Conduct.eq_leaving (h : Conduct kinds g r a past m) {target : Option Node}
    {stack : List (Frame σ)} (hm : m.stack = .leaving r target :: stack) :
    ∃ entered, a = .leaving target entered := by
  obtain ⟨rest, hstack, hrest⟩ := h.eq_frames_append hm rfl
  cases a with
  | resting =>
      have hmem : (.leaving r target : Frame σ) ∈ rest := by
        rw [← show _ = rest from hstack]
        exact List.mem_cons_self
      exact absurd rfl (hrest _ hmem)
  | leaving target' entered =>
      obtain ⟨-, rfl⟩ := Frame.leaving.inj (List.cons.inj hstack).1
      exact ⟨entered, rfl⟩
  | working | entering | exiting => cases (List.cons.inj hstack).1

theorem not_mem_entering_of_callbacks {visit : Nat} (h : a.callbacks = []) :
    (.entering r visit : Frame σ) ∉ a.frames r := by
  intro hmem
  have hcalls : Callback.enter visit ∈ (a.frames r : List (Frame σ)).filterMap
      (Frame.callback? r) :=
    List.mem_filterMap.2 ⟨_, hmem, if_pos rfl⟩
  rw [Activity.filterMap_frames, h] at hcalls
  cases hcalls

/-- A runner whose node is called because it is entered is at that, in the visit to that node. -/
theorem Conduct.current_of_entering (h : Conduct kinds g r a past m) {visit : Nat}
    (hmem : .entering r visit ∈ m.stack) :
    (∃ entered, a = .entering visit entered) ∧ ∃ R ∈ m.world.runners[r]?, R.visits = visit ∧
      R.dispatching = true ∧ R.lifetime ≠ .over ∧
      R.stance.current.map Current.visit = some visit := by
  obtain ⟨R, hR, hs⟩ := h.runner
  obtain ⟨above, rest, hm, habove, hrest, -⟩ := h.stack
  have hframes : (.entering r visit : Frame σ) ∈ a.frames r := by
    rw [hm, List.mem_append, List.mem_append] at hmem
    rcases hmem with hmem | hmem | hmem
    · exact absurd rfl (habove _ hmem)
    · exact hmem
    · exact absurd rfl (hrest _ hmem)
  cases a with
  | resting | working | leaving => simp [Activity.frames] at hframes
  | entering visit' entered =>
      have hvisit : visit = visit' := by simpa [Activity.frames] using hframes
      subst hvisit
      refine ⟨⟨entered, rfl⟩, R, hR, ?_⟩
      obtain ⟨-, -, ⟨hdispatching, hover, -⟩, htale⟩ := hs
      cases htale with
      | idle nodes mem current visits past_eq =>
          exact absurd past_eq.symm (story_ne_append_enter kinds 1 nodes past visit)
      | active nodes n leave mem node current built visits past_eq =>
          have heq : visit = nodes.length + 1 := eq_of_append_opening kinds past_eq.symm
          exact ⟨visits.trans heq.symm, hdispatching, hover, by rw [current, heq]; rfl⟩
  | exiting visit' after =>
      have hmem' : (.entering r visit : Frame σ) ∈ after.frames r := by
        simpa [Activity.frames] using hframes
      exact absurd hmem' (not_mem_entering_of_callbacks hs.suits.2.1)

theorem Conduct.call (h : Conduct kinds g r a past m) (hm : m.stack = []) (s : Script σ) :
    Conduct kinds g r a past (m.call s) := by
  obtain rfl := h.eq_resting hm
  exact ⟨h.runner, [], [.run s], rfl, free_nil, free_run s, False.elim⟩

/-- Whatever goes on, what happens to a runner goes on as it ought to. -/
theorem History.conduct (hkinds : ∀ n p, kinds.build n ≠ .panicked p)
    (h : History kinds r m past n) (hm : Conduct kinds g r a [] m) :
    ∃ a, Conduct kinds g r a past n := by
  induction h with
  | refl => exact ⟨a, hm⟩
  | step h next ih =>
      obtain ⟨b, hb⟩ := ih
      exact hb.next hkinds next
  | call h rests s ih =>
      obtain ⟨b, hb⟩ := ih
      exact ⟨b, hb.call rests s⟩

end Machine

end StoryGraph
