import StoryGraph.Proofs.Flow.Queue

/-!
# Whom a delivery calls

A delivery stands on the script that asked for it, and all that happens because of those whom it
calls happens above it on the stack. So the part of a session that belongs to a delivery is the one
during which the stack is higher than what the delivery stands on (`Machine.Delivers`), whatever
other deliveries are nested in it.

A step replaces what is on top of the stack and nothing else (`Machine.exists_new_of_next`). So
those who are called are those who were to be called when the delivery began, one after the other
(`Machine.Delivers.stack`).
-/

namespace StoryGraph

variable {σ : Type}

theorem Calls.not_mem_entering {new : List (Frame σ)} (h : Calls new) (r visit : Nat) :
    .entering r visit ∉ new := by
  cases h <;> simp

namespace Machine

variable {kinds : Registry (Behaviour σ)} {m n k : Machine σ} {below base : List (Frame σ)}

/-! ### What a step does to the stack -/

/-- Something comes on top of a stack. If a node is called there because it is entered, it is
entered in a new visit. -/
def Covering (m : Machine σ) (below : List (Frame σ)) (k : Machine σ) : Prop :=
  ∃ new, k.stack = new ++ below ∧
    ∀ r visit, .entering r visit ∈ new → ∃ R ∈ m.world.runners[r]?, visit = R.visits + 1

theorem covering_of_append (new : List (Frame σ)) (h : k.stack = new ++ below)
    (hnew : ∀ r visit, .entering r visit ∉ new) : Covering m below k :=
  ⟨new, h, fun r visit hmem => absurd hmem (hnew r visit)⟩

theorem covering_of_asks (h : Asks n k) (hn : n.stack = below) : Covering m below k := by
  obtain ⟨new, hk, hnew⟩ := h.stack
  exact covering_of_append new (hn ▸ hk) hnew.not_mem_entering

theorem covering_perform (s : Script σ) (hn : n.stack = below) :
    Covering m below (n.perform s) := by
  rcases stack_perform n s with (rfl | ⟨e, rfl⟩) | ⟨new, next, hgoes⟩
  · exact covering_of_append [] hn (by simp)
  · exact covering_of_append [] hn (by simp)
  · refine covering_of_append (new ++ [.run next]) ?_ fun r visit hmem => ?_
    · rw [hgoes.stack, hn, List.append_assoc, List.singleton_append]
    · rcases List.mem_append.1 hmem with hmem | hmem
      · exact hgoes.calls.not_mem_entering r visit hmem
      · cases List.mem_singleton.1 hmem

theorem covering_leave (new : List (Frame σ)) (hn : n.stack = new ++ below)
    (hnew : ∀ r visit, .entering r visit ∉ new) (r : Nat) (R : Runner (Script σ)) :
    Covering m below (n.leave r R) := by
  rcases stack_leave n r R with h | ⟨s, visit, h⟩
  · exact covering_of_append new (h.trans hn) hnew
  · refine covering_of_append (.run s :: .exiting r visit :: new) ?_ fun r' visit' hmem => ?_
    · rw [h, hn, List.cons_append, List.cons_append]
    · simp only [List.mem_cons, reduceCtorEq, false_or] at hmem
      exact hnew r' visit' hmem

theorem covering_dispatch (hn : n.stack = below) (r entered : Nat) (R : Runner (Script σ)) :
    Covering m below (n.dispatch r R entered) := by
  unfold dispatch
  split
  · exact covering_of_asks (asks_expireRunner _ r) hn
  · split
    · exact covering_of_asks (asks_expireRunner _ r) hn
    · split
      · exact covering_of_append [.dispatch r entered] (congrArg (_ :: ·) hn) (by simp)
      · exact covering_of_append [.dispatch r entered] (congrArg (_ :: ·) hn) (by simp)
      · exact covering_leave [.leaving r none, .dispatch r entered]
          (congrArg (_ :: _ :: ·) hn) (by simp) r _
      · exact covering_leave [.leaving r _, .dispatch r (entered + 1)]
          (congrArg (_ :: _ :: ·) hn) (by simp) r _

theorem covering_enter {r : Nat} {R : Runner (Script σ)} (hR : R ∈ m.world.runners[r]?)
    (hn : n.stack = below) (node : Node) : Covering m below (n.enter kinds r R node) := by
  unfold enter
  dsimp only
  split
  · exact covering_of_append [] hn (by simp)
  · exact covering_of_append [] hn (by simp)
  · refine ⟨[.run _, .entering r (R.visits + 1)], congrArg (_ :: _ :: ·) hn,
      fun r' visit hmem => ?_⟩
    simp only [List.mem_cons, reduceCtorEq, List.not_mem_nil, or_false, false_or] at hmem
    obtain ⟨rfl, rfl⟩ := Frame.entering.inj hmem
    exact ⟨R, hR, rfl⟩

/-- A step replaces what is on top of the stack. -/
theorem exists_new_of_next {f : Frame σ} (hm : m.stack = f :: below) (hn : Next kinds m k) :
    Covering m below k := by
  have hgone : ∀ {n : Machine σ}, n.stack = below → Covering m below n := fun h =>
    covering_of_append [] h (by simp)
  have hexpire : ∀ {n : Machine σ} (b : Nat), n.stack = below → Covering m below (n.expireBus b) :=
    fun b h => covering_of_asks (atBuses_expireBus _ b).asks h
  by_cases hp : m.panic = none
  · rw [eq_resume_of_next hm hp hn]
    cases f with
    | run s => exact covering_perform s rfl
    | deliver bus rest =>
        cases rest with
        | nil =>
            cases bus with
            | none => exact hgone rfl
            | some b => exact hexpire b rfl
        | cons s rest =>
            exact covering_of_append [.run s, .deliver bus rest] rfl (by simp)
    | dispatch r entered =>
        simp only [resume]
        split
        · exact hgone rfl
        · exact covering_dispatch rfl r entered _
    | entering | exiting => exact hgone rfl
    | leaving r target =>
        simp only [resume]
        split
        · exact hgone rfl
        · exact hgone rfl
        · rename_i R node hR
          exact covering_enter hR rfl node
  · rw [eq_unwind_of_next hm hp hn]
    cases f with
    | run | leaving | exiting => exact hgone rfl
    | deliver bus rest => exact covering_of_append [.deliver bus rest] rfl (by simp)
    | dispatch r entered =>
        simp only [unwind]
        split
        · exact hgone rfl
        · split
          · exact hexpire _ rfl
          · exact hgone rfl
    | entering r visit =>
        simp only [unwind]
        split
        · exact hgone rfl
        · exact hgone rfl

/-! ### What belongs to a delivery -/

/-- Who is called in the next step by the delivery right above a stack. -/
def turn? (base : List (Frame σ)) (m : Machine σ) : Option (Script σ) :=
  match m.panic, m.stack with
  | none, .deliver _ (s :: _) :: below => if below.length = base.length then some s else none
  | _, _ => none

/-- From one moment to another all that happens happens above a stack. Kept are those who are called
by what stands right above it, each with the moment at which it is called. -/
inductive Delivers (kinds : Registry (Behaviour σ)) (base : List (Frame σ)) (m : Machine σ) :
    List (Machine σ × Script σ) → Machine σ → Prop where
  | refl : Delivers kinds base m [] m
  | step {calls : List (Machine σ × Script σ)} {n k : Machine σ}
    (h : Delivers kinds base m calls n) (above : base.length < n.stack.length)
    (next : Next kinds n k) :
    Delivers kinds base m (calls ++ (n.turn? base).toList.map fun s => (n, s)) k

variable {calls : List (Machine σ × Script σ)} {bus : Option Nat} {called : List (Script σ)}

theorem turn?_of_deliver {s : Script σ} {rest : List (Script σ)}
    (hn : n.stack = .deliver bus (s :: rest) :: base) (hp : n.panic = none) :
    n.turn? base = some s := by
  unfold turn?
  rw [hp, hn]
  exact if_pos rfl

theorem turn?_of_nil (hn : n.stack = .deliver bus [] :: base) : n.turn? base = none := by
  unfold turn?
  rw [hn]
  cases n.panic <;> rfl

theorem turn?_of_panic (hp : n.panic ≠ none) : n.turn? base = none := by
  unfold turn?
  split
  · contradiction
  · rfl

theorem turn?_of_above {f : Frame σ} {above : List (Frame σ)} {rest : List (Script σ)}
    (hn : n.stack = f :: above ++ .deliver bus rest :: base) : n.turn? base = none := by
  unfold turn?
  split
  · rename_i hstack
    have hlength : (above ++ .deliver bus rest :: base).length ≠ base.length := by
      rw [List.length_append, List.length_cons]
      omega
    obtain ⟨-, rfl⟩ := List.cons.inj (hn.symm.trans hstack)
    exact if_neg hlength
  · rfl

theorem exists_of_turn? {s : Script σ} (h : n.turn? base = some s) :
    n.panic = none ∧ ∃ bus rest below, n.stack = .deliver bus (s :: rest) :: below := by
  unfold turn? at h
  split at h
  · rename_i bus s' rest below hp hn
    split at h
    · obtain rfl := Option.some.inj h
      exact ⟨hp, bus, rest, below, hn⟩
    · cases h
  · cases h

theorem stack_expireBus (m : Machine σ) (b : Nat) : (m.expireBus b).stack = m.stack := by
  unfold expireBus
  split
  · rfl
  · split <;> rfl

/-- In one step a delivery calls the next one, or waits until the one it has called is through. When
nobody is left to be called it is over. -/
theorem next_of_deliver {above : List (Frame σ)} {rest : List (Script σ)}
    (hn : n.stack = above ++ .deliver bus rest :: base) (next : Next kinds n k) :
    (∃ above' rest', k.stack = above' ++ .deliver bus rest' :: base ∧
      (n.turn? base).toList ++ rest' = rest) ∨
        k.stack = base ∧ (n.turn? base).toList = rest := by
  cases above with
  | cons f above =>
      obtain ⟨new, hk, -⟩ := exists_new_of_next hn next
      refine .inl ⟨new ++ above, rest, hk.trans (List.append_assoc ..).symm, ?_⟩
      rw [turn?_of_above hn, Option.toList_none, List.nil_append]
  | nil =>
      rw [List.nil_append] at hn
      by_cases hp : n.panic = none
      · rw [eq_resume_of_next hn hp next]
        cases rest with
        | nil =>
            refine .inr ⟨?_, by rw [turn?_of_nil hn, Option.toList_none]⟩
            cases bus with
            | none => rfl
            | some b => exact stack_expireBus _ b
        | cons s rest =>
            exact .inl ⟨[.run s], rest, rfl, by rw [turn?_of_deliver hn hp]; rfl⟩
      · rw [eq_unwind_of_next hn hp next, turn?_of_panic hp]
        exact .inl ⟨[], rest, rfl, rfl⟩

theorem Delivers.leads (h : Delivers kinds base m calls n) : Leads kinds m n := by
  induction h with
  | refl => exact .refl
  | step _ _ next ih => exact ih.tail next

theorem Delivers.eq_of_stack (h : Delivers kinds base m calls n) (hm : m.stack = base) :
    calls = [] ∧ n = m := by
  induction h with
  | refl => exact ⟨rfl, rfl⟩
  | step h above next ih =>
      obtain ⟨-, rfl⟩ := ih
      rw [hm] at above
      exact absurd above (lt_irrefl _)

/-- Whom a delivery calls in a number of steps can be computed. -/
theorem delivers_of_after {steps : Nat} (h : m.after kinds steps = some n)
    (habove : ∀ i < steps, ∀ n ∈ m.after kinds i, base.length < n.stack.length) :
    Delivers kinds base m ((List.range steps).flatMap fun i =>
      ((m.after kinds i).bind fun n => (n.turn? base).map fun s => (n, s)).toList) n := by
  induction steps generalizing n with
  | zero =>
      obtain rfl := Option.some.inj h
      exact .refl
  | succ steps ih =>
      obtain ⟨k, hk, next⟩ := Option.bind_eq_some_iff.1 h
      have hturn : ((k.turn? base).map fun s => (k, s)).toList =
          (k.turn? base).toList.map fun s => (k, s) := by
        cases k.turn? base <;> rfl
      rw [List.range_succ, List.flatMap_append, List.flatMap_singleton, hk, Option.bind_some,
        hturn]
      exact (ih hk fun i hi => habove i (Nat.lt_succ_of_lt hi)).step
        (habove steps (Nat.lt_succ_self steps) k hk) next

/-- A delivery calls those who were to be called when it began, one after the other. -/
theorem Delivers.stack (h : Delivers kinds base m calls n)
    (hm : m.stack = .deliver bus called :: base) :
    (∃ above rest, n.stack = above ++ .deliver bus rest :: base ∧
      calls.map Prod.snd ++ rest = called) ∨ n.stack = base ∧ calls.map Prod.snd = called := by
  induction h with
  | refl => exact .inl ⟨[], called, hm, rfl⟩
  | @step calls n k h above next ih =>
      have hcalls : (calls ++ (n.turn? base).toList.map fun s => (n, s)).map Prod.snd =
          calls.map Prod.snd ++ (n.turn? base).toList := by
        rw [List.map_append, List.map_map]
        exact congrArg _ (List.map_id _)
      rcases ih with ⟨nested, rest, hn, hcalled⟩ | ⟨hn, -⟩
      · rcases next_of_deliver hn next with ⟨above', rest', hk, hturn⟩ | ⟨hk, hturn⟩
        · exact .inl ⟨above', rest', hk, by rw [hcalls, List.append_assoc, hturn, hcalled]⟩
        · exact .inr ⟨hk, by rw [hcalls, hturn, hcalled]⟩
      · rw [hn] at above
        exact absurd above (lt_irrefl _)

/-- A delivery with one to be called calls that one in its first step, and nobody after that. -/
theorem Delivers.single {s : Script σ} (h : Delivers kinds base m calls n)
    (hm : m.stack = .deliver bus [s] :: base) (hp : m.panic = none) :
    calls = [] ∧ n = m ∨ calls = [(m, s)] := by
  induction h with
  | refl => exact .inl ⟨rfl, rfl⟩
  | @step calls n k h above next ih =>
      right
      rcases ih with ⟨rfl, rfl⟩ | rfl
      · rw [turn?_of_deliver hm hp]
        rfl
      · have hnobody : n.turn? base = none := by
          rcases h.stack hm with ⟨nested, rest, hn, hcalled⟩ | ⟨hn, -⟩
          · obtain rfl : rest = [] := (List.cons.inj hcalled).2
            cases nested with
            | nil => exact turn?_of_nil hn
            | cons f nested => exact turn?_of_above hn
          · rw [hn] at above
            exact absurd above (lt_irrefl _)
        rw [hnobody]
        rfl

/-- Somebody is called at once, and once, before the one who asked for it goes on. -/
structure CallsFirst (kinds : Registry (Behaviour σ)) (bus : Option Nat) (callback next : Script σ)
    (below : List (Frame σ)) (m : Machine σ) : Prop where
  stack : m.stack = .deliver bus [callback] :: .run next :: below
  once : ∀ calls n, Delivers kinds (.run next :: below) m calls n →
    calls = [] ∧ n = m ∨ calls = [(m, callback)]

structure CallsEach (kinds : Registry (Behaviour σ)) (bus : Option Nat) (called : List (Script σ))
    (next : Script σ) (below : List (Frame σ)) (m : Machine σ) : Prop where
  stack : m.stack = .deliver bus called :: .run next :: below
  once : ∀ calls n, Delivers kinds (.run next :: below) m calls n →
    calls.map Prod.snd <+: called ∧ (n.stack = .run next :: below → calls.map Prod.snd = called)

theorem callsFirst_of_stack {callback next : Script σ}
    (hm : m.stack = .deliver bus [callback] :: .run next :: below) (hp : m.panic = none) :
    CallsFirst kinds bus callback next below m :=
  ⟨hm, fun _ _ h => h.single hm hp⟩

theorem callsEach_of_stack {next : Script σ}
    (hm : m.stack = .deliver bus called :: .run next :: below) :
    CallsEach kinds bus called next below m := by
  refine ⟨hm, fun calls n h => ?_⟩
  rcases h.stack hm with ⟨above, rest, hn, hcalled⟩ | ⟨-, hcalled⟩
  · refine ⟨⟨rest, hcalled⟩, fun hback => ?_⟩
    have hlength := congrArg List.length (hn.symm.trans hback)
    rw [List.length_append, List.length_cons] at hlength
    omega
  · exact ⟨hcalled ▸ List.prefix_rfl, fun _ => hcalled⟩

/-- Whoever is called is called at a moment at which nothing goes on above the delivery. -/
theorem Delivers.exists_turn (h : Delivers kinds base m calls n)
    (hm : m.stack = .deliver bus called :: base) {c : Machine σ × Script σ} (hc : c ∈ calls) :
    Leads kinds m c.1 ∧ Leads kinds c.1 n ∧ c.1.panic = none ∧
      ∃ rest, c.1.stack = .deliver bus (c.2 :: rest) :: base := by
  induction h with
  | refl => cases hc
  | @step calls n k h above next ih =>
      rcases List.mem_append.1 hc with hc | hc
      · obtain ⟨hfrom, hto, hrest⟩ := ih hc
        exact ⟨hfrom, hto.tail next, hrest⟩
      · obtain ⟨s, hs, rfl⟩ := List.mem_map.1 hc
        obtain ⟨hp, bus', rest', below, hstack⟩ := exists_of_turn? (Option.mem_toList.1 hs)
        refine ⟨h.leads, .single next, hp, ?_⟩
        rcases h.stack hm with ⟨nested, rest, hn, -⟩ | ⟨hn, -⟩
        · cases nested with
          | nil =>
              obtain ⟨hdeliver, -⟩ := List.cons.inj (hstack.symm.trans hn)
              obtain ⟨rfl, rfl⟩ := Frame.deliver.inj hdeliver
              exact ⟨rest', hn⟩
          | cons f nested =>
              rw [turn?_of_above hn] at hs
              cases hs
        · rw [hn] at above
          exact absurd above (lt_irrefl _)

/-! ### One raise -/

section raise

variable {b : Nat} {B : Bus (Script σ)} {key : String} {next : Script σ}

/-- An event that is raised is delivered to those who listen to it, if there are any. -/
theorem stack_of_raise (hB : m.world.bus? b = some B)
    (hm : m.stack = .run (.raise b key next) :: below) (hp : m.panic = none)
    (hn : Next kinds m n) : n.panic = none ∧
      (B.listeners key = [] ∧ n.stack = .run next :: below ∨
        n.stack = .deliver (some b) (B.listeners key) :: .run next :: below) := by
  have hn' : n = (({ m with stack := below } : Machine σ).push (.run next)).raise b key :=
    eq_resume_of_next hm hp hn
  have hB' : (({ m with stack := below } : Machine σ).push (.run next)).world.bus? b = some B := hB
  rw [hn']
  refine ⟨(atBuses_raise _ b key).panic.trans hp, ?_⟩
  rw [raise, hB']
  by_cases hnone : B.listeners key = []
  · exact .inl ⟨hnone, by simp [hnone, push]⟩
  · exact .inr (by simp [hnone, push])

/-- When an event is raised those who listen to it are called, one after the other. -/
theorem calls_of_raise (hB : m.world.bus? b = some B)
    (hm : m.stack = .run (.raise b key next) :: below) (hp : m.panic = none)
    (hn : Next kinds m n) (hd : Delivers kinds (.run next :: below) n calls k) :
    (∃ rest, calls.map Prod.snd ++ rest = B.listeners key ∧
      (k.stack = .run next :: below → rest = [])) ∧
    ∀ c ∈ calls, Leads kinds m c.1 ∧ c.1.panic = none ∧
      ∃ rest, c.1.stack = .deliver (some b) (c.2 :: rest) :: .run next :: below := by
  obtain ⟨-, ⟨hnone, hstack⟩ | hstack⟩ := stack_of_raise hB hm hp hn
  · obtain ⟨rfl, -⟩ := hd.eq_of_stack hstack
    exact ⟨⟨[], hnone.symm, fun _ => rfl⟩, fun c hc => by cases hc⟩
  · refine ⟨?_, fun c hc => ?_⟩
    · rcases hd.stack hstack with ⟨above, rest, hk, hcalled⟩ | ⟨-, hcalled⟩
      · refine ⟨rest, hcalled, fun hover => ?_⟩
        have hlength := congrArg List.length (hk.symm.trans hover)
        rw [List.length_append, List.length_cons] at hlength
        omega
      · exact ⟨[], by rw [List.append_nil, hcalled], fun _ => rfl⟩
    · obtain ⟨hl, -, hpanic, hturn⟩ := hd.exists_turn hstack hc
      exact ⟨hl.head hn, hpanic, hturn⟩

end raise

end Machine

end StoryGraph
