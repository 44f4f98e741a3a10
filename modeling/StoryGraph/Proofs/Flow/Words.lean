import StoryGraph.Proofs.Flow.Branch

/-!
# The word of a node that it is done

The node of a visit can say once that it is done, at any time, and its word waits in the queue until
its turn comes. `Runner.words` are the visits whose word may still be heard. In one step a runner
hears a word, which is gone then, or a visit begins that has a word to give, or neither
(`Machine.Turns`); and no visit begins under a number that there was before.

So the word of a visit is heard once at most, and moves the runner only if it is heard in that very
visit, not in a later one to the same node (`Machine.Works.word_counts_once`).
-/

namespace StoryGraph

variable {σ : Type}

def Task.word? : Task → Option Nat
  | .done visit => some visit
  | .request _ => none

theorem nodup_of_subperm {α : Type _} {l l' : List α} (h : l.Subperm l') (hl : l'.Nodup) :
    l.Nodup := by
  obtain ⟨l₁, hperm, hsublist⟩ := h
  exact hperm.nodup_iff.1 (hl.sublist hsublist)

theorem Task.count_filterMap_word? (tasks : List Task) (visit : Nat) :
    (tasks.filterMap Task.word?).count visit = tasks.count (.done visit) := by
  induction tasks with
  | nil => rfl
  | cons task tasks ih =>
      cases task with
      | request request =>
          rw [List.filterMap_cons_none rfl, List.count_cons_of_ne (by simp), ih]
      | done v =>
          have hcons : (done v :: tasks).filterMap Task.word? = v :: tasks.filterMap Task.word? :=
            rfl
          rw [hcons, List.count_cons, List.count_cons, ih]
          simp

namespace Runner

variable {κ : Type _}

def visit? (R : Runner κ) : Option Nat := R.current.map Current.visit

/-- The visits of which it has not been heard, but may be, that the node is done. -/
def words (R : Runner κ) : List Nat := R.armed ++ R.queue.filterMap Task.word?

/-- A runner goes on without a new visit, having heard some words. -/
structure Carries (heard : List Nat) (R R' : Runner κ) : Prop where
  limit : R'.limit = R.limit
  visits : R'.visits = R.visits
  words : (heard ++ R'.words).Subperm R.words
  armed : R'.armed = R.armed
  visit : ∀ visit, R'.visit? = some visit → R.visit? = some visit

variable {R R' R'' : Runner κ}

theorem Carries.refl (R : Runner κ) : Carries [] R R :=
  ⟨rfl, rfl, .refl _, rfl, fun _ h => h⟩

theorem visit?_of_current (h : R'.current = none ∨ R'.visit? = R.visit?) {visit : Nat}
    (hv : R'.visit? = some visit) : R.visit? = some visit := by
  rcases h with hnone | hsame
  · rw [visit?, hnone] at hv
    cases hv
  · rw [← hsame, hv]

theorem carries_of_eq (hlimit : R'.limit = R.limit) (hvisits : R'.visits = R.visits)
    (harmed : R'.armed = R.armed) (hqueue : R'.queue = R.queue)
    (hcurrent : R'.current = none ∨ R'.visit? = R.visit?) : Carries [] R R' := by
  refine ⟨hlimit, hvisits, ?_, harmed, fun visit hv => visit?_of_current hcurrent hv⟩
  rw [words, words, harmed, hqueue]
  exact .refl _

theorem carries_onLeave (R : Runner κ) (visit : Nat) (leave : κ) : Carries [] R
    { R with current := R.current.map fun c =>
        if c.visit = visit then { c with leave := c.leave.map fun _ => leave } else c } := by
  refine carries_of_eq rfl rfl rfl rfl (.inr ?_)
  simp only [visit?, Option.map_map]
  congr 1
  funext c
  by_cases hc : c.visit = visit <;> simp [hc]

theorem carries_request (R : Runner κ) (request : Request) : Carries [] R
    { R with queue := R.queue ++ [.request request], dispatching := true } := by
  refine ⟨rfl, rfl, ?_, rfl, fun _ h => h⟩
  have hnone : [Task.request request].filterMap Task.word? = [] := rfl
  rw [words, words, List.filterMap_append, hnone, List.append_nil]
  exact .refl _

theorem carries_giveUp (R : Runner κ) : Carries [] R { R with queue := [], halted := true } := by
  refine ⟨rfl, rfl, ?_, rfl, fun _ h => h⟩
  exact ((List.nil_sublist _).append_left R.armed).subperm

theorem carries_take {task : Task} (hqueue : R.queue = task :: R'.queue)
    (hlimit : R'.limit = R.limit) (hvisits : R'.visits = R.visits) (harmed : R'.armed = R.armed)
    (hcurrent : R'.current = none ∨ R'.visit? = R.visit?) : Carries task.word?.toList R R' := by
  have hperm : (task.word?.toList ++ R'.words).Perm R.words := by
    have hcons : R.queue.filterMap Task.word? =
        task.word?.toList ++ R'.queue.filterMap Task.word? := by
      rw [hqueue, List.filterMap_cons]
      cases task.word? <;> rfl
    rw [words, words, harmed, hcons, ← List.append_assoc, ← List.append_assoc]
    exact List.perm_append_comm.append_right _
  exact ⟨hlimit, hvisits, hperm.subperm, harmed, fun visit hv => visit?_of_current hcurrent hv⟩

/-- The word of a visit is given. It is heard later, unless the runner is over. -/
structure Gives (visit : Nat) (R R' : Runner κ) : Prop where
  mem : visit ∈ R.armed
  record : R' = { R with armed := R.armed.erase visit } ∨
    R' = { R with
      armed := R.armed.erase visit, queue := R.queue ++ [.done visit], dispatching := true }

theorem Gives.limit {visit : Nat} (h : Gives visit R R') : R'.limit = R.limit := by
  rcases h.record with rfl | rfl <;> rfl

theorem Gives.visits {visit : Nat} (h : Gives visit R R') : R'.visits = R.visits := by
  rcases h.record with rfl | rfl <;> rfl

theorem Gives.visit? {visit : Nat} (h : Gives visit R R') : R'.visit? = R.visit? := by
  rcases h.record with rfl | rfl <;> rfl

theorem Gives.armed {visit : Nat} (h : Gives visit R R') : R'.armed = R.armed.erase visit := by
  rcases h.record with rfl | rfl <;> rfl

theorem Gives.words {visit : Nat} (h : Gives visit R R') : R'.words.Subperm R.words := by
  rcases h.record with rfl | rfl
  · exact (List.erase_sublist.append_right _).subperm
  · have hgiven : [Task.done visit].filterMap Task.word? = [visit] := rfl
    rw [Runner.words, Runner.words, List.filterMap_append, hgiven, ← List.append_assoc]
    refine ((List.perm_append_singleton visit _).trans ?_).subperm
    exact (List.perm_cons_erase h.mem).symm.append_right _

/-- What becomes of a runner in one step in which words are heard or given. -/
inductive Turns (heard : List Nat) (given : Option Nat) (R R' : Runner κ) : Prop where
  | carries (h : R.Carries heard R')
  | gives (nothing : heard = []) {visit : Nat} (given_eq : given = some visit)
    (h : R.Gives visit R')
  | enters (nothing : heard = []) (limit : R'.limit = R.limit) (visits : R'.visits = R.visits + 1)
    (words : R'.words.Subperm ((R.visits + 1) :: R.words))
    (armed : R'.armed = R.armed ∨ R'.armed = (R.visits + 1) :: R.armed)
    (visit : R'.visit? = some (R.visits + 1))

variable {heard : List Nat} {given : Option Nat}

theorem Turns.armed_subset (h : Turns heard given R R') :
    R'.armed ⊆ (R.visits + 1) :: R.armed := by
  intro visit hv
  cases h with
  | carries h => exact List.mem_cons_of_mem _ (h.armed ▸ hv)
  | gives nothing given_eq h => exact List.mem_cons_of_mem _ (List.mem_of_mem_erase (h.armed ▸ hv))
  | enters nothing limit visits words armed =>
      rcases armed with armed | armed
      · exact List.mem_cons_of_mem _ (armed ▸ hv)
      · exact armed ▸ hv

/-- A chance that is gone has been used. -/
theorem Turns.given_of_armed (h : Turns heard given R R') {visit : Nat} (hv : visit ∈ R.armed)
    (hv' : visit ∉ R'.armed) : given = some visit := by
  cases h with
  | carries h => exact absurd (h.armed ▸ hv) hv'
  | @gives nothing v given_eq h =>
      by_cases hne : visit = v
      · rw [hne, given_eq]
      · exact absurd (h.armed ▸ (List.mem_erase_of_ne hne).2 hv) hv'
  | enters nothing limit visits words armed =>
      rcases armed with armed | armed
      · exact absurd (armed ▸ hv) hv'
      · exact absurd (armed ▸ List.mem_cons_of_mem _ hv) hv'

/-- What becomes of a runner over any number of steps: no visit comes back that has ended, and no
word that has been given. -/
structure Later (R R' : Runner κ) : Prop where
  limit : R'.limit = R.limit
  visits : R.visits ≤ R'.visits
  visit : ∀ visit ≤ R.visits, R'.visit? = some visit → R.visit? = some visit
  armed : ∀ visit ≤ R.visits, visit ∈ R'.armed → visit ∈ R.armed

theorem Later.refl (R : Runner κ) : Later R R := ⟨rfl, le_rfl, fun _ _ h => h, fun _ _ h => h⟩

theorem Later.turns (h : Later R R') (ht : Turns heard given R' R'') : Later R R'' := by
  have hnew : ∀ v ≤ R.visits, v ≠ R'.visits + 1 := fun v hle =>
    (Nat.lt_succ_of_le (hle.trans h.visits)).ne
  have harmed : ∀ v ≤ R.visits, v ∈ R''.armed → v ∈ R.armed := by
    intro v hle hv
    rcases List.mem_cons.1 (ht.armed_subset hv) with hv | hv
    · exact absurd hv (hnew v hle)
    · exact h.armed v hle hv
  cases ht with
  | carries hc =>
      exact ⟨hc.limit.trans h.limit, h.visits.trans hc.visits.ge,
        fun visit hle hv => h.visit visit hle (hc.visit visit hv), harmed⟩
  | gives nothing given_eq hg =>
      exact ⟨hg.limit.trans h.limit, h.visits.trans hg.visits.ge,
        fun visit hle hv => h.visit visit hle (hg.visit? ▸ hv), harmed⟩
  | enters nothing limit visits words armed visit =>
      exact ⟨limit.trans h.limit, h.visits.trans (visits ▸ Nat.le_succ _),
        fun v hle hv => absurd (Option.some.inj (hv.symm.trans visit)) (hnew v hle), harmed⟩

/-- No word that has been heard may be heard again, and every word is of a visit that there was. -/
structure Hears (said : List Nat) (R : Runner κ) : Prop where
  once : (said ++ R.words).Nodup
  old : ∀ visit ∈ said ++ R.words, visit ≤ R.visits

theorem Hears.turns {said : List Nat} (h : Hears said R) (ht : Turns heard given R R') :
    Hears (said ++ heard) R' := by
  have hkept : (heard ++ R'.words).Subperm R.words → R'.visits = R.visits →
      Hears (said ++ heard) R' := by
    intro hwords hvisits
    have hsub : (said ++ heard ++ R'.words).Subperm (said ++ R.words) := by
      rw [List.append_assoc]
      exact (List.subperm_append_left said).2 hwords
    exact ⟨nodup_of_subperm hsub h.once, fun visit hv => hvisits ▸ h.old visit (hsub.subset hv)⟩
  cases ht with
  | carries hc => exact hkept hc.words hc.visits
  | gives nothing given_eq hg => exact hkept (nothing ▸ hg.words) hg.visits
  | enters nothing limit visits words armed visit =>
      have hsub : (said ++ heard ++ R'.words).Subperm ((R.visits + 1) :: (said ++ R.words)) := by
        rw [nothing, List.append_nil]
        refine ((List.subperm_append_left said).2 words).trans ?_
        exact List.perm_middle.subperm
      have hnew : R.visits + 1 ∉ said ++ R.words := fun hmem =>
        Nat.not_succ_le_self _ (h.old _ hmem)
      refine ⟨nodup_of_subperm hsub (List.nodup_cons.2 ⟨hnew, h.once⟩), fun v hv => ?_⟩
      rw [visits]
      rcases List.mem_cons.1 (hsub.subset hv) with rfl | hv
      · exact le_rfl
      · exact Nat.le_succ_of_le (h.old v hv)

theorem Fresh.hears (h : R.Fresh) : Hears [] R := by
  obtain ⟨graph, bus, limit, blackboard, exposed, rfl⟩ := h
  exact ⟨List.nodup_nil, fun visit hv => by cases hv⟩

theorem Hears.unsaid {said : List Nat} (h : Hears said R) : Hears [] R :=
  ⟨(List.nodup_append.1 h.once).2.1, fun visit hv => h.old visit (List.mem_append_right _ hv)⟩

end Runner

namespace Machine

variable {kinds : Registry (Behaviour σ)} {r : Nat} {m n k : Machine σ}
  {R R' : Runner (Script σ)}

/-! ### Steps -/

def heard (r : Nat) (m : Machine σ) : List Nat :=
  ((m.taken? r).bind fun e => e.1.word?).toList

def given? (r : Nat) (m : Machine σ) : Option Nat :=
  match m.panic, m.stack with
  | none, .run (.done r' visit _) :: _ => if r' = r then some visit else none
  | _, _ => none

theorem taken?_of_panic (hp : m.panic ≠ none) : m.taken? r = none := by
  unfold taken?
  split
  · contradiction
  · rfl

/-- A runner without a limit hears the word whose turn it is, or somebody gives one, or a visit
begins, or none of these. -/
theorem turns_of_changes {f : Frame σ} {below : List (Frame σ)} (h : R.Changes kinds r f R')
    (hm : m.stack = f :: below) (hp : m.panic = none) (hR : R ∈ m.world.runners[r]?)
    (hlimit : R.limit = none) : R.Turns (m.heard r) (m.given? r) R' := by
  have hidle : (∀ entered, f ≠ .dispatch r entered) → m.heard r = [] := fun hf => by
    rw [heard, taken?_eq_none hm hf]
    rfl
  have hturn : ∀ entered, f = .dispatch r entered →
      m.heard r = (R.queue.head?.bind Task.word?).toList := fun entered hf => by
    rw [heard, taken?_of_dispatch (hf ▸ hm) hp hR]
    cases R.queue.head? <;> rfl
  have hgiven : ∀ visit next, f = .run (.done r visit next) → m.given? r = some visit :=
    fun visit next hf => by
      unfold given?
      rw [hm, hp, hf]
      exact if_pos rfl
  have hold : R.words.Subperm ((R.visits + 1) :: R.words) := (List.sublist_cons_self _ _).subperm
  cases h with
  | same idle => exact .carries (hidle idle ▸ .refl R)
  | starts next entry | asks request next =>
      exact .carries (hidle nofun ▸ R.carries_request _)
  | speaks next armed =>
      exact .gives (hidle nofun) (hgiven _ next rfl) ⟨armed, .inr rfl⟩
  | wastes next armed gone =>
      exact .gives (hidle nofun) (hgiven _ next rfl) ⟨armed, .inl rfl⟩
  | lays visit leave next => exact .carries (hidle nofun ▸ R.carries_onLeave visit leave)
  | sets | releases | relaxes =>
      exact .carries (hidle nofun ▸ Runner.carries_of_eq rfl rfl rfl rfl (.inr rfl))
  | ends next idle =>
      exact .carries (hidle nofun ▸ Runner.carries_of_eq rfl rfl rfl rfl (.inl rfl))
  | rests entered queue =>
      have hnothing : m.heard r = [] := by rw [hturn entered rfl, queue]; rfl
      exact .carries (hnothing ▸ Runner.carries_of_eq rfl rfl rfl rfl (.inr rfl))
  | expires entered queue released =>
      have hnothing : m.heard r = [] := by rw [hturn entered rfl, queue]; rfl
      exact .carries (hnothing ▸ Runner.carries_of_eq rfl rfl rfl rfl (.inl rfl))
  | quits queue reached | collapses queue reached released => simp [hlimit] at reached
  | @stays entered room task queue first move | @halts entered room task queue first move =>
      have hword : m.heard r = task.word?.toList := by rw [hturn entered rfl, first]; rfl
      exact .carries (hword ▸ Runner.carries_take first rfl rfl rfl (.inr rfl))
  | @departs entered room task queue first move =>
      have hword : m.heard r = task.word?.toList := by rw [hturn entered rfl, first]; rfl
      exact .carries (hword ▸ Runner.carries_take first rfl rfl rfl (.inl rfl))
  | refused | breaks => exact .enters (hidle nofun) rfl rfl hold (.inl rfl) rfl
  | enters => exact .enters (hidle nofun) rfl rfl (.refl _) (.inr rfl) rfl

theorem carries_of_suffers {f : Frame σ} (h : R.Suffers r f R') : R.Carries [] R' := by
  cases h with
  | same => exact .refl R
  | breaksOff => exact Runner.carries_of_eq rfl rfl rfl rfl (.inr rfl)
  | ends => exact Runner.carries_of_eq rfl rfl rfl rfl (.inl rfl)
  | givesUp => exact R.carries_giveUp

/-- What becomes of a runner without a limit in one step, whatever nodes and scripts do. -/
theorem exists_turns_of_next (hR : R ∈ m.world.runners[r]?) (hlimit : R.limit = none)
    (hn : Next kinds m k) : ∃ R' ∈ k.world.runners[r]?, R.Turns (m.heard r) (m.given? r) R' := by
  obtain ⟨f, below, R', hm, hR', ⟨hp, hchanges⟩ | ⟨hp, hsuffers⟩⟩ := exists_changes_of_next hR hn
  · exact ⟨R', hR', turns_of_changes hchanges hm hp hR hlimit⟩
  · have hnothing : m.heard r = [] := by rw [heard, taken?_of_panic hp]; rfl
    exact ⟨R', hR', .carries (hnothing ▸ carries_of_suffers hsuffers)⟩

/-! ### All that a runner takes -/

/-- The tasks that a runner takes, and where they lead, in a session in which any script may be
called from outside whenever nothing is going on. -/
inductive Works (kinds : Registry (Behaviour σ)) (r : Nat) (m : Machine σ) :
    List (Task × Move) → Machine σ → Prop where
  | refl : Works kinds r m [] m
  | step {taken : List (Task × Move)} {n k : Machine σ} (h : Works kinds r m taken n)
    (next : Next kinds n k) : Works kinds r m (taken ++ (n.taken? r).toList) k
  | call {taken : List (Task × Move)} {n : Machine σ} (h : Works kinds r m taken n)
    (rests : n.stack = []) (s : Script σ) : Works kinds r m taken (n.call s)

variable {taken : List (Task × Move)}

theorem Works.leads (h : Works kinds r m taken n) (hl : Leads kinds n k) :
    ∃ taken, Works kinds r m taken k := by
  induction hl with
  | refl => exact ⟨taken, h⟩
  | tail _ next ih =>
      obtain ⟨taken, h⟩ := ih
      exact ⟨_, h.step next⟩

theorem Works.later (h : Works kinds r m taken n) (hR : R ∈ m.world.runners[r]?)
    (hlimit : R.limit = none) : ∃ R' ∈ n.world.runners[r]?, R.Later R' := by
  induction h with
  | refl => exact ⟨R, hR, .refl R⟩
  | step h next ih =>
      obtain ⟨R', hR', hlater⟩ := ih
      obtain ⟨R'', hR'', hturns⟩ := exists_turns_of_next hR' (hlater.limit.trans hlimit) next
      exact ⟨R'', hR'', hlater.turns hturns⟩
  | call h rests s ih => exact ih

theorem later_of_leads (hl : Leads kinds m n) (hR : R ∈ m.world.runners[r]?)
    (hlimit : R.limit = none) : ∃ R' ∈ n.world.runners[r]?, R.Later R' := by
  obtain ⟨taken, h⟩ := (Works.refl : Works kinds r m [] m).leads hl
  exact h.later hR hlimit

theorem Works.hears (h : Works kinds r m taken n) (hR : R ∈ m.world.runners[r]?)
    (hlimit : R.limit = none) (hhears : R.Hears []) :
    ∃ R' ∈ n.world.runners[r]?, R'.Hears ((taken.map Prod.fst).filterMap Task.word?) := by
  induction h with
  | refl => exact ⟨R, hR, hhears⟩
  | @step taken n k h next ih =>
      obtain ⟨R', hR', hhears'⟩ := ih
      obtain ⟨R₁, hR₁, hlater⟩ := h.later hR hlimit
      obtain rfl := Option.some.inj (hR'.symm.trans hR₁)
      obtain ⟨R'', hR'', hturns⟩ := exists_turns_of_next hR' (hlater.limit.trans hlimit) next
      have hheard : ((n.taken? r).toList.map Prod.fst).filterMap Task.word? = n.heard r := by
        rw [heard]
        cases n.taken? r with
        | none => rfl
        | some e => simp [List.filterMap_cons]; cases e.1.word? <;> rfl
      rw [List.map_append, List.filterMap_append, hheard]
      exact ⟨R'', hR'', hhears'.turns hturns⟩
  | call h rests s ih => exact ih

theorem map_fst_visit? (hR : R ∈ m.world.runners[r]?) :
    (m.visit? r).map Prod.fst = R.visit? := by
  rw [visit?, Option.mem_def.1 hR, Option.bind_some, Option.map_map]
  rfl

theorem onward_cases (h : R.visit?.isSome) :
    R.onward = .halt ∨ ∃ node, R.onward = .enter node := by
  rw [Runner.visit?, Option.isSome_map] at h
  obtain ⟨c, hc⟩ := Option.isSome_iff_exists.1 h
  rw [Runner.onward, hc]
  dsimp only
  cases R.graph.node? c.id >>= Node.firstOutput >>= R.graph.node? with
  | none => exact .inl rfl
  | some node => exact .inr ⟨node, rfl⟩

/-- What a word does that is heard. In its own visit it leads on from the node, if there is a way,
and the flow halts if there is none. In any other nothing happens but that it is heard. -/
theorem next_of_word {visit : Nat} {move : Move} (hR : R ∈ n.world.runners[r]?)
    (hlimit : R.limit = none) (htaken : n.taken? r = some (.done visit, move)) :
    ∃ queue, R.queue = .done visit :: queue ∧
      (R.visit? = some visit → move = R.onward ∧ ∀ k, Next kinds n k →
        (move = .halt ∧ k = n.setRunner r { R with queue, halted := true }) ∨
        ∃ node, move = .enter node ∧ k.visit? r = none ∧ .leaving r (some node) ∈ k.stack) ∧
      (R.visit? ≠ some visit → move = .stay ∧ ∀ k, Next kinds n k →
        k = n.setRunner r { R with queue }) := by
  obtain ⟨R', hR', queue, entered, stack, hqueue, rfl, hp, hm⟩ := exists_of_taken? htaken
  obtain rfl := Option.some.inj (hR.symm.trans hR')
  have hcurrent : R.visit? = some visit ↔ R.current.any (fun c => c.visit = visit) = true := by
    rw [Runner.visit?]
    cases R.current <;> simp
  refine ⟨queue, hqueue, fun hvisit => ?_, fun hvisit => ?_⟩
  · have hmove : R.move (.done visit) = R.onward := if_pos (hcurrent.1 hvisit)
    refine ⟨hmove, fun k hk => ?_⟩
    rcases onward_cases (R := R) (by rw [hvisit]; rfl) with hhalt | ⟨node, hnode⟩
    · refine .inl ⟨hmove.trans hhalt, ?_⟩
      rw [eq_resume_of_next hm hp hk]
      simp only [resume, Option.mem_def.1 hR, dispatch, hqueue, hlimit, Option.any_none,
        Bool.false_eq_true, if_false, hmove, hhalt]
      simp only [push, setRunner, ← hm]
    · rw [hmove, hnode] at htaken
      obtain ⟨hgone, hleaving⟩ := leaving_of_taken_enter htaken hR hlimit hk
      exact .inr ⟨node, hmove.trans hnode, hgone, hleaving⟩
  · have hmove : R.move (.done visit) = .stay := if_neg (mt hcurrent.2 hvisit)
    refine ⟨hmove, fun k hk => ?_⟩
    rw [eq_resume_of_next hm hp hk]
    simp only [resume, Option.mem_def.1 hR, dispatch, hqueue, hlimit, Option.any_none,
      Bool.false_eq_true, if_false, hmove]
    simp only [push, setRunner, ← hm]

/-- Whatever nodes and scripts do, the word of a visit is heard once at most. It leads on from the
node if it is heard in that visit, and changes nothing if it is heard at any other time, be the
node the same. A visit that has ended is never the current one again. -/
theorem Works.word_counts_once {g : Graph} {b : Nat} {blackboard : Blackboard} {exposed : Exposed}
    (hfresh : m.world.runners[r]? =
      some { graph := g, bus := b, limit := none, blackboard, exposed })
    (h : Works kinds r m taken n) :
    ∃ R, n.world.runners[r]? = some R ∧ ∀ visit : Nat,
      (taken.map Prod.fst).count (.done visit) ≤ 1 ∧
      (∀ move, n.taken? r = some (.done visit, move) → .done visit ∉ taken.map Prod.fst ∧
        ∃ queue, R.queue = .done visit :: queue ∧
          (R.visit? = some visit → move = R.onward ∧ ∀ k, Next kinds n k →
            (move = .halt ∧ k = n.setRunner r { R with queue, halted := true }) ∨
            ∃ node, move = .enter node ∧ k.visit? r = none ∧ .leaving r (some node) ∈ k.stack) ∧
          (R.visit? ≠ some visit → move = .stay ∧ ∀ k, Next kinds n k →
            k = n.setRunner r { R with queue })) ∧
      ∀ later k, Works kinds r n later k → visit ≤ R.visits →
        (k.visit? r).map Prod.fst = some visit → R.visit? = some visit := by
  have hempty : ({ graph := g, bus := b, limit := none, blackboard, exposed } :
      Runner (Script σ)).Hears [] := ⟨List.nodup_nil, fun _ hv => by cases hv⟩
  obtain ⟨R, hR, hlater⟩ := h.later hfresh rfl
  obtain ⟨R', hR', hhears⟩ := h.hears hfresh rfl hempty
  obtain rfl := Option.some.inj (hR.symm.trans hR')
  refine ⟨R, hR, fun visit => ⟨?_, fun move htaken => ?_, fun later k hk hle hvisit => ?_⟩⟩
  · rw [← Task.count_filterMap_word?]
    exact List.nodup_iff_count_le_one.1 (List.nodup_append.1 hhears.once).1 visit
  · obtain ⟨queue, hqueue, hrest⟩ := next_of_word hR hlater.limit htaken
    refine ⟨fun hmem => ?_, queue, hqueue, hrest⟩
    have hsaid : visit ∈ (taken.map Prod.fst).filterMap Task.word? :=
      List.mem_filterMap.2 ⟨_, hmem, rfl⟩
    have hwords : visit ∈ R.words := by
      rw [Runner.words, hqueue]
      exact List.mem_append_right _ List.mem_cons_self
    exact (List.nodup_append.1 hhears.once).2.2 visit hsaid visit hwords rfl
  · obtain ⟨R', hR', hlater'⟩ := hk.later hR hlater.limit
    rw [map_fst_visit? hR'] at hvisit
    exact hlater'.visit visit hle hvisit

/-- A kind whose nodes have themselves called when an event is raised, also after they were left. -/
def clingKinds : Registry (Behaviour Unit) :=
  ⟨[{ tag := "cling", label := "Cling"
      build := fun _ => .ready fun v => .subscribe v.bus "k" (Builtin.done v) fun _ => .stop }]⟩

def clingMachine : Machine Unit where
  world :=
    { runners :=
        [{ graph := { start := some ⟨"a"⟩
                      nodes := [{ kind := "cling", id := ⟨"a"⟩, outputs := [some ⟨"a"⟩] }] }
           bus := 0, limit := none }]
      buses := [{}] }
  data := ()

def clingTwice : Script Unit :=
  .start 0 fun _ => .ask 0 (.goTo ⟨"a"⟩) (.raise 0 "k" .stop)

theorem word_counts_once_cling : ∃ taken n, Works clingKinds 0 clingMachine taken n ∧
    n.visit? 0 = some (2, ⟨"a"⟩) ∧ n.taken? 0 = some (.done 1, .stay) ∧
    .done 1 ∉ taken.map Prod.fst ∧ ∀ k, Next clingKinds n k → k.visit? 0 = n.visit? 0 := by
  obtain ⟨n, hn, hvisit, htaken⟩ : ∃ n,
      (clingMachine.call clingTwice).after clingKinds 19 = some n ∧
      n.visit? 0 = some (2, ⟨"a"⟩) ∧ n.taken? 0 = some (.done 1, .stay) := ⟨_, rfl, rfl, rfl⟩
  obtain ⟨taken, h⟩ := ((Works.refl : Works clingKinds 0 _ _ clingMachine).call rfl
    clingTwice).leads (takes_of_after (r := 0) hn).leads
  obtain ⟨R, hR, hwords⟩ := h.word_counts_once rfl
  obtain ⟨hnot, queue, -, -, hother⟩ := (hwords 1).2.1 _ htaken
  refine ⟨taken, n, h, hvisit, htaken, hnot, fun k hk => ?_⟩
  have hne : R.visit? ≠ some 1 := by
    rw [← map_fst_visit? hR, hvisit]
    decide
  have hset := runners_setRunner hR { R with queue }
  rw [(hother hne).2 k hk, visit?_eq hset, visit?_eq hR]
  rfl

end Machine

end StoryGraph
