import Mathlib.Order.Bounds.Basic
import StoryGraph.Quest

/-!
# What a quest log has been asked for

A step takes a quest to the state that it leads to, or it leads no further and changes nothing. So a
quest log is known from what it has been asked for (`QuestLog.Reflects`): the state of a quest is the
greatest that any of its steps leads to, and the source of a quest is that of its first step, if this
was an offer.

The greatest of some states does not depend on their order, and it only grows when there are more of
them. The first of some steps stays the first when others follow.
-/

namespace StoryGraph

/-! ### The order of states -/

theorem QuestState.rank_injective : Function.Injective rank := by
  intro s t h
  cases s <;> cases t <;> first | rfl | cases h

instance : PartialOrder QuestState := PartialOrder.lift QuestState.rank QuestState.rank_injective

namespace QuestState

variable {s t : QuestState}

theorem lt_iff_rank_lt : s < t ↔ s.rank < t.rank := Iff.rfl

instance : Decidable (s < t) := decidable_of_iff (s.rank < t.rank) lt_iff_rank_lt.symm

theorem inactive_le (s : QuestState) : inactive ≤ s := Nat.zero_le s.rank

theorem le_of_not_lt (h : ¬s < t) : t ≤ s := Nat.le_of_not_lt h

theorem rank_le (s : QuestState) : s.rank ≤ 3 := by
  cases s <;> decide

end QuestState

namespace QuestStep

theorem inactive_lt_target (step : QuestStep) : .inactive < step.target := by
  cases step <;> exact Nat.succ_pos _

theorem source?_eq_none_of_lt {s : QuestState} (h : s < target step) (hs : s ≠ .inactive) :
    step.source? = none := by
  cases step with
  | offer source =>
      have hrank : s.rank = QuestState.inactive.rank := Nat.lt_one_iff.1 h
      exact absurd (QuestState.rank_injective hrank) hs
  | start | complete => rfl

end QuestStep

/-! ### Errands -/

structure Errand where
  quest : String
  step : QuestStep
deriving DecidableEq

def stepsOf (name : String) (asked : List Errand) : List QuestStep :=
  (asked.filter fun e => e.quest = name).map Errand.step

/-- The states that a quest has been in from the start or has been asked to come to. -/
def reached (name : String) (asked : List Errand) : Set QuestState :=
  {s | s = .inactive ∨ ∃ step ∈ stepsOf name asked, step.target = s}

section stepsOf

variable {name : String} {asked later : List Errand} {e : Errand} {step : QuestStep}

theorem stepsOf_cons_of_eq (h : e.quest = name) :
    stepsOf name (e :: asked) = e.step :: stepsOf name asked := by
  simp [stepsOf, h]

theorem stepsOf_cons_of_ne (h : e.quest ≠ name) :
    stepsOf name (e :: asked) = stepsOf name asked := by
  simp [stepsOf, h]

theorem stepsOf_append :
    stepsOf name (later ++ asked) = stepsOf name later ++ stepsOf name asked := by
  rw [stepsOf, List.filter_append, List.map_append]
  rfl

theorem mem_stepsOf_iff : step ∈ stepsOf name asked ↔ ⟨name, step⟩ ∈ asked := by
  simp only [stepsOf, List.mem_map, List.mem_filter, decide_eq_true_eq]
  constructor
  · rintro ⟨e, ⟨he, rfl⟩, rfl⟩
    exact he
  · exact fun h => ⟨_, ⟨h, rfl⟩, rfl⟩

theorem target_mem_reached (h : step ∈ stepsOf name asked) : step.target ∈ reached name asked :=
  .inr ⟨step, h, rfl⟩

theorem forall_mem_reached {P : QuestState → Prop} : (∀ s ∈ reached name asked, P s) ↔
    P .inactive ∧ ∀ step ∈ stepsOf name asked, P step.target := by
  simp [reached, or_imp, forall_and]

theorem reached_subset (h : ∀ step ∈ stepsOf name asked, step ∈ stepsOf name later) :
    reached name asked ⊆ reached name later :=
  forall_mem_reached.2 ⟨.inl rfl, fun step hstep => target_mem_reached (h step hstep)⟩

end stepsOf

namespace QuestLog

variable {κ μ : Type _} {log : QuestLog κ} {log' : QuestLog μ} {name : String}
  {asked asked' later : List Errand} {e : Errand}

/-! ### One errand -/

def ask (log : QuestLog κ) (e : Errand) : QuestLog κ := (log.advance? e.quest e.step).getD log

theorem advance?_eq_some_ask (h : log.state e.quest < e.step.target) :
    log.advance? e.quest e.step = some (log.ask e) := by
  rw [ask, advance?, if_pos (QuestState.lt_iff_rank_lt.1 h)]
  rfl

theorem advance?_eq_none_iff :
    log.advance? e.quest e.step = none ↔ ¬log.state e.quest < e.step.target :=
  ite_eq_right_iff.trans (forall_congr' fun _ => iff_of_false nofun id)

theorem eq_ask_of_advance? {next : QuestLog κ} (h : log.advance? e.quest e.step = some next) :
    log.state e.quest < e.step.target ∧ next = log.ask e := by
  have hlt : log.state e.quest < e.step.target := by
    by_contra hnot
    rw [advance?_eq_none_iff.2 hnot] at h
    cases h
  exact ⟨hlt, Option.some.inj (h.symm.trans (advance?_eq_some_ask hlt))⟩

theorem ask_of_not_lt (h : ¬log.state e.quest < e.step.target) : log.ask e = log := by
  rw [ask, advance?_eq_none_iff.2 h, Option.getD_none]

theorem ask_of_lt (h : log.state e.quest < e.step.target) : log.ask e =
    { log with
      states := log.states.insert e.quest e.step.target
      sources := e.step.source?.elim log.sources (log.sources.insert e.quest) } := by
  rw [ask, advance?, if_pos (QuestState.lt_iff_rank_lt.1 h), Option.getD_some]

theorem listeners_ask (log : QuestLog κ) (e : Errand) :
    (log.ask e).listeners = log.listeners ∧ (log.ask e).lastId = log.lastId := by
  by_cases h : log.state e.quest < e.step.target
  · rw [ask_of_lt h]
    exact ⟨rfl, rfl⟩
  · rw [ask_of_not_lt h]
    exact ⟨rfl, rfl⟩

theorem listeners_of_advance? {next : QuestLog κ} {step : QuestStep}
    (h : log.advance? name step = some next) :
    next.listeners = log.listeners ∧ next.lastId = log.lastId := by
  rw [(eq_ask_of_advance? (e := ⟨name, step⟩) h).2]
  exact listeners_ask log ⟨name, step⟩

theorem state_ask_of_lt (h : log.state e.quest < e.step.target) :
    (log.ask e).state = Function.update log.state e.quest e.step.target := by
  funext name
  rw [ask_of_lt h]
  by_cases hname : name = e.quest
  · subst hname
    simp [state, Table.get?_insert]
  · simp [state, Table.get?_insert, hname]

theorem state_ask_of_ne (h : e.quest ≠ name) : (log.ask e).state name = log.state name := by
  by_cases hlt : log.state e.quest < e.step.target
  · rw [state_ask_of_lt hlt, Function.update_of_ne (Ne.symm h)]
  · rw [ask_of_not_lt hlt]

theorem source?_ask_of_ne (h : e.quest ≠ name) : (log.ask e).source? name = log.source? name := by
  by_cases hlt : log.state e.quest < e.step.target
  · rw [ask_of_lt hlt, source?, source?]
    cases e.step.source? with
    | none => rfl
    | some source => simp [Table.get?_insert, Ne.symm h]
  · rw [ask_of_not_lt hlt]

theorem source?_ask_of_lt (h : log.state e.quest < e.step.target) :
    (log.ask e).source? e.quest = e.step.source?.or (log.source? e.quest) := by
  rw [ask_of_lt h, source?, source?]
  cases e.step.source? with
  | none => rfl
  | some source => simp [Table.get?_insert]

def bare (log : QuestLog κ) : QuestLog κ where
  states := log.states
  sources := log.sources

theorem state_bare (log : QuestLog κ) : log.bare.state = log.state := rfl

theorem bare_ask (log : QuestLog κ) (e : Errand) : (log.ask e).bare = log.bare.ask e := by
  by_cases h : log.state e.quest < e.step.target
  · have hbare : log.bare.state e.quest < e.step.target := h
    rw [ask_of_lt h, ask_of_lt hbare]
    rfl
  · have hbare : ¬log.bare.state e.quest < e.step.target := h
    rw [ask_of_not_lt h, ask_of_not_lt hbare]

/-! ### All that a log has been asked for -/

structure Reflects (log : QuestLog κ) (asked : List Errand) : Prop where
  state : ∀ name, IsGreatest (reached name asked) (log.state name)
  source : ∀ name, log.source? name = (stepsOf name asked).getLast?.bind QuestStep.source?

namespace Reflects

theorem new {listeners : List (Nat × κ)} {lastId : Nat} :
    ({ listeners, lastId } : QuestLog κ).Reflects [] :=
  ⟨fun _ => ⟨.inl rfl, forall_mem_reached.2 ⟨le_rfl, nofun⟩⟩, fun _ => rfl⟩

theorem of_bare {log' : QuestLog κ} (h : log.Reflects asked) (hbare : log'.bare = log.bare) :
    log'.Reflects asked := by
  have hlog : log.bare.Reflects asked := ⟨h.state, h.source⟩
  rw [← hbare] at hlog
  exact ⟨hlog.state, hlog.source⟩

theorem state_ne_inactive_iff (h : log.Reflects asked) :
    log.state name ≠ .inactive ↔ stepsOf name asked ≠ [] := by
  constructor
  · rintro hs hnone
    rcases (h.state name).1 with hinactive | ⟨step, hstep, -⟩
    · exact hs hinactive
    · rw [hnone] at hstep
      cases hstep
  · rintro hsome hinactive
    obtain ⟨step, hstep⟩ := List.exists_mem_of_ne_nil _ hsome
    have hle := (h.state name).2 (target_mem_reached hstep)
    exact absurd (hinactive ▸ hle) (not_le_of_gt step.inactive_lt_target)

theorem ask (h : log.Reflects asked) (e : Errand) : (log.ask e).Reflects (e :: asked) := by
  refine ⟨fun name => ?_, fun name => ?_⟩
  · by_cases hname : e.quest = name
    · subst hname
      have hsteps : stepsOf e.quest (e :: asked) = e.step :: stepsOf e.quest asked :=
        stepsOf_cons_of_eq rfl
      obtain ⟨hmem, hgreatest⟩ := h.state e.quest
      obtain ⟨-, hle⟩ := forall_mem_reached.1 hgreatest
      by_cases hlt : log.state e.quest < e.step.target
      · rw [state_ask_of_lt hlt, Function.update_self]
        refine ⟨target_mem_reached (hsteps ▸ List.mem_cons_self), forall_mem_reached.2 ⟨?_, ?_⟩⟩
        · exact QuestState.inactive_le _
        · rw [hsteps, List.forall_mem_cons]
          exact ⟨le_rfl, fun step hstep => (hle step hstep).trans hlt.le⟩
      · rw [ask_of_not_lt hlt]
        refine ⟨reached_subset (fun step hstep => ?_) hmem, forall_mem_reached.2 ⟨?_, ?_⟩⟩
        · exact hsteps ▸ List.mem_cons_of_mem _ hstep
        · exact QuestState.inactive_le _
        · rw [hsteps, List.forall_mem_cons]
          exact ⟨QuestState.le_of_not_lt hlt, hle⟩
    · rw [reached, stepsOf_cons_of_ne hname, state_ask_of_ne hname]
      exact h.state name
  · by_cases hname : e.quest = name
    · subst hname
      rw [stepsOf_cons_of_eq rfl, List.getLast?_cons, Option.bind_some]
      by_cases hfirst : stepsOf e.quest asked = []
      · have hinactive : log.state e.quest = .inactive := by
          by_contra hne
          exact h.state_ne_inactive_iff.1 hne hfirst
        have hlt : log.state e.quest < e.step.target := hinactive ▸ e.step.inactive_lt_target
        rw [source?_ask_of_lt hlt, h.source, hfirst]
        simp
      · have hsource : (log.ask e).source? e.quest = log.source? e.quest := by
          by_cases hlt : log.state e.quest < e.step.target
          · rw [source?_ask_of_lt hlt, QuestStep.source?_eq_none_of_lt hlt
              (h.state_ne_inactive_iff.2 hfirst), Option.none_or]
          · rw [ask_of_not_lt hlt]
        rw [hsource, h.source, List.getLast?_eq_some_getLast hfirst]
        rfl
    · rw [stepsOf_cons_of_ne hname, source?_ask_of_ne hname]
      exact h.source name

/-- The order in which a log has been asked does not matter for the states, nor does how often. -/
theorem state_eq (h : log.Reflects asked) (h' : log'.Reflects asked')
    (hsame : ∀ e, e ∈ asked' ↔ e ∈ asked) : log'.state = log.state := by
  funext name
  have hreached : reached name asked' = reached name asked := by
    simp only [reached, mem_stepsOf_iff, hsame]
  exact (hreached ▸ h'.state name).unique (h.state name)

theorem state_le (h : log.Reflects asked) (h' : log'.Reflects (later ++ asked)) (name : String) :
    log.state name ≤ log'.state name := by
  refine (h'.state name).2 (reached_subset (fun step hstep => ?_) (h.state name).1)
  rw [stepsOf_append]
  exact List.mem_append_right _ hstep

/-- What the first step has brought stays when others follow. -/
theorem source?_eq (h : log.Reflects asked) (h' : log'.Reflects (later ++ asked))
    (hfirst : stepsOf name asked ≠ []) : log'.source? name = log.source? name := by
  rw [h.source, h'.source, stepsOf_append, List.getLast?_append,
    List.getLast?_eq_some_getLast hfirst, Option.some_or]

theorem source?_eq_some_iff (h : log.Reflects asked) {source : String} :
    log.source? name = some source ↔ (stepsOf name asked).getLast? = some (.offer source) := by
  rw [h.source, Option.bind_eq_some_iff]
  constructor
  · rintro ⟨step, hstep, hsource⟩
    cases step with
    | offer source' =>
        obtain rfl := Option.some.inj hsource
        exact hstep
    | start | complete => cases hsource
  · exact fun hstep => ⟨_, hstep, rfl⟩

end Reflects

end QuestLog

end StoryGraph
