import Mathlib
import StoryGraph.Proofs.Flow.Run

/-!
# What happens to the visits of a runner

A visit begins and ends; its node is called once when it is entered and once when it is left. What
happens to one runner is read off two successive moments of a session (`Machine.news`), from the
current visit and from the callbacks that have not returned yet. `Machine.History` collects it over
any number of steps and calls from outside.

`story` is what ought to happen to a runner that enters given nodes one after the other. A node
whose behaviour is refused is visited, and is called neither when it is entered nor when it is left.
-/

namespace StoryGraph

inductive Callback where
  | enter (visit : Nat)
  | exit (visit : Nat)
deriving DecidableEq

inductive Happening where
  | begins (visit : Nat) (id : NodeId)
  | ends (visit : Nat)
  | starts (callback : Callback)
  | returns (callback : Callback)
deriving DecidableEq

variable {σ : Type}

def Frame.callback? (r : Nat) : Frame σ → Option Callback
  | .entering runner visit => if runner = r then some (.enter visit) else none
  | .exiting runner visit => if runner = r then some (.exit visit) else none
  | _ => none

def Frame.runner? : Frame σ → Option Nat
  | .dispatch r _ | .entering r _ | .exiting r _ | .leaving r _ => some r
  | .run _ | .deliver _ _ => none

namespace Machine

def callbacks (r : Nat) (m : Machine σ) : List Callback := m.stack.filterMap (Frame.callback? r)

def visit? (r : Nat) (m : Machine σ) : Option (Nat × NodeId) :=
  (m.world.runners[r]?.bind Runner.current).map fun c => (c.visit, c.id)

def news (r : Nat) (m n : Machine σ) : List Happening :=
  ((m.callbacks r).diff (n.callbacks r)).map .returns ++
    ((m.visit? r).filter fun c => n.visit? r ≠ some c).toList.map (fun c => .ends c.1) ++
    ((n.visit? r).filter fun c => m.visit? r ≠ some c).toList.map (fun c => .begins c.1 c.2) ++
    ((n.callbacks r).diff (m.callbacks r)).map .starts

/-- What happens to a runner while a session goes on from one moment to another. Whenever nothing
is going on any more, any script may be called from outside. -/
inductive History (kinds : Registry (Behaviour σ)) (r : Nat) (m : Machine σ) :
    List Happening → Machine σ → Prop where
  | refl : History kinds r m [] m
  | step {past : List Happening} {n k : Machine σ} (h : History kinds r m past n)
    (next : Next kinds n k) : History kinds r m (past ++ n.news r k) k
  | call {past : List Happening} {n : Machine σ} (h : History kinds r m past n)
    (rests : n.stack = []) (s : Script σ) : History kinds r m past (n.call s)

theorem diff_self (l : List Callback) : l.diff l = [] := by
  induction l with
  | nil => rfl
  | cons c l ih => rw [List.diff_cons, List.erase_cons_head, ih]

theorem news_eq_nil {r : Nat} {m n : Machine σ} (hc : n.callbacks r = m.callbacks r)
    (hv : n.visit? r = m.visit? r) : m.news r n = [] := by
  rw [news, hc, hv, diff_self]
  cases m.visit? r <;> simp

section News

variable {r : Nat} {m n : Machine σ} {visit : Nat} {id : NodeId} {calls : List Callback}

theorem news_of_leave (hm : m.callbacks r = []) (hv : m.visit? r = some (visit, id))
    (hn : n.callbacks r = calls) (hnv : n.visit? r = none) :
    m.news r n = .ends visit :: calls.map .starts := by
  rw [news, hm, hv, hn, hnv, List.nil_diff, List.diff_nil]
  rfl

theorem news_of_enter (hm : m.callbacks r = []) (hv : m.visit? r = none)
    (hn : n.callbacks r = calls) (hnv : n.visit? r = some (visit, id)) :
    m.news r n = .begins visit id :: calls.map .starts := by
  rw [news, hm, hv, hn, hnv, List.nil_diff, List.diff_nil]
  rfl

theorem news_of_return {c : Callback} (hm : m.callbacks r = [c]) (hn : n.callbacks r = [])
    (hv : n.visit? r = m.visit? r) : m.news r n = [.returns c] := by
  rw [news, hm, hn, hv]
  cases m.visit? r <;> simp

end News

end Machine

section Story

variable {β : Type _} (kinds : Registry β)

def Registry.builds (n : Node) : Bool :=
  match kinds.build n with
  | .ready _ => true
  | _ => false

def opening (visit : Nat) (n : Node) : List Happening :=
  .begins visit n.id ::
    if kinds.builds n then [.starts (.enter visit), .returns (.enter visit)] else []

def closing (visit : Nat) (n : Node) : List Happening :=
  .ends visit :: if kinds.builds n then [.starts (.exit visit), .returns (.exit visit)] else []

/-- Visits to nodes, one after the other and numbered from a given number on. -/
def story (visit : Nat) : List Node → List Happening
  | [] => []
  | n :: rest => opening kinds visit n ++ closing kinds visit n ++ story (visit + 1) rest

theorem story_append (visit : Nat) (l l' : List Node) :
    story kinds visit (l ++ l') = story kinds visit l ++ story kinds (visit + l.length) l' := by
  induction l generalizing visit with
  | nil => rfl
  | cons n rest ih =>
      have hlength : visit + (n :: rest).length = visit + 1 + rest.length := by
        rw [List.length_cons]
        omega
      rw [List.cons_append, story, story, ih, hlength, List.append_assoc _ _ (story kinds _ l')]

theorem story_append_singleton (visit : Nat) (l : List Node) (n : Node) :
    story kinds visit (l ++ [n]) =
      story kinds visit l ++ (opening kinds (visit + l.length) n ++
        closing kinds (visit + l.length) n) := by
  rw [story_append, story, story, List.append_nil]

/-- A story that has been told to its end is not about a node that is being entered. -/
theorem story_ne_append_enter (visit : Nat) (l : List Node) (past : List Happening) (v : Nat) :
    story kinds visit l ≠ past ++ [.returns (.enter v)] := by
  intro h
  have hlast := congrArg List.getLast? h
  rcases l.eq_nil_or_concat with rfl | ⟨l, n, rfl⟩
  · simp [story] at hlast
  · rw [List.concat_eq_append, story_append_singleton] at hlast
    cases hb : kinds.builds n <;> simp [closing, hb] at hlast

/-- What a visit begins with ends with the call to the node of that visit, if it is called. -/
theorem eq_of_append_opening {visit v : Nat} {n : Node} {told past : List Happening}
    (h : told ++ opening kinds visit n = past ++ [.returns (.enter v)]) : v = visit := by
  have hlast := congrArg List.getLast? h
  cases hb : kinds.builds n with
  | false => simp [opening, hb] at hlast
  | true =>
      simp only [opening, hb, if_true, List.getLast?_append, List.getLast?_singleton] at hlast
      simpa using hlast.symm

end Story

end StoryGraph
