import StoryGraph.Proofs.Flow.Nodes

/-!
# Who waits on a bus, and for whom

Those who are to be called by a bus are entries on its page: subscribers and those who wait for
quests alike, under numbers from one counter. What matters of a runner is on its card.

`Ledger` compares the page of one bus with the cards of all runners and with what nodes are known to
wait for: a visit in which a node waits has an entry, an entry that speaks for a visit is that of
the current visit of a live runner, and what is laid down for the end of that visit drops it. The
lemmas after it are what can happen: a node begins to wait, somebody else does, a visit ends or
begins, and those who wait for a quest are called.

While the ledger is in order, nodes have as many entries as there are runners that wait
(`Ledger.length_filter`).
-/

namespace StoryGraph

variable {σ : Type}

open Builtin (Wait)

namespace Builtin.Wait

theorem leave_inj {v v' : Visit} {w w' : Wait} {id id' : Nat}
    (h : (w.leave v id : Script σ) = w'.leave v' id') : w = w' ∧ id = id' := by
  cases w <;> cases w' <;> simp_all [leave]

theorem leave_ne_stop (w : Wait) (v : Visit) (id : Nat) : (w.leave v id : Script σ) ≠ .stop := by
  cases w <;> simp [leave]

end Builtin.Wait

structure Entry (σ : Type) where
  wait : Wait
  id : Nat
  callback : Script σ

/-- The runner and the visit that a callback speaks for, if it is that of a node. -/
def Script.speaker? : Script σ → Option (Nat × Nat)
  | .done r visit _ => some (r, visit)
  | _ => none

theorem Script.exists_of_speaker? {s : Script σ} {r visit : Nat}
    (h : s.speaker? = some (r, visit)) : ∃ next, s = .done r visit next := by
  cases s with
  | done r' visit' next =>
      obtain ⟨rfl, rfl⟩ := Prod.mk.inj (Option.some.inj h)
      exact ⟨next, rfl⟩
  | _ => cases h

/-- Those who are to be called by a bus, and the number given out last. -/
structure Page (σ : Type) where
  entries : List (Entry σ)
  lastId : Nat

namespace Page

variable {p p' : Page σ} {b : Nat} {new : Entry σ}

structure Numbered (p : Page σ) : Prop where
  nodup : (p.entries.map Entry.id).Nodup
  bound : ∀ e ∈ p.entries, e.id ≤ p.lastId

/-- What is done when a visit ends drops the entry of that visit, if it is there, and no other one
of a bus. -/
def Closes (p : Page σ) (b : Nat) (v : Visit) (s : Script σ) : Prop :=
  s = .stop ∨ ∃ (w : Wait) (id : Nat), s = w.leave v id ∧ (v.bus = b → id ≤ p.lastId ∧
    ∀ e ∈ p.entries, e.id = id → e.callback.speaker? = some (v.runner, v.number))

structure Adds (p : Page σ) (new : Entry σ) (p' : Page σ) : Prop where
  id_eq : new.id = p.lastId + 1
  lastId_eq : p'.lastId = p.lastId + 1
  perm : p'.entries.Perm (new :: p.entries)

structure Drops (p : Page σ) (gone : Entry σ → Prop) (p' : Page σ) : Prop where
  lastId_eq : p'.lastId = p.lastId
  sublist : p'.entries.Sublist p.entries
  mem_iff : ∀ e, e ∈ p'.entries ↔ e ∈ p.entries ∧ ¬gone e

theorem Drops.refl : p.Drops (fun _ => False) p :=
  ⟨rfl, List.Sublist.refl _, fun _ => (and_iff_left not_false).symm⟩

theorem drops_filter (p : Page σ) {gone : Entry σ → Prop} {f : Entry σ → Bool}
    (hf : ∀ e, gone e ↔ f e = true) :
    p.Drops gone ⟨p.entries.filter fun e => !f e, p.lastId⟩ :=
  ⟨rfl, List.filter_sublist, fun e => by simp [hf]⟩

theorem Adds.mem_iff (h : p.Adds new p') {e : Entry σ} :
    e ∈ p'.entries ↔ e = new ∨ e ∈ p.entries :=
  h.perm.mem_iff.trans List.mem_cons

theorem Numbered.id_ne (h : p.Numbered) (hadds : p.Adds new p') {e : Entry σ}
    (he : e ∈ p.entries) : e.id ≠ new.id := by
  have hle := h.bound e he
  have hid := hadds.id_eq
  omega

theorem Numbered.adds (h : p.Numbered) (hadds : p.Adds new p') : p'.Numbered := by
  refine ⟨?_, fun e he => ?_⟩
  · rw [(hadds.perm.map Entry.id).nodup_iff, List.map_cons, List.nodup_cons]
    refine ⟨fun hmem => ?_, h.nodup⟩
    obtain ⟨e, he, heq⟩ := List.mem_map.1 hmem
    exact h.id_ne hadds he heq
  · rw [hadds.lastId_eq]
    rcases hadds.mem_iff.1 he with rfl | he
    · exact hadds.id_eq.le
    · exact (h.bound e he).trans (Nat.le_succ _)

theorem Numbered.drops {gone : Entry σ → Prop} (h : p.Numbered) (hdrops : p.Drops gone p') :
    p'.Numbered :=
  ⟨h.nodup.sublist (hdrops.sublist.map _), fun e he =>
    hdrops.lastId_eq ▸ h.bound e (hdrops.sublist.subset he)⟩

theorem Numbered.eq_of_id_eq (h : p.Numbered) {e e' : Entry σ} (he : e ∈ p.entries)
    (he' : e' ∈ p.entries) (hid : e.id = e'.id) : e = e' :=
  List.inj_on_of_nodup_map h.nodup he he' hid

theorem Closes.adds {v : Visit} {s : Script σ} (h : p.Closes b v s) (hadds : p.Adds new p') :
    p'.Closes b v s := by
  refine h.imp_right fun ⟨w, id, hleave, hrest⟩ => ⟨w, id, hleave, fun hb => ?_⟩
  obtain ⟨hle, hspeaks⟩ := hrest hb
  have hlast := hadds.lastId_eq
  have hid := hadds.id_eq
  refine ⟨by omega, fun e he heq => ?_⟩
  rcases hadds.mem_iff.1 he with rfl | he
  · omega
  · exact hspeaks e he heq

theorem Closes.drops {gone : Entry σ → Prop} {v : Visit} {s : Script σ} (h : p.Closes b v s)
    (hdrops : p.Drops gone p') : p'.Closes b v s := by
  refine h.imp_right fun ⟨w, id, hleave, hrest⟩ => ⟨w, id, hleave, fun hb => ?_⟩
  obtain ⟨hle, hspeaks⟩ := hrest hb
  exact ⟨hdrops.lastId_eq ▸ hle, fun e he => hspeaks e (hdrops.sublist.subset he)⟩

end Page

/-- What matters of a runner to those who wait. -/
structure Card (σ : Type) where
  graph : Graph
  bus : Nat
  current : Option (Current (Script σ))
  alive : Bool
  visits : Nat

/-- What the node of a graph with a name is there to wait for, if it is one that waits. -/
def Graph.wait? (g : Graph) (id : NodeId) : Option Wait :=
  g.node? id >>= Walk.Act.ofNode? >>= Walk.Act.wait?

abbrev dealt (cards : Nat → Option (Card σ)) (r : Nat) (c : Card σ) : Nat → Option (Card σ) :=
  Function.update cards r (some c)

section Dealt

variable {r r' : Nat} {cards : Nat → Option (Card σ)} {c c' : Card σ}

theorem mem_dealt (hc : c' ∈ dealt cards r c r') :
    (r' = r ∧ c' = c) ∨ (r' ≠ r ∧ c' ∈ cards r') := by
  by_cases hr : r' = r
  · subst hr
    rw [dealt, Function.update_self] at hc
    exact .inl ⟨rfl, (Option.some.inj hc).symm⟩
  · rw [dealt, Function.update_of_ne hr] at hc
    exact .inr ⟨hr, hc⟩

theorem mem_dealt_self (cards : Nat → Option (Card σ)) (c : Card σ) : c ∈ dealt cards r c r := by
  rw [dealt, Function.update_self]
  exact rfl

theorem mem_dealt_of_ne (hr : r' ≠ r) (hc : c' ∈ cards r') (c : Card σ) :
    c' ∈ dealt cards r c r' := by
  rw [dealt, Function.update_of_ne hr]
  exact hc

end Dealt

structure Ledger (b : Nat) (waits : Nat → Nat → Wait → Prop) (cards : Nat → Option (Card σ))
    (p : Page σ) : Prop where
  numbered : p.Numbered
  /-- Whoever speaks for a visit waits in that visit, which goes on, and is dropped at its end. -/
  owned : ∀ e ∈ p.entries, ∀ r visit, e.callback.speaker? = some (r, visit) →
    waits r visit e.wait ∧ ∃ c ∈ cards r, c.bus = b ∧
      ∃ id, c.current = some ⟨id, visit, some (e.wait.leave ⟨r, b, visit⟩ e.id)⟩
  /-- A visit in which a node waits has an entry. -/
  found : ∀ r, ∀ c ∈ cards r, c.bus = b → ∀ cur ∈ c.current, ∀ w, waits r cur.visit w →
    ∃ e ∈ p.entries, e.wait = w ∧ e.callback.speaker? = some (r, cur.visit)
  closes : ∀ r, ∀ c ∈ cards r, ∀ cur ∈ c.current, ∀ s ∈ cur.leave,
    p.Closes b ⟨r, c.bus, cur.visit⟩ s
  living : ∀ r, ∀ c ∈ cards r, ∀ cur ∈ c.current, c.alive = true ∧ cur.visit ≤ c.visits
  past : ∀ r visit w, waits r visit w → ∃ c ∈ cards r, visit ≤ c.visits
  /-- A node waits for what it is there to wait for. -/
  suits : ∀ r, ∀ c ∈ cards r, ∀ cur ∈ c.current, ∀ w, waits r cur.visit w →
    c.graph.wait? cur.id = some w

namespace Ledger

variable {b r : Nat} {waits waits' : Nat → Nat → Wait → Prop} {cards : Nat → Option (Card σ)}
  {p p' : Page σ} {c c' : Card σ}

/-- While nothing is laid down for the end of a visit, nobody speaks for it. -/
theorem speaker_ne (h : Ledger b waits cards p) (hc : c ∈ cards r)
    (hidle : ∀ cur ∈ c.current, ∀ (w : Wait) v id, cur.leave ≠ some (w.leave v id)) {e : Entry σ}
    (he : e ∈ p.entries) (visit : Nat) : e.callback.speaker? ≠ some (r, visit) := by
  intro hs
  obtain ⟨-, c', hc', -, id, hcur⟩ := h.owned e he r visit hs
  obtain rfl := Option.some.inj (hc.symm.trans hc')
  exact hidle _ hcur _ _ _ rfl

theorem eq_of_speaker (h : Ledger b waits cards p) {e e' : Entry σ} (he : e ∈ p.entries)
    (he' : e' ∈ p.entries) {visit visit' : Nat} (hs : e.callback.speaker? = some (r, visit))
    (hs' : e'.callback.speaker? = some (r, visit')) : e = e' := by
  obtain ⟨-, c, hc, -, id, hcur⟩ := h.owned e he r visit hs
  obtain ⟨-, c', hc', -, id', hcur'⟩ := h.owned e' he' r visit' hs'
  obtain rfl := Option.some.inj (hc.symm.trans hc')
  have hsame := Option.some.inj (hcur.symm.trans hcur')
  have hleave := Option.some.inj (Current.mk.inj hsame).2.2
  exact h.numbered.eq_of_id_eq he he' (Wait.leave_inj hleave).2

theorem of_idle (hidle : ∀ r, ∀ c ∈ cards r, c.current = none) (lastId : Nat) :
    Ledger b (fun _ _ _ => False) cards ⟨[], lastId⟩ := by
  have hnot : ∀ {r c cur}, c ∈ cards r → cur ∉ c.current := by
    intro r c cur hc hcur
    rw [hidle r c hc] at hcur
    cases hcur
  exact
    { numbered := ⟨List.nodup_nil, fun e he => by cases he⟩
      owned := fun e he => by cases he
      found := fun r c hc _ cur hcur => absurd hcur (hnot hc)
      closes := fun r c hc cur hcur => absurd hcur (hnot hc)
      living := fun r c hc cur hcur => absurd hcur (hnot hc)
      past := fun r visit w hw => hw.elim
      suits := fun r c hc cur hcur => absurd hcur (hnot hc) }

/-! ### What can happen -/

theorem adds (h : Ledger b waits cards p) {new : Entry σ} (hadds : p.Adds new p')
    (hnew : new.callback.speaker? = none) : Ledger b waits cards p' := by
  refine ⟨h.numbered.adds hadds, fun e he r visit hs => ?_, fun r c hc hb cur hcur w hw => ?_,
    fun r c hc cur hcur s hs => (h.closes r c hc cur hcur s hs).adds hadds, h.living, h.past,
    h.suits⟩
  · rcases hadds.mem_iff.1 he with rfl | he
    · rw [hnew] at hs
      cases hs
    · exact h.owned e he r visit hs
  · obtain ⟨e, he, hwait⟩ := h.found r c hc hb cur hcur w hw
    exact ⟨e, hadds.mem_iff.2 (.inr he), hwait⟩

/-- Somebody is dropped who speaks for no visit. -/
theorem withdraws (h : Ledger b waits cards p) {gone : Entry σ → Prop} (hdrops : p.Drops gone p')
    (hgone : ∀ e ∈ p.entries, gone e → e.callback.speaker? = none) :
    Ledger b waits cards p' := by
  refine ⟨h.numbered.drops hdrops, fun e he => h.owned e (hdrops.sublist.subset he),
    fun r c hc hb cur hcur w hw => ?_,
    fun r c hc cur hcur s hs => (h.closes r c hc cur hcur s hs).drops hdrops, h.living, h.past,
    h.suits⟩
  obtain ⟨e, he, hwait, hs⟩ := h.found r c hc hb cur hcur w hw
  refine ⟨e, (hdrops.mem_iff e).2 ⟨he, fun hgone' => ?_⟩, hwait, hs⟩
  rw [hgone e he hgone'] at hs
  cases hs

/-- A runner is made. -/
theorem makes (h : Ledger b waits cards p) (hr : cards r = none) (hnone : c.current = none) :
    Ledger b waits (dealt cards r c) p := by
  have hold : ∀ {r' c'}, c' ∈ cards r' → c' ∈ dealt cards r c r' := by
    refine fun {r' c'} hc' => mem_dealt_of_ne ?_ hc' c
    rintro rfl
    rw [hr] at hc'
    cases hc'
  have hsame : ∀ {r' c' cur}, c' ∈ dealt cards r c r' → cur ∈ c'.current → c' ∈ cards r' := by
    intro r' c' cur hc' hcur
    rcases mem_dealt hc' with ⟨rfl, rfl⟩ | ⟨-, hc'⟩
    · rw [hnone] at hcur
      cases hcur
    · exact hc'
  refine ⟨h.numbered, fun e he r' v hs => ?_,
    fun r' c' hc' hb cur hcur => h.found r' c' (hsame hc' hcur) hb cur hcur,
    fun r' c' hc' cur hcur => h.closes r' c' (hsame hc' hcur) cur hcur,
    fun r' c' hc' cur hcur => h.living r' c' (hsame hc' hcur) cur hcur, fun r' v w hw => ?_,
    fun r' c' hc' cur hcur => h.suits r' c' (hsame hc' hcur) cur hcur⟩
  · obtain ⟨hw, c', hc', hrest⟩ := h.owned e he r' v hs
    exact ⟨hw, c', hold hc', hrest⟩
  · obtain ⟨c', hc', hle⟩ := h.past r' v w hw
    exact ⟨c', hold hc', hle⟩

/-- Those who wait for some quests are called, and wait no longer. -/
theorem drops (h : Ledger b waits cards p) {q : Wait → Prop}
    (hdrops : p.Drops (fun e => q e.wait) p')
    (hwaits : ∀ r visit w, waits' r visit w ↔ waits r visit w ∧ ¬q w) :
    Ledger b waits' cards p' := by
  refine ⟨h.numbered.drops hdrops, fun e he r visit hs => ?_, fun r c hc hb cur hcur w hw => ?_,
    fun r c hc cur hcur s hs => (h.closes r c hc cur hcur s hs).drops hdrops, h.living,
    fun r visit w hw => h.past r visit w ((hwaits _ _ _).1 hw).1,
    fun r c hc cur hcur w hw => h.suits r c hc cur hcur w ((hwaits _ _ _).1 hw).1⟩
  · obtain ⟨he, hdue⟩ := (hdrops.mem_iff e).1 he
    obtain ⟨hw, hrest⟩ := h.owned e he r visit hs
    exact ⟨(hwaits _ _ _).2 ⟨hw, hdue⟩, hrest⟩
  · obtain ⟨hw, hdue⟩ := (hwaits _ _ _).1 hw
    obtain ⟨e, he, rfl, hs⟩ := h.found r c hc hb cur hcur w hw
    exact ⟨e, (hdrops.mem_iff e).2 ⟨he, hdue⟩, rfl, hs⟩

theorem begins (h : Ledger b waits cards p) {id : NodeId} {visit : Nat} {new : Entry σ}
    (hc : c ∈ cards r) (hb : c.bus = b) (hcur : c.current = some ⟨id, visit, some .stop⟩)
    (hsuits : c.graph.wait? id = some new.wait) (hadds : p.Adds new p')
    (hnew : new.callback.speaker? = some (r, visit))
    (hwaits : ∀ r' v w, waits' r' v w ↔ waits r' v w ∨ r' = r ∧ v = visit ∧ w = new.wait) :
    Ledger b waits' (dealt cards r
      { c with current := some ⟨id, visit, some (new.wait.leave ⟨r, b, visit⟩ new.id)⟩ }) p' := by
  have hnone : ∀ e ∈ p.entries, ∀ v, e.callback.speaker? ≠ some (r, v) := by
    refine fun e he v => h.speaker_ne hc (fun cur hcur' w v id hleave => ?_) he v
    obtain rfl := Option.some.inj (hcur.symm.trans hcur')
    exact w.leave_ne_stop v id (Option.some.inj hleave).symm
  have hsame : ∀ {r' v w}, r' ≠ r → (waits' r' v w ↔ waits r' v w) := fun hr =>
    (hwaits _ _ _).trans (or_iff_left fun hr' => hr hr'.1)
  have hliving := h.living r c hc _ hcur
  refine ⟨h.numbered.adds hadds, fun e he r' v hs => ?_, fun r' c' hc' hb' cur hcur' w hw => ?_,
    fun r' c' hc' cur hcur' s hs => ?_, fun r' c' hc' cur hcur' => ?_, fun r' v w hw => ?_,
    fun r' c' hc' cur hcur' w hw => ?_⟩
  · rcases hadds.mem_iff.1 he with rfl | he
    · obtain ⟨rfl, rfl⟩ := Prod.mk.inj (Option.some.inj (hnew.symm.trans hs))
      exact ⟨(hwaits _ _ _).2 (.inr ⟨rfl, rfl, rfl⟩), _, mem_dealt_self _ _, hb, id, rfl⟩
    · obtain ⟨hw, c', hc', hrest⟩ := h.owned e he r' v hs
      have hr : r' ≠ r := by
        rintro rfl
        exact hnone e he v hs
      exact ⟨(hsame hr).2 hw, c', mem_dealt_of_ne hr hc' _, hrest⟩
  · rcases mem_dealt hc' with ⟨rfl, rfl⟩ | ⟨hr, hc'⟩
    · obtain rfl := Option.some.inj hcur'
      rcases (hwaits _ _ _).1 hw with hw | ⟨-, -, rfl⟩
      · obtain ⟨e, he, -, hs⟩ := h.found r' c hc hb _ hcur w hw
        exact absurd hs (hnone e he _)
      · exact ⟨new, hadds.mem_iff.2 (.inl rfl), rfl, hnew⟩
    · obtain ⟨e, he, hrest⟩ := h.found r' c' hc' hb' cur hcur' w ((hsame hr).1 hw)
      exact ⟨e, hadds.mem_iff.2 (.inr he), hrest⟩
  · rcases mem_dealt hc' with ⟨rfl, rfl⟩ | ⟨hr, hc'⟩
    · obtain rfl := Option.some.inj hcur'
      obtain rfl := Option.some.inj hs
      refine .inr ⟨new.wait, new.id, by rw [hb], fun _ => ⟨?_, fun e he heq => ?_⟩⟩
      · exact (hadds.id_eq.trans hadds.lastId_eq.symm).le
      · rcases hadds.mem_iff.1 he with rfl | he
        · exact hnew
        · exact absurd heq (h.numbered.id_ne hadds he)
    · exact (h.closes r' c' hc' cur hcur' s hs).adds hadds
  · rcases mem_dealt hc' with ⟨rfl, rfl⟩ | ⟨hr, hc'⟩
    · obtain rfl := Option.some.inj hcur'
      exact hliving
    · exact h.living r' c' hc' cur hcur'
  · by_cases hr : r' = r
    · subst hr
      refine ⟨_, mem_dealt_self _ _, ?_⟩
      rcases (hwaits _ _ _).1 hw with hw | ⟨-, rfl, -⟩
      · obtain ⟨c', hc', hle⟩ := h.past r' v w hw
        obtain rfl := Option.some.inj (hc.symm.trans hc')
        exact hle
      · exact hliving.2
    · obtain ⟨c', hc', hle⟩ := h.past r' v w ((hsame hr).1 hw)
      exact ⟨c', mem_dealt_of_ne hr hc' _, hle⟩
  · rcases mem_dealt hc' with ⟨rfl, rfl⟩ | ⟨hr, hc'⟩
    · obtain rfl := Option.some.inj hcur'
      rcases (hwaits _ _ _).1 hw with hw | ⟨-, -, rfl⟩
      · exact h.suits r' c hc _ hcur w hw
      · exact hsuits
    · exact h.suits r' c' hc' cur hcur' w ((hsame hr).1 hw)

/-- The card of a runner changes, and with it go the entries that speak for a visit of that
runner. -/
theorem deals (h : Ledger b waits cards p) {gone : Entry σ → Prop} (hc : c ∈ cards r)
    (hdrops : p.Drops gone p')
    (hgone : ∀ e ∈ p.entries, gone e → ∃ visit, e.callback.speaker? = some (r, visit))
    (hnone : ∀ e ∈ p'.entries, ∀ visit, e.callback.speaker? ≠ some (r, visit))
    (hvisits : c.visits ≤ c'.visits)
    (hfound : c'.bus = b → ∀ cur ∈ c'.current, ∀ w, ¬waits r cur.visit w)
    (hcloses : ∀ cur ∈ c'.current, ∀ s ∈ cur.leave, p'.Closes b ⟨r, c'.bus, cur.visit⟩ s)
    (hliving : ∀ cur ∈ c'.current, c'.alive = true ∧ cur.visit ≤ c'.visits)
    (hsuits : ∀ cur ∈ c'.current, ∀ w, waits r cur.visit w → c'.graph.wait? cur.id = some w) :
    Ledger b waits (dealt cards r c') p' := by
  refine ⟨h.numbered.drops hdrops, fun e he r' v hs => ?_,
    fun r' c'' hc'' hb cur hcur w hw => ?_, fun r' c'' hc'' cur hcur s hs => ?_,
    fun r' c'' hc'' cur hcur => ?_, fun r' v w hw => ?_, fun r' c'' hc'' cur hcur w hw => ?_⟩
  · obtain ⟨hw, c'', hc'', hrest⟩ := h.owned e (hdrops.sublist.subset he) r' v hs
    have hr : r' ≠ r := by
      rintro rfl
      exact hnone e he v hs
    exact ⟨hw, c'', mem_dealt_of_ne hr hc'' _, hrest⟩
  · rcases mem_dealt hc'' with ⟨rfl, rfl⟩ | ⟨hr, hc''⟩
    · exact absurd hw (hfound hb cur hcur w)
    · obtain ⟨e, he, hwait, hs⟩ := h.found r' c'' hc'' hb cur hcur w hw
      refine ⟨e, (hdrops.mem_iff e).2 ⟨he, fun hgone' => ?_⟩, hwait, hs⟩
      obtain ⟨visit, hs'⟩ := hgone e he hgone'
      exact hr (Prod.mk.inj (Option.some.inj (hs.symm.trans hs'))).1
  · rcases mem_dealt hc'' with ⟨rfl, rfl⟩ | ⟨-, hc''⟩
    · exact hcloses cur hcur s hs
    · exact (h.closes r' c'' hc'' cur hcur s hs).drops hdrops
  · rcases mem_dealt hc'' with ⟨rfl, rfl⟩ | ⟨-, hc''⟩
    · exact hliving cur hcur
    · exact h.living r' c'' hc'' cur hcur
  · obtain ⟨c'', hc'', hle⟩ := h.past r' v w hw
    by_cases hr : r' = r
    · subst hr
      obtain rfl := Option.some.inj (hc.symm.trans hc'')
      exact ⟨c', mem_dealt_self _ _, hle.trans hvisits⟩
    · exact ⟨c'', mem_dealt_of_ne hr hc'' _, hle⟩
  · rcases mem_dealt hc'' with ⟨rfl, rfl⟩ | ⟨-, hc''⟩
    · exact hsuits cur hcur w hw
    · exact h.suits r' c'' hc'' cur hcur w hw

/-- The card of a runner changes for whom nothing is laid down on the bus. -/
theorem deals_idle (h : Ledger b waits cards p) (hc : c ∈ cards r)
    (hidle : c.bus = b → ∀ cur ∈ c.current, ∀ (w : Wait) v id, cur.leave ≠ some (w.leave v id))
    (hvisits : c.visits ≤ c'.visits)
    (hfound : c'.bus = b → ∀ cur ∈ c'.current, ∀ w, ¬waits r cur.visit w)
    (hcloses : ∀ cur ∈ c'.current, ∀ s ∈ cur.leave, p.Closes b ⟨r, c'.bus, cur.visit⟩ s)
    (hliving : ∀ cur ∈ c'.current, c'.alive = true ∧ cur.visit ≤ c'.visits)
    (hsuits : ∀ cur ∈ c'.current, ∀ w, waits r cur.visit w → c'.graph.wait? cur.id = some w) :
    Ledger b waits (dealt cards r c') p := by
  refine h.deals hc .refl (fun e he hgone => hgone.elim) (fun e he visit hs => ?_) hvisits hfound
    hcloses hliving hsuits
  obtain ⟨-, c'', hc'', hb, -⟩ := h.owned e he r visit hs
  obtain rfl := Option.some.inj (hc.symm.trans hc'')
  exact h.speaker_ne hc (hidle hb) he visit hs

theorem ends_idle (h : Ledger b waits cards p) (hc : c ∈ cards r)
    (hidle : c.bus = b → ∀ cur ∈ c.current, ∀ (w : Wait) v id, cur.leave ≠ some (w.leave v id))
    (hvisits : c.visits ≤ c'.visits) (hnone : c'.current = none) :
    Ledger b waits (dealt cards r c') p := by
  have hnot : ∀ {cur}, cur ∉ c'.current := fun hcur => by rw [hnone] at hcur; cases hcur
  exact h.deals_idle hc hidle hvisits (fun _ cur hcur => absurd hcur hnot)
    (fun cur hcur => absurd hcur hnot) (fun cur hcur => absurd hcur hnot)
    fun cur hcur => absurd hcur hnot

/-- A visit ends whose node has waited on the bus, and what was laid down has been done. -/
theorem ends (h : Ledger b waits cards p) {id : NodeId} {visit number : Nat} {w : Wait}
    (hc : c ∈ cards r) (hb : c.bus = b)
    (hcur : c.current = some ⟨id, visit, some (w.leave ⟨r, b, visit⟩ number)⟩)
    (hdrops : p.Drops (fun e => e.wait = w ∧ e.id = number) p') (hvisits : c.visits ≤ c'.visits)
    (hnone : c'.current = none) : Ledger b waits (dealt cards r c') p' := by
  have hnot : ∀ {cur}, cur ∉ c'.current := fun hcur => by rw [hnone] at hcur; cases hcur
  refine h.deals hc hdrops (fun e he hgone => ?_) (fun e he v hs => ?_) hvisits
    (fun _ cur hcur => absurd hcur hnot) (fun cur hcur => absurd hcur hnot)
    (fun cur hcur => absurd hcur hnot) fun cur hcur => absurd hcur hnot
  · rcases h.closes r c hc _ hcur _ rfl with hstop | ⟨w', number', hleave, hrest⟩
    · exact absurd hstop (w.leave_ne_stop _ _)
    · obtain ⟨-, rfl⟩ := Wait.leave_inj hleave
      exact ⟨visit, (hrest hb).2 e he hgone.2⟩
  · obtain ⟨he, hkept⟩ := (hdrops.mem_iff e).1 he
    obtain ⟨-, c'', hc'', -, id', hcur'⟩ := h.owned e he r v hs
    obtain rfl := Option.some.inj (hc.symm.trans hc'')
    have hsame := Option.some.inj (hcur.symm.trans hcur')
    obtain ⟨rfl, rfl⟩ := Wait.leave_inj (Option.some.inj (Current.mk.inj hsame).2.2)
    exact hkept ⟨rfl, rfl⟩

theorem enters (h : Ledger b waits cards p) (hc : c ∈ cards r) (hnone : c.current = none)
    (hvisits : c'.visits = c.visits + 1) {id : NodeId} {leave : Option (Script σ)}
    (hcur : c'.current = some ⟨id, c.visits + 1, leave⟩) (halive : c'.alive = true)
    (hleave : ∀ s ∈ leave, s = .stop) : Ledger b waits (dealt cards r c') p := by
  have hnot : ∀ {cur}, cur ∉ c.current := fun hcur => by rw [hnone] at hcur; cases hcur
  have hnew : ∀ cur ∈ c'.current, ∀ w, ¬waits r cur.visit w := by
    intro cur hcur' w hw
    obtain rfl := Option.some.inj (hcur.symm.trans hcur')
    obtain ⟨c'', hc'', hle⟩ := h.past r _ w hw
    obtain rfl := Option.some.inj (hc.symm.trans hc'')
    exact absurd hle (Nat.not_succ_le_self _)
  refine h.deals_idle hc (fun _ cur hcur => absurd hcur hnot) (hvisits ▸ Nat.le_succ _)
    (fun _ => hnew) (fun cur hcur' s hs => ?_) (fun cur hcur' => ?_)
    fun cur hcur' w hw => absurd hw (hnew cur hcur' w)
  all_goals obtain rfl := Option.some.inj (hcur.symm.trans hcur')
  · exact .inl (hleave s hs)
  · exact ⟨halive, hvisits.ge⟩

/-! ### Counting -/

/-- Nodes have an entry each for the runners whose current visit is one in which they wait. -/
theorem length_filter (h : Ledger b waits cards p) (q : Wait → Bool) :
    (p.entries.filter fun e => q e.wait && e.callback.speaker?.isSome).length =
      {r | ∃ c ∈ cards r, c.alive = true ∧ c.bus = b ∧
        ∃ cur ∈ c.current, ∃ w, q w = true ∧ c.graph.wait? cur.id = some w ∧
          waits r cur.visit w}.ncard := by
  let of (e : Entry σ) : Nat := (e.callback.speaker?.map Prod.fst).getD 0
  let mine := p.entries.filter fun e => q e.wait && e.callback.speaker?.isSome
  have hmine : ∀ {e}, e ∈ mine ↔ e ∈ p.entries ∧ q e.wait = true ∧
      ∃ visit, e.callback.speaker? = some (of e, visit) := by
    intro e
    rw [List.mem_filter, Bool.and_eq_true, Option.isSome_iff_exists]
    refine and_congr_right fun _ => and_congr_right fun _ => ⟨?_, ?_⟩
    · rintro ⟨⟨r, visit⟩, hs⟩
      exact ⟨visit, by simp [of, hs]⟩
    · rintro ⟨visit, hs⟩
      exact ⟨_, hs⟩
  have hinj : ∀ e ∈ mine, ∀ e' ∈ mine, of e = of e' → e = e' := by
    intro e he e' he' hof
    obtain ⟨hmem, -, visit, hs⟩ := hmine.1 he
    obtain ⟨hmem', -, visit', hs'⟩ := hmine.1 he'
    exact h.eq_of_speaker hmem hmem' hs (hof ▸ hs')
  have hnodup : (mine.map of).Nodup :=
    (List.Nodup.filter _ (List.Nodup.of_map _ h.numbered.nodup)).map_on hinj
  have hset : {r | ∃ c ∈ cards r, c.alive = true ∧ c.bus = b ∧
      ∃ cur ∈ c.current, ∃ w, q w = true ∧ c.graph.wait? cur.id = some w ∧
        waits r cur.visit w} = ↑(mine.map of).toFinset := by
    ext r
    simp only [Set.mem_ofPred_eq, List.coe_toFinset, List.mem_map]
    constructor
    · rintro ⟨c, hc, -, hb, cur, hcur, w, hq, -, hw⟩
      obtain ⟨e, he, rfl, hs⟩ := h.found r c hc hb cur hcur w hw
      have hof : of e = r := by simp [of, hs]
      exact ⟨e, hmine.2 ⟨he, hq, cur.visit, hof ▸ hs⟩, hof⟩
    · rintro ⟨e, he, rfl⟩
      obtain ⟨hmem, hq, visit, hs⟩ := hmine.1 he
      obtain ⟨hw, c, hc, hb, id, hcur⟩ := h.owned e hmem _ _ hs
      exact ⟨c, hc, (h.living _ c hc _ hcur).1, hb, _, hcur, e.wait, hq,
        h.suits _ c hc _ hcur _ hw, hw⟩
  rw [hset, Set.ncard_coe_finset, List.toFinset_card_of_nodup hnodup, List.length_map]

end Ledger

end StoryGraph
