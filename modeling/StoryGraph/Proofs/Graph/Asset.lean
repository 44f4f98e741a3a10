import StoryGraph.Graph.Asset
import StoryGraph.Proofs.Graph.Names
import StoryGraph.Proofs.Json.Value

/-!
# Assets that are written

A graph is read as it was written exactly if it is portable. An asset that was read is, but for one
thing: a coordinate may have been too large for its format, so that it is infinite now and has no
numeral.
-/

namespace StoryGraph

open Json (Tree Value)

/-! ### Fields -/

namespace Json.Tree

variable {α : Type} {members fields : List (String × Tree)} {name : String} {t : Tree}

theorem named?_map (members : List (String × Tree)) :
    named? (members.map fun m => (some m.1, m.2)) = some members :=
  mapM_map_eq_some_iff.2 fun _ _ => rfl

theorem field?_append (hfield : fields.filter (fun m => m.1 = name) = [(name, t)]) :
    field? (fields ++ members) name =
      if ∃ m ∈ members, m.1 = name then none else some (some t) := by
  rw [field?, List.filter_append, hfield]
  split_ifs with h
  · obtain ⟨m, hm, hname⟩ := h
    have hmem : m ∈ members.filter fun m => m.1 = name :=
      List.mem_filter.2 ⟨hm, decide_eq_true hname⟩
    obtain ⟨a, rest, hrest⟩ := List.exists_cons_of_ne_nil (List.ne_nil_of_mem hmem)
    rw [hrest]
    rfl
  · have hnil : members.filter (fun m => m.1 = name) = [] := by
      rw [List.filter_eq_nil_iff]
      exact fun m hm hname => h ⟨m, hm, of_decide_eq_true hname⟩
    rw [hnil]
    rfl

theorem required?_append {read? : Tree → Option α}
    (hfield : fields.filter (fun m => m.1 = name) = [(name, t)]) {a : α} :
    required? (fields ++ members) name read? = some a ↔
      (¬∃ m ∈ members, m.1 = name) ∧ read? t = some a := by
  rw [required?, field?_append hfield]
  split_ifs with h
  · simp [h]
  · simp [h]

theorem optional?_append {read? : Tree → Option α} {missing : α}
    (hfield : fields.filter (fun m => m.1 = name) = [(name, t)]) {a : α} :
    optional? (fields ++ members) name read? missing = some a ↔
      (¬∃ m ∈ members, m.1 = name) ∧ read? t = some a := by
  rw [optional?, field?_append hfield]
  split_ifs with h
  · simp [h]
  · simp [h]

/-- A field that may be left out was read, or it was left out. -/
theorem optional?_cases {read? : Tree → Option α} {missing a : α}
    (h : optional? members name read? missing = some a) : missing = a ∨ ∃ t, read? t = some a := by
  obtain ⟨field, -, h⟩ := Option.bind_eq_some_iff.1 h
  cases field with
  | none => exact .inl (Option.some.inj h)
  | some t => exact .inr ⟨t, h⟩

end Json.Tree

/-! ### Positions and slots -/

namespace Position

def IsFinite (p : Position) : Prop := p.x.isFinite = true ∧ p.y.isFinite = true

def CoordinateReadsBack (x : Single) : Prop :=
  x.isFinite = true → coordinate? (coordinateTree x) = some x

structure ReadsBack (p : Position) : Prop where
  x : CoordinateReadsBack p.x
  y : CoordinateReadsBack p.y

theorem isFinite_of_ofTree? {p q : Position} (h : ofTree? p.toTree = some q) : p.IsFinite := by
  have hx : ∃ x, coordinate? (coordinateTree p.x) = some x := by
    obtain ⟨x, hx, -⟩ := Option.bind_eq_some_iff.1 h
    exact ⟨x, hx⟩
  have hy : ∃ y, coordinate? (coordinateTree p.y) = some y := by
    obtain ⟨_, -, h⟩ := Option.bind_eq_some_iff.1 h
    obtain ⟨y, hy, -⟩ := Option.bind_eq_some_iff.1 h
    exact ⟨y, hy⟩
  have hread : ∀ {z : Single}, (∃ w, coordinate? (coordinateTree z) = some w) →
      z.isFinite = true := by
    rintro z ⟨w, hz⟩
    by_contra hinfinite
    rw [coordinateTree, if_neg hinfinite] at hz
    cases hz
  exact ⟨hread hx, hread hy⟩

theorem ofTree?_toTree_iff {p : Position} (hp : p.ReadsBack) :
    ofTree? p.toTree = some p ↔ p.IsFinite := by
  refine ⟨isFinite_of_ofTree?, fun h => ?_⟩
  refine Option.bind_eq_some_iff.2 ⟨p.x, hp.x h.1, ?_⟩
  exact Option.bind_eq_some_iff.2 ⟨p.y, hp.y h.2, rfl⟩

theorem wellFormed_coordinateTree (x : Single) : (coordinateTree x).WellFormed := by
  rw [coordinateTree]
  split_ifs
  · exact .number (Layout.wellFormed_numeral layout x)
  · exact .null

theorem wellFormed_toTree (p : Position) : p.toTree.WellFormed := by
  rw [toTree]
  refine .object (by simp) ?_
  simp only [List.forall_mem_cons, List.not_mem_nil, false_implies, implies_true, and_true]
  exact ⟨wellFormed_coordinateTree p.x, wellFormed_coordinateTree p.y⟩

end Position

namespace NodeId

theorem slot?_slotTree_iff {slot : Option NodeId} :
    slot? (slotTree slot) = some slot ↔ slot ≠ some ⟨""⟩ := by
  cases slot with
  | none => simp [slotTree, Tree.text, slot?]
  | some id =>
      obtain ⟨s⟩ := id
      by_cases hs : s = "" <;> simp [slotTree, Tree.text, slot?, hs]

theorem slot?_ne {t : Tree} {slot : Option NodeId} (h : slot? t = some slot) :
    slot ≠ some ⟨""⟩ := by
  rintro rfl
  unfold slot? at h
  split at h
  · cases h
  · split_ifs at h with hs
    · cases h
    · exact hs (congrArg NodeId.text (Option.some.inj (Option.some.inj h)))
  · cases h

theorem slots?_ne {t : Tree} {slots : List (Option NodeId)} (h : slots? t = some slots) :
    some ⟨""⟩ ∉ slots := by
  intro hmem
  unfold slots? at h
  split at h
  · obtain ⟨_, -, hread⟩ := exists_of_mapM h hmem
    exact slot?_ne hread rfl
  · cases h

theorem wellFormed_slotTree (slot : Option NodeId) : (slotTree slot).WellFormed := .text _

end NodeId

/-! ### Nodes -/

namespace Node

structure ReadsBack (n : Node) : Prop where
  position : n.position.ReadsBack
  properties : ∀ m ∈ n.properties.toList, m.2.ReadsBack

/-- A node that a reader can answer with, apart from its place: no slot holds the empty name, no
property is named like a field, and the properties are values that are read. -/
structure Plain (depth : Nat) (n : Node) : Prop where
  outputs : some ⟨""⟩ ∉ n.outputs
  names : ∀ m ∈ n.properties.toList, m.1 ∉ fieldNames
  fits : ∀ m ∈ n.properties.toList, m.2.Fits depth

variable {n : Node} {depth : Nat}

def properties? (depth : Nat) (members : List (String × Tree)) : Option (List (String × Value)) :=
  (members.filter fun m => m.1 ∉ fieldNames).mapM fun m => (Value.ofTree? depth m.2).map (m.1, ·)

/-- What it takes to read a node. -/
theorem ofTree?_object_iff {members : List (Option String × Tree)} :
    ofTree? depth (.object members) = some n ↔
      ∃ named, Tree.named? members = some named ∧
        Tree.required? named "typeTag" Tree.text? = some n.kind ∧
        Tree.required? named "id" Tree.text? = some n.id.text ∧
        Tree.optional? named "displayTitle" Tree.text? "" = some n.title ∧
        Tree.optional? named "position" Position.ofTree? .origin = some n.position ∧
        Tree.optional? named "outputs" NodeId.slots? [] = some n.outputs ∧
        ∃ properties, properties? depth named = some properties ∧
          n.properties = .ofList properties := by
  have hproperties : ∀ named : List (String × Tree), properties? depth named =
      (named.filter fun m => m.1 ∉ fieldNames).mapM fun m => do
        return (m.1, ← Value.ofTree? depth m.2) := by
    intro named
    simp only [properties?, Option.map_eq_bind]
    rfl
  constructor
  · intro h
    obtain ⟨named, hnamed, h⟩ := Option.bind_eq_some_iff.1 h
    obtain ⟨kind, hkind, h⟩ := Option.bind_eq_some_iff.1 h
    obtain ⟨id, hid, h⟩ := Option.bind_eq_some_iff.1 h
    obtain ⟨title, htitle, h⟩ := Option.bind_eq_some_iff.1 h
    obtain ⟨position, hposition, h⟩ := Option.bind_eq_some_iff.1 h
    obtain ⟨outputs, houtputs, h⟩ := Option.bind_eq_some_iff.1 h
    obtain ⟨properties, hread, h⟩ := Option.bind_eq_some_iff.1 h
    obtain rfl := Option.some.inj h
    exact ⟨named, hnamed, hkind, hid, htitle, hposition, houtputs, properties,
      (hproperties named).trans hread, rfl⟩
  · rintro ⟨named, hnamed, hkind, hid, htitle, hposition, houtputs, properties, hread, heq⟩
    refine Option.bind_eq_some_iff.2 ⟨named, hnamed, ?_⟩
    refine Option.bind_eq_some_iff.2 ⟨n.kind, hkind, ?_⟩
    refine Option.bind_eq_some_iff.2 ⟨n.id.text, hid, ?_⟩
    refine Option.bind_eq_some_iff.2 ⟨n.title, htitle, ?_⟩
    refine Option.bind_eq_some_iff.2 ⟨n.position, hposition, ?_⟩
    refine Option.bind_eq_some_iff.2 ⟨n.outputs, houtputs, ?_⟩
    refine Option.bind_eq_some_iff.2 ⟨properties, (hproperties named).symm.trans hread, ?_⟩
    rw [← heq]
    rfl

def fieldTrees (n : Node) : List (String × Tree) :=
  [("typeTag", .text n.kind), ("id", .text n.id.text), ("displayTitle", .text n.title),
    ("position", n.position.toTree), ("outputs", .array (n.outputs.map NodeId.slotTree))]

def propertyTrees (n : Node) : List (String × Tree) :=
  n.properties.toList.map fun m => (m.1, m.2.toTree)

theorem toTree_eq (n : Node) :
    n.toTree = .object ((n.fieldTrees ++ n.propertyTrees).map fun m => (some m.1, m.2)) := by
  simp [toTree, fieldTrees, propertyTrees]

theorem exists_propertyTrees_iff {name : String} :
    (∃ m ∈ n.propertyTrees, m.1 = name) ↔ ∃ m ∈ n.properties.toList, m.1 = name := by
  simp [propertyTrees]

theorem properties?_toTree (hnames : ∀ m ∈ n.properties.toList, m.1 ∉ fieldNames) :
    properties? depth (n.fieldTrees ++ n.propertyTrees) =
      n.propertyTrees.mapM fun m => (Value.ofTree? depth m.2).map (m.1, ·) := by
  have hfields : (n.fieldTrees.filter fun m => m.1 ∉ fieldNames) = [] := by
    simp [fieldTrees, fieldNames]
  have hproperties : (n.propertyTrees.filter fun m => m.1 ∉ fieldNames) = n.propertyTrees := by
    rw [List.filter_eq_self, propertyTrees, List.forall_mem_map]
    exact fun m hm => decide_eq_true (hnames m hm)
  rw [properties?, List.filter_append, hfields, hproperties, List.nil_append]

/-- Properties that are read under their own names are those that were written. -/
theorem mapM_propertyTrees_iff (hn : n.ReadsBack) :
    (∃ properties, (n.propertyTrees.mapM fun m => (Value.ofTree? depth m.2).map (m.1, ·)) =
        some properties ∧ n.properties = .ofList properties) ↔
      ∀ m ∈ n.properties.toList, m.2.Fits depth := by
  have hmember : ∀ m ∈ n.properties.toList,
      ((Value.ofTree? depth m.2.toTree).map (m.1, ·) = some m ↔ m.2.Fits depth) := by
    rintro ⟨name, v⟩ hm
    rw [← (hn.properties _ hm).ofTree?_toTree_iff, Option.map_eq_some_iff]
    simp
  constructor
  · rintro ⟨properties, h, htable⟩ m hm
    have hread := List.forall₂_map_left_iff.1 (mapM_eq_some_iff.1 h)
    have hnames : properties.map Prod.fst = n.properties.toList.map Prod.fst := by
      rw [← List.forall₂_eq_eq_eq, List.forall₂_map_left_iff, List.forall₂_map_right_iff]
      refine (hread.imp fun m r hr => ?_).flip
      obtain ⟨v, -, rfl⟩ := Option.map_eq_some_iff.1 hr
      rfl
    have hsame : n.properties.toList = properties := by
      rw [htable, Table.toList_ofList]
      exact foldl_upsert_eq (a := []) (ascending_of_names hnames n.properties.ascending)
    rw [← hsame, List.forall₂_same] at hread
    exact (hmember m hm).1 (hread m hm)
  · intro hfits
    refine ⟨n.properties.toList, ?_, (Table.ofList_toList n.properties).symm⟩
    rw [propertyTrees, mapM_map_eq_some_iff]
    exact fun m hm => (hmember m hm).2 (hfits m hm)

theorem mapM_slotTree_iff {outputs : List (Option NodeId)} :
    NodeId.slots? (.array (outputs.map NodeId.slotTree)) = some outputs ↔ some ⟨""⟩ ∉ outputs := by
  rw [NodeId.slots?, mapM_map_eq_some_iff]
  simp only [NodeId.slot?_slotTree_iff]
  exact ⟨fun h hmem => h _ hmem rfl, fun h slot hslot heq => h (heq ▸ hslot)⟩

/-- A node is read as it was written exactly if it is plain and its place is finite. -/
theorem ReadsBack.ofTree?_toTree_iff (hn : n.ReadsBack) :
    ofTree? depth n.toTree = some n ↔ n.position.IsFinite ∧ n.Plain depth := by
  have hclash : (∀ name ∈ fieldNames, ¬∃ m ∈ n.properties.toList, m.1 = name) ↔
      ∀ m ∈ n.properties.toList, m.1 ∉ fieldNames :=
    ⟨fun h m hm hname => h _ hname ⟨m, hm, rfl⟩, fun h name hname ⟨m, hm, heq⟩ =>
      h m hm (heq ▸ hname)⟩
  rw [toTree_eq, ofTree?_object_iff]
  simp only [Tree.named?_map, Option.some.injEq, exists_eq_left']
  rw [Tree.required?_append (t := .text n.kind) (by simp [fieldTrees]),
    Tree.required?_append (t := .text n.id.text) (by simp [fieldTrees]),
    Tree.optional?_append (t := .text n.title) (by simp [fieldTrees]),
    Tree.optional?_append (t := n.position.toTree) (by simp [fieldTrees]),
    Tree.optional?_append (t := .array (n.outputs.map NodeId.slotTree)) (by simp [fieldTrees]),
    Position.ofTree?_toTree_iff hn.position, mapM_slotTree_iff]
  simp only [exists_propertyTrees_iff]
  simp only [fieldNames, List.forall_mem_cons, List.not_mem_nil, false_implies, implies_true,
    and_true] at hclash
  constructor
  · rintro ⟨⟨hkind, -⟩, ⟨hid, -⟩, ⟨htitle, -⟩, ⟨hposition, hfinite⟩, ⟨hslots, houtputs⟩, hread⟩
    have hnames := hclash.1 ⟨hkind, hid, htitle, hposition, hslots⟩
    rw [properties?_toTree hnames, mapM_propertyTrees_iff hn] at hread
    exact ⟨hfinite, houtputs, hnames, hread⟩
  · rintro ⟨hfinite, houtputs, hnames, hfits⟩
    obtain ⟨hkind, hid, htitle, hposition, hslots⟩ := hclash.2 hnames
    refine ⟨⟨hkind, rfl⟩, ⟨hid, rfl⟩, ⟨htitle, rfl⟩, ⟨hposition, hfinite⟩, ⟨hslots, houtputs⟩, ?_⟩
    rw [properties?_toTree hnames, mapM_propertyTrees_iff hn]
    exact hfits

/-- A node whose place is not finite is not read at all. -/
theorem isFinite_of_ofTree? {n' : Node} (h : ofTree? depth n.toTree = some n') :
    n.position.IsFinite := by
  rw [toTree_eq, ofTree?_object_iff] at h
  obtain ⟨named, hnamed, -, -, -, hposition, -⟩ := h
  rw [Tree.named?_map] at hnamed
  obtain rfl := Option.some.inj hnamed
  rw [Tree.optional?_append (t := n.position.toTree) (by simp [fieldTrees])] at hposition
  exact Position.isFinite_of_ofTree? hposition.2

theorem plain_of_ofTree? {t : Tree} (h : ofTree? depth t = some n) : n.Plain depth := by
  unfold ofTree? at h
  split at h
  case h_2 => cases h
  obtain ⟨named, -, -, -, -, -, houtputs, properties, hread, heq⟩ := ofTree?_object_iff.1 h
  have hmember : ∀ m ∈ n.properties.toList, m.1 ∉ fieldNames ∧ m.2.Fits depth := by
    intro m hm
    rw [heq, Table.toList_ofList] at hm
    have hmem := (mem_foldl_upsert hm).resolve_left List.not_mem_nil
    obtain ⟨m', hm', hmap⟩ := exists_of_mapM hread hmem
    obtain ⟨v, hv, rfl⟩ := Option.map_eq_some_iff.1 hmap
    exact ⟨of_decide_eq_true (List.mem_filter.1 hm').2, Value.fits_of_ofTree? hv⟩
  refine ⟨?_, fun m hm => (hmember m hm).1, fun m hm => (hmember m hm).2⟩
  rcases Tree.optional?_cases houtputs with hmissing | ⟨t, ht⟩
  · rw [← hmissing]
    exact List.not_mem_nil
  · exact NodeId.slots?_ne ht

theorem ReadsBack.wellFormed_toTree (hn : n.ReadsBack) : n.toTree.WellFormed := by
  rw [toTree_eq]
  refine .object (List.forall_mem_map.2 fun _ _ => rfl) (List.forall_mem_map.2 ?_)
  intro m hm
  rcases List.mem_append.1 hm with hm | hm
  · simp only [fieldTrees, List.mem_cons, List.not_mem_nil, or_false] at hm
    rcases hm with rfl | rfl | rfl | rfl | rfl
    · exact .text _
    · exact .text _
    · exact .text _
    · exact n.position.wellFormed_toTree
    · exact .array (List.forall_mem_map.2 fun slot _ => NodeId.wellFormed_slotTree slot)
  · obtain ⟨property, hproperty, rfl⟩ := List.mem_map.1 hm
    exact (hn.properties property hproperty).wellFormed_toTree

end Node

/-! ### Graphs -/

namespace Graph

def ReadsBack (g : Graph) : Prop := ∀ n ∈ g.nodes, n.ReadsBack

def IsFinite (g : Graph) : Prop := ∀ n ∈ g.nodes, n.position.IsFinite

structure Plain (g : Graph) : Prop where
  unique : g.Unique
  start : g.start ≠ some ⟨""⟩
  nodes : ∀ n ∈ g.nodes, n.Plain (Json.depthLimit - 3)

variable {g : Graph}

theorem ReadsBack.wellFormed_toTree (hg : g.ReadsBack) : g.toTree.WellFormed := by
  refine .object (by simp) ?_
  simp only [List.forall_mem_cons, List.not_mem_nil, false_implies, implies_true, and_true]
  exact ⟨NodeId.wellFormed_slotTree g.start,
    .array (List.forall_mem_map.2 fun n hn => (hg n hn).wellFormed_toTree)⟩

theorem read_eq_ok_iff {s : String} : read s = .ok g ↔
    (Tree.read? s >>= ofTree?) = some g ∧ g.Unique := by
  rw [read, unique_iff]
  cases Tree.read? s >>= ofTree? with
  | none => simp
  | some g' =>
      dsimp only
      rw [Option.some.injEq]
      cases hrepeated : repeated [] g'.ids with
      | nil =>
          simp only [List.head?_nil, Except.ok.injEq]
          exact ⟨fun h => ⟨h, h ▸ hrepeated⟩, fun h => h.1⟩
      | cons id ids =>
          simp only [List.head?_cons, reduceCtorEq, false_iff, not_and]
          rintro rfl
          simp [hrepeated]

theorem ofTree?_object_iff {members : List (Option String × Tree)} :
    ofTree? (.object members) = some g ↔ ∃ named, Tree.named? members = some named ∧
      Tree.optional? named "startNodeId" NodeId.slot? none = some g.start ∧
      Tree.optional? named "nodes" nodes? [] = some g.nodes := by
  constructor
  · intro h
    obtain ⟨named, hnamed, h⟩ := Option.bind_eq_some_iff.1 h
    obtain ⟨start, hstart, h⟩ := Option.bind_eq_some_iff.1 h
    obtain ⟨nodes, hnodes, h⟩ := Option.bind_eq_some_iff.1 h
    obtain rfl := Option.some.inj h
    exact ⟨named, hnamed, hstart, hnodes⟩
  · rintro ⟨named, hnamed, hstart, hnodes⟩
    refine Option.bind_eq_some_iff.2 ⟨named, hnamed, ?_⟩
    refine Option.bind_eq_some_iff.2 ⟨g.start, hstart, ?_⟩
    exact Option.bind_eq_some_iff.2 ⟨g.nodes, hnodes, rfl⟩

def fieldTrees (g : Graph) : List (String × Tree) :=
  [("startNodeId", NodeId.slotTree g.start), ("nodes", .array (g.nodes.map Node.toTree))]

theorem toTree_eq (g : Graph) :
    g.toTree = .object ((g.fieldTrees ++ []).map fun m : String × Tree => (some m.1, m.2)) := rfl

theorem ReadsBack.ofTree?_toTree_iff (hg : g.ReadsBack) : ofTree? g.toTree = some g ↔
    g.start ≠ some ⟨""⟩ ∧ ∀ n ∈ g.nodes, n.position.IsFinite ∧ n.Plain (Json.depthLimit - 3) := by
  have hnodes : nodes? (.array (g.nodes.map Node.toTree)) = some g.nodes ↔
      ∀ n ∈ g.nodes, n.position.IsFinite ∧ n.Plain (Json.depthLimit - 3) := by
    rw [nodes?, mapM_map_eq_some_iff]
    exact forall₂_congr fun n hn => (hg n hn).ofTree?_toTree_iff
  rw [toTree_eq, ofTree?_object_iff]
  simp only [Tree.named?_map, Option.some.injEq, exists_eq_left']
  rw [Tree.optional?_append (t := NodeId.slotTree g.start) (by simp [fieldTrees]),
    Tree.optional?_append (t := .array (g.nodes.map Node.toTree)) (by simp [fieldTrees]),
    NodeId.slot?_slotTree_iff, hnodes]
  simp

theorem ReadsBack.read?_write (hg : g.ReadsBack) :
    (Tree.read? g.write >>= ofTree?) = ofTree? g.toTree := by
  rw [write, hg.wellFormed_toTree.read?_pretty]
  rfl

/-- A graph is read as it was written exactly if it is plain and its nodes have a place. -/
theorem ReadsBack.read_write_iff (hg : g.ReadsBack) :
    read g.write = .ok g ↔ g.IsFinite ∧ g.Plain := by
  rw [read_eq_ok_iff, hg.read?_write, hg.ofTree?_toTree_iff]
  constructor
  · rintro ⟨⟨hstart, hnodes⟩, hunique⟩
    exact ⟨fun n hn => (hnodes n hn).1, hunique, hstart, fun n hn => (hnodes n hn).2⟩
  · rintro ⟨hfinite, hunique, hstart, hplain⟩
    exact ⟨⟨hstart, fun n hn => ⟨hfinite n hn, hplain n hn⟩⟩, hunique⟩

theorem ReadsBack.read_write_of_infinite (hg : g.ReadsBack) (h : ¬g.IsFinite) :
    read g.write = .error .json := by
  have hnone : ofTree? g.toTree = none := by
    rw [Option.eq_none_iff_forall_ne_some]
    intro g' hread
    rw [toTree_eq, ofTree?_object_iff] at hread
    obtain ⟨named, hnamed, -, hnodes⟩ := hread
    rw [Tree.named?_map] at hnamed
    obtain rfl := Option.some.inj hnamed
    rw [Tree.optional?_append (t := .array (g.nodes.map Node.toTree)) (by simp [fieldTrees]),
      nodes?, mapM_eq_some_iff, List.forall₂_map_left_iff] at hnodes
    refine h fun n hn => ?_
    obtain ⟨n', -, hn'⟩ := exists_of_forall₂ hnodes.2 hn
    exact Node.isFinite_of_ofTree? hn'
  rw [read, hg.read?_write, hnone]

theorem plain_of_nodes? {t : Tree} {nodes : List Node} (h : nodes? t = some nodes) :
    ∀ n ∈ nodes, n.Plain (Json.depthLimit - 3) := by
  intro n hn
  unfold nodes? at h
  split at h
  · obtain ⟨t, -, ht⟩ := exists_of_mapM h hn
    exact Node.plain_of_ofTree? ht
  · cases h

theorem plain_of_ofTree? {t : Tree} (h : ofTree? t = some g) :
    g.start ≠ some ⟨""⟩ ∧ ∀ n ∈ g.nodes, n.Plain (Json.depthLimit - 3) := by
  unfold ofTree? at h
  split at h
  · obtain ⟨named, -, hstart, hnodes⟩ := ofTree?_object_iff.1 h
    constructor
    · rcases Tree.optional?_cases hstart with hmissing | ⟨t, ht⟩
      · simp [← hmissing]
      · exact NodeId.slot?_ne ht
    · rcases Tree.optional?_cases hnodes with hmissing | ⟨t, ht⟩
      · simp [← hmissing]
      · exact plain_of_nodes? ht
  · obtain rfl := Option.some.inj h
    simp
  · obtain ⟨start, hstart, h⟩ := Option.bind_eq_some_iff.1 h
    obtain rfl := Option.some.inj h
    exact ⟨NodeId.slot?_ne hstart, by simp⟩
  · obtain ⟨start, hstart, h⟩ := Option.bind_eq_some_iff.1 h
    obtain ⟨nodes, hnodes, h⟩ := Option.bind_eq_some_iff.1 h
    obtain rfl := Option.some.inj h
    exact ⟨NodeId.slot?_ne hstart, plain_of_nodes? hnodes⟩
  · cases h

/-- A graph that was read is plain. -/
theorem plain_of_read {s : String} (h : read s = .ok g) : g.Plain := by
  obtain ⟨hread, hunique⟩ := read_eq_ok_iff.1 h
  obtain ⟨t, -, ht⟩ := Option.bind_eq_some_iff.1 hread
  obtain ⟨hstart, hnodes⟩ := plain_of_ofTree? ht
  exact ⟨hunique, hstart, hnodes⟩

end Graph

end StoryGraph
