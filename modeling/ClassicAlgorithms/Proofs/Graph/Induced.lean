import ClassicAlgorithms.Proofs.Graph.Excerpt

/-!
# The graph on an interval of nodes

The edges with both endpoints in an interval of nodes, in the order of the whole list and
with the nodes counted from the first one of the interval, are an excerpt of the graph. What
the search does on it is what it does there on the whole, as long as no edge from outside
finds a node of the interval.
-/
namespace ClassicAlgorithms

/-- Both endpoints are among the `size` nodes from `first` on. -/
def Edge.Inside (first size : ℕ) (e : Edge) : Prop :=
  (first ≤ e.tail ∧ e.tail < first + size) ∧ first ≤ e.head ∧ e.head < first + size

instance (first size : ℕ) : DecidablePred (Edge.Inside first size) := fun _ =>
  inferInstanceAs (Decidable (_ ∧ _))

/-- The edge with its endpoints counted from `first` on. -/
def Edge.countedFrom (first : ℕ) (e : Edge) : Edge := ⟨e.tail - first, e.head - first⟩

/-- The edges inside, for a graph of `size` nodes. -/
def inducedEdges (first size : ℕ) (edges : List Edge) : List Edge :=
  (edges.filter fun e => e.Inside first size).map (Edge.countedFrom first)

/-- The number of edges inside that come before position `i`. -/
def inducedPosition (first size : ℕ) (edges : List Edge) (i : ℕ) : ℕ :=
  (edges.take i).countP fun e => e.Inside first size

/-- Every edge inside the interval is an edge of the graph on the interval, and has there the
kind that it has in the whole. -/
def Traversal.KeepsKinds (first size : ℕ) (edges : List Edge) (part t : Traversal) : Prop :=
  ∀ i e, edges[i]? = some e → e.Inside first size → ∃ kind, t.kind? i = some kind ∧
    (inducedEdges first size edges)[inducedPosition first size edges i]? =
      some (e.countedFrom first) ∧
    part.kind? (inducedPosition first size edges i) = some kind

section
variable {α : Type} {p : α → Bool} {l : List α} {i j : ℕ} {a : α}

/-- What is selected stands behind what is selected before it. -/
theorem getElem?_filter_eq_some_iff :
    (l.filter p)[j]? = some a ↔ ∃ i, l[i]? = some a ∧ p a ∧ (l.take i).countP p = j := by
  induction l generalizing j with
  | nil => simp
  | cons x rest ih =>
    rw [← Nat.or_exists_add_one]
    simp only [List.getElem?_cons_zero, List.getElem?_cons_succ, List.take_zero,
      List.take_succ_cons, List.countP_nil, List.countP_cons]
    by_cases hx : p x
    · simp only [List.filter_cons_of_pos hx, if_pos hx]
      cases j with
      | zero =>
        simp only [List.getElem?_cons_zero, Option.some.injEq, Nat.succ_ne_zero, and_false,
          exists_false, or_false, and_true]
        exact (and_iff_left_of_imp fun heq => heq ▸ hx).symm
      | succ j => simp [ih]
    · simp only [List.filter_cons_of_neg hx, if_neg hx, ih, Option.some.injEq, Nat.add_zero]
      refine (or_iff_right ?_).symm
      rintro ⟨rfl, hp, -⟩
      exact hx hp

theorem countP_take_lt (ha : l[i]? = some a) (hp : p a) (hlt : i < j) :
    (l.take i).countP p < (l.take j).countP p := by
  have hsucc : (l.take (i + 1)).countP p = (l.take i).countP p + 1 := by
    rw [List.take_add_one, ha, List.countP_append]
    simp [hp]
  have hle : (l.take (i + 1)).countP p ≤ (l.take j).countP p :=
    (List.take_sublist_take_left hlt).countP_le
  omega

end

/-- The new name of a node of the interval. -/
def nodeInside (first size v : ℕ) : Option ℕ :=
  if first ≤ v ∧ v < first + size then some (v - first) else none

section
variable {first size n v w : ℕ} {e d : Edge}

theorem nodeInside_eq_some_iff : nodeInside first size v = some w ↔ w < size ∧ v = w + first := by
  unfold nodeInside
  split_ifs with h
  · rw [Option.some.injEq]
    omega
  · simp only [false_iff]
    omega

theorem nodeInside_eq_none_iff : nodeInside first size v = none ↔ v < first ∨ first + size ≤ v := by
  unfold nodeInside
  split_ifs with h
  · simp only [false_iff]
    omega
  · simp only [true_iff]
    omega

theorem nodeInside_inj (u v w : ℕ) (hu : nodeInside first size u = some w)
    (hv : nodeInside first size v = some w) : u = v :=
  (nodeInside_eq_some_iff.mp hu).2.trans (nodeInside_eq_some_iff.mp hv).2.symm

theorem filterMap_nodeInside_range (h : first + size ≤ n) :
    (List.range n).filterMap (nodeInside first size) = List.range size := by
  obtain ⟨rest, rfl⟩ := Nat.exists_eq_add_of_le h
  have hbefore : (List.range first).filterMap (nodeInside first size) = [] := by
    rw [List.filterMap_eq_nil_iff]
    intro v hv
    exact nodeInside_eq_none_iff.mpr (Or.inl (List.mem_range.mp hv))
  have hinside : ((List.range size).map (first + ·)).filterMap (nodeInside first size) =
      List.range size := by
    rw [List.filterMap_map, List.filterMap_congr (g := some), List.filterMap_some]
    intro v hv
    exact nodeInside_eq_some_iff.mpr ⟨List.mem_range.mp hv, Nat.add_comm first v⟩
  have hafter : ((List.range rest).map (first + size + ·)).filterMap (nodeInside first size) =
      [] := by
    rw [List.filterMap_map, List.filterMap_eq_nil_iff]
    intro v _
    exact nodeInside_eq_none_iff.mpr (Or.inr (Nat.le_add_right _ v))
  rw [List.range_add, List.range_add, List.filterMap_append, List.filterMap_append, hbefore,
    hinside, hafter, List.nil_append, List.append_nil]

/-- Back to the old names. -/
theorem map_add_filterMap_nodeInside {l : List ℕ} (hl : ∀ v ∈ l, first ≤ v ∧ v < first + size) :
    (l.filterMap (nodeInside first size)).map (· + first) = l := by
  rw [List.map_filterMap, List.filterMap_congr (g := some), List.filterMap_some]
  intro v hv
  simp [nodeInside, hl v hv]

theorem filterMap_nodeInside_eq_nil {l : List ℕ} (hl : ∀ v ∈ l, v < first ∨ first + size ≤ v) :
    l.filterMap (nodeInside first size) = [] :=
  List.filterMap_eq_nil_iff.mpr fun v hv => nodeInside_eq_none_iff.mpr (hl v hv)

/-- Nodes counted from `first`, edges counted among those inside. -/
def induced (first size : ℕ) (edges : List Edge) : Renaming where
  node := nodeInside first size
  position i := some (inducedPosition first size edges i)

variable {edges : List Edge} {i j : ℕ}

@[simp] theorem induced_node : (induced first size edges).node = nodeInside first size := rfl

theorem induced_position :
    (induced first size edges).position i = some (inducedPosition first size edges i) := rfl

theorem induced_edge_eq_some_iff :
    (induced first size edges).edge e = some d ↔ e.Inside first size ∧ d = e.countedFrom first := by
  rw [Renaming.edge_eq_some_iff]
  obtain ⟨tail, head⟩ := d
  simp only [induced_node, nodeInside_eq_some_iff, Edge.Inside, Edge.countedFrom, Edge.mk.injEq]
  omega

theorem induced_edge_of_inside (edges : List Edge) (hin : e.Inside first size) :
    (induced first size edges).edge e = some (e.countedFrom first) :=
  induced_edge_eq_some_iff.mpr ⟨hin, rfl⟩

theorem getElem?_inducedEdges_eq_some_iff :
    (inducedEdges first size edges)[j]? = some d ↔
      ∃ i e, edges[i]? = some e ∧ (induced first size edges).position i = some j ∧
        (induced first size edges).edge e = some d := by
  simp only [induced_edge_eq_some_iff, induced_position, inducedPosition, inducedEdges,
    List.getElem?_map, Option.map_eq_some_iff, getElem?_filter_eq_some_iff, decide_eq_true_eq,
    Option.some.injEq]
  constructor
  · rintro ⟨e, ⟨i, he, hin, hj⟩, hd⟩
    exact ⟨i, e, he, hj, hin, hd.symm⟩
  · rintro ⟨i, e, he, hj, hin, rfl⟩
    exact ⟨e, ⟨i, he, hin, hj⟩, rfl⟩

theorem inducedPosition_lt (he : edges[i]? = some e) (hin : e.Inside first size) (hlt : i < j) :
    inducedPosition first size edges i < inducedPosition first size edges j :=
  countP_take_lt he (decide_eq_true hin) hlt

theorem Excerpt.induced {g g' : Digraph} (hnodes : first + size ≤ g.nodeCount)
    (hcount : g'.nodeCount = size) (hedges : g.edges.toList = edges)
    (hedges' : g'.edges.toList = inducedEdges first size edges) :
    Excerpt (induced first size edges) g g' where
  node_inj := nodeInside_inj
  nodes_eq := by
    rw [hcount]
    exact filterMap_nodeInside_range hnodes
  edge_iff j d := by
    simp only [← Array.getElem?_toList, hedges, hedges']
    exact getElem?_inducedEdges_eq_some_iff
  ordered i i' e e' he _ _ hlt j j' d _ hj hd hj' _ := by
    cases hj
    cases hj'
    rw [← Array.getElem?_toList, hedges] at he
    exact inducedPosition_lt he (induced_edge_eq_some_iff.mp hd).1 hlt

/-- The edges inside make a graph on an interval of nodes. -/
theorem Digraph.exists_build_induced [Memory] {g : Digraph} (h : Digraph.build n edges = .ok g)
    (hpos : 0 < size) (hnodes : first + size ≤ n) :
    ∃ g', Digraph.build size (inducedEdges first size edges) = .ok g' := by
  obtain ⟨-, hrows, -⟩ := Digraph.exists_build_iff.mp ⟨g, h⟩
  have hsize : size ≤ n := by omega
  refine Digraph.exists_build_iff.mpr ⟨hpos, hrows.mono hsize le_rfl, fun d hd => ?_⟩
  obtain ⟨e, he, rfl⟩ := List.mem_map.mp hd
  obtain ⟨htail, hhead⟩ := of_decide_eq_true (List.mem_filter.mp he).2
  simp only [Edge.countedFrom]
  omega

/-- The interval keeps what found its nodes as long as the tails lie in it, too. -/
theorem Forest.kept_induced {F : Forest}
    (htail : ∀ i e, Arc.along i e ∈ F.grown → first ≤ e.head → e.head < first + size →
      first ≤ e.tail ∧ e.tail < first + size) : F.Kept (induced first size edges) := by
  intro a ha hhead
  obtain ⟨w, hw⟩ := Option.isSome_iff_exists.mp hhead
  have hin := nodeInside_eq_some_iff.mp hw
  cases a with
  | seed v => simpa [Renaming.arc, Arc.head] using hhead
  | along i e =>
    obtain ⟨hle, hlt⟩ : first ≤ e.head ∧ e.head < first + size := by
      simp only [Arc.head] at hin
      omega
    have hedge := induced_edge_of_inside edges ⟨htail i e ha hle hlt, hle, hlt⟩
    rw [Renaming.arc_eq_along induced_position hedge]
    rfl

namespace Spans

variable {g g' : Digraph} {F F' : Forest}

/-- The kinds are kept with what found the nodes. -/
theorem keepsKinds (h : Spans g F) (hg : g.Sound) (h' : Spans g' F') (hg' : g'.Sound)
    (hedges : g.edges.toList = edges) (hr : Excerpt (induced first size edges) g g')
    (hmirrors : F.Mirrors (induced first size edges) F') :
    (traversal g' F').KeepsKinds first size edges (traversal g F) := by
  intro i e he hin
  have hedge := induced_edge_of_inside edges hin
  have hplace := getElem?_inducedEdges_eq_some_iff.mpr ⟨i, e, he, induced_position, hedge⟩
  rw [← hedges, Array.getElem?_toList] at he
  obtain ⟨kind, hkind, -⟩ := h.exists_kind hg he
  have hsame := h.kind?_excerpt hg h' hg' hr hmirrors he induced_position hedge
  exact ⟨kind, hkind, hplace, hsame.trans hkind⟩

/-- The search on an interval of nodes does what the whole search does there, if that has found
the nodes of the interval from seeds and from inside. -/
theorem exists_induced [Memory] (h : Spans g F) (hbuild : Digraph.build n edges = .ok g)
    (hpos : 0 < size) (hnodes : first + size ≤ n) (hkept : F.Kept (induced first size edges)) :
    ∃ g' F', Digraph.build size (inducedEdges first size edges) = .ok g' ∧ Spans g' F' ∧
      g'.Sound ∧ g'.nodeCount = size ∧ F.Mirrors (induced first size edges) F' ∧
      (traversal g' F').KeepsKinds first size edges (traversal g F) := by
  obtain ⟨hg, hcount, hedges, -⟩ := Digraph.sound_of_build hbuild
  obtain ⟨g', hbuild'⟩ := Digraph.exists_build_induced hbuild hpos hnodes
  obtain ⟨hg', hcount', hedges', -⟩ := Digraph.sound_of_build hbuild'
  have hr := Excerpt.induced (hcount.symm ▸ hnodes) hcount' hedges hedges'
  have hF' := h.excerpt hr hkept
  have hmirrors := hkept.mirrors_filterMap
  exact ⟨g', _, hbuild', hF', hg', hcount', hmirrors,
    h.keepsKinds hg hF' hg' hedges hr hmirrors⟩

end Spans

end

end ClassicAlgorithms
