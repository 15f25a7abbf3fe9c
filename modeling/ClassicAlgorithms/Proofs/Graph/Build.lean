import ClassicAlgorithms.Graph.Basic
import Mathlib.Data.List.Nodup
import Mathlib.Data.List.Range

/-!
# Graphs that come out of `build`

A built graph has its edges in input order, with both endpoints in range, and
lists for each node the positions of the edges that leave it, in order. Every
statement about a traversal starts from these facts and not from the way in
which the lists were filled.
-/
namespace ClassicAlgorithms

theorem bind_eq_ok_iff {ε α β : Type} {x : Except ε α} {f : α → Except ε β} {b : β} :
    x >>= f = .ok b ↔ ∃ a, x = .ok a ∧ f a = .ok b := by
  cases x with
  | error e => simp [bind, Except.bind]
  | ok a => simp [bind, Except.bind]

theorem map_eq_ok_iff {ε α β : Type} {x : Except ε α} {f : α → β} {b : β} :
    f <$> x = .ok b ↔ ∃ a, x = .ok a ∧ f a = b := by
  cases x with
  | error e => simp [Functor.map, Except.map]
  | ok a => simp [Functor.map, Except.map]

/-- Both endpoints of the edge are among the first `n` nodes. -/
def Edge.Within (e : Edge) (n : ℕ) : Prop := e.tail < n ∧ e.head < n

instance (e : Edge) (n : ℕ) : Decidable (e.Within n) :=
  inferInstanceAs (Decidable (e.tail < n ∧ e.head < n))

/-- The edges that leave `node`, each with its position, in input order. -/
def leaving (edges : List Edge) (node : ℕ) : List (Edge × ℕ) :=
  edges.zipIdx.filter fun p => p.1.tail = node

theorem mem_leaving {edges : List Edge} {node : ℕ} {p : Edge × ℕ} :
    p ∈ leaving edges node ↔ edges[p.2]? = some p.1 ∧ p.1.tail = node := by
  simp [leaving, List.mem_zipIdx_iff_getElem?]

/-- Positions increase along the list of a node. -/
theorem leaving_pairwise (edges : List Edge) (node : ℕ) :
    (leaving edges node).Pairwise fun p q => p.2 < q.2 := by
  have hpositions : edges.zipIdx.Pairwise fun p q => p.2 < q.2 := by
    rw [← List.pairwise_map (f := Prod.snd) (R := (· < ·))]
    simpa using List.pairwise_lt_range'
  exact hpositions.filter _

theorem leaving_positions_nodup (edges : List Edge) (node : ℕ) :
    ((leaving edges node).map Prod.snd).Nodup :=
  List.pairwise_map.mpr ((leaving_pairwise edges node).imp Nat.ne_of_lt)

/-- The positions that leave some nodes are those of the edges with a tail among them. -/
theorem mem_flatMap_leaving {edges : List Edge} {nodes : List ℕ} {i : ℕ} :
    i ∈ nodes.flatMap (fun v => (leaving edges v).map Prod.snd) ↔
      ∃ e, edges[i]? = some e ∧ e.tail ∈ nodes := by
  simp only [List.mem_flatMap, List.mem_map, mem_leaving, Prod.exists]
  constructor
  · rintro ⟨v, hv, e, j, ⟨he, rfl⟩, rfl⟩
    exact ⟨e, he, hv⟩
  · rintro ⟨e, he, hv⟩
    exact ⟨e.tail, hv, e, i, ⟨he, rfl⟩, rfl⟩

/-- No position leaves two nodes. -/
theorem nodup_flatMap_leaving (edges : List Edge) {nodes : List ℕ} (h : nodes.Nodup) :
    (nodes.flatMap fun v => (leaving edges v).map Prod.snd).Nodup := by
  rw [List.nodup_flatMap]
  refine ⟨fun v _ => leaving_positions_nodup _ v, h.imp ?_⟩
  intro v w hne i hv hw
  simp only [List.mem_map, mem_leaving] at hv hw
  obtain ⟨⟨e, i⟩, ⟨he, hev⟩, rfl⟩ := hv
  obtain ⟨⟨d, j⟩, ⟨hd, hdw⟩, hij⟩ := hw
  simp_all

theorem leaving_append_singleton (edges : List Edge) (e : Edge) (node : ℕ) :
    leaving (edges ++ [e]) node =
      leaving edges node ++ if e.tail = node then [(e, edges.length)] else [] := by
  by_cases h : e.tail = node <;> simp [leaving, List.zipIdx_append, h]

namespace Digraph

/-- What holds of every graph that `build` returns. -/
structure Sound (g : Digraph) : Prop where
  nodes_pos : 0 < g.nodeCount
  tail_lt : ∀ e ∈ g.edges.toList, e.tail < g.nodeCount
  head_lt : ∀ e ∈ g.edges.toList, e.head < g.nodeCount
  outgoing_eq : ∀ node, g.outgoing node = (leaving g.edges.toList node).map Prod.snd

theorem Sound.discrete {n : ℕ} (hn : 0 < n) : (discrete n).Sound where
  nodes_pos := by simpa using hn
  tail_lt := by simp [Digraph.discrete]
  head_lt := by simp [Digraph.discrete]
  outgoing_eq node := by
    by_cases h : node < n <;> simp [outgoing, Digraph.discrete, leaving, Array.getD, h]

/-- The graph after one more edge, whose endpoints are in range. -/
def withEdge (g : Digraph) (e : Edge) : Digraph :=
  ⟨g.edges.push e, g.adjacency.modify e.tail fun out => out.push g.edges.size⟩

theorem addEdge_eq_ok_iff {g g' : Digraph} {e : Edge} :
    g.addEdge e = .ok g' ↔ e.tail < g.nodeCount ∧ e.head < g.nodeCount ∧ g' = g.withEdge e := by
  unfold addEdge
  split_ifs with ht hh
  · simp only [false_iff]; omega
  · simp only [false_iff]; omega
  · simp only [Except.ok.injEq]
    constructor
    · rintro rfl
      exact ⟨by omega, by omega, rfl⟩
    · rintro ⟨-, -, rfl⟩
      rfl

@[simp] theorem nodeCount_withEdge (g : Digraph) (e : Edge) :
    (g.withEdge e).nodeCount = g.nodeCount := by
  simp [withEdge, nodeCount]

@[simp] theorem edges_withEdge (g : Digraph) (e : Edge) :
    (g.withEdge e).edges.toList = g.edges.toList ++ [e] := by
  simp [withEdge]

theorem outgoing_withEdge (g : Digraph) (e : Edge) (ht : e.tail < g.nodeCount) (node : ℕ) :
    (g.withEdge e).outgoing node =
      g.outgoing node ++ if e.tail = node then [g.edges.size] else [] := by
  unfold nodeCount at ht
  by_cases h : e.tail = node
  · subst h
    simp [outgoing, withEdge, Array.getD, ht, Array.getElem_modify]
  · by_cases hn : node < g.adjacency.size <;>
      simp [outgoing, withEdge, Array.getD, h, hn, Array.getElem_modify]

theorem Sound.withEdge {g : Digraph} (hg : g.Sound) {e : Edge} (ht : e.tail < g.nodeCount)
    (hh : e.head < g.nodeCount) : (g.withEdge e).Sound where
  nodes_pos := by simpa using hg.nodes_pos
  tail_lt := by
    simp only [edges_withEdge, nodeCount_withEdge, List.mem_append, List.mem_singleton]
    rintro d (hd | rfl)
    · exact hg.tail_lt d hd
    · exact ht
  head_lt := by
    simp only [edges_withEdge, nodeCount_withEdge, List.mem_append, List.mem_singleton]
    rintro d (hd | rfl)
    · exact hg.head_lt d hd
    · exact hh
  outgoing_eq node := by
    rw [outgoing_withEdge g e ht, hg.outgoing_eq, edges_withEdge, leaving_append_singleton]
    by_cases h : e.tail = node <;> simp [h]

theorem Sound.foldlM_addEdge {g g' : Digraph} (hg : g.Sound) {edges : List Edge}
    (h : edges.foldlM addEdge g = .ok g') :
    g'.Sound ∧ g'.nodeCount = g.nodeCount ∧ g'.edges.toList = g.edges.toList ++ edges := by
  induction edges generalizing g with
  | nil =>
    simp only [List.foldlM_nil, pure, Except.pure, Except.ok.injEq] at h
    subst h
    exact ⟨hg, rfl, by simp⟩
  | cons e rest ih =>
    rw [List.foldlM_cons, bind_eq_ok_iff] at h
    obtain ⟨next, hstep, hrest⟩ := h
    obtain ⟨ht, hh, rfl⟩ := addEdge_eq_ok_iff.mp hstep
    obtain ⟨hsound, hcount, hedges⟩ := ih (hg.withEdge ht hh) hrest
    exact ⟨hsound, by simpa using hcount, by simpa using hedges⟩

/-- Edges with both endpoints in range are all taken. -/
theorem exists_foldlM_addEdge {g : Digraph} {edges : List Edge}
    (hin : ∀ e ∈ edges, e.tail < g.nodeCount ∧ e.head < g.nodeCount) :
    ∃ g', edges.foldlM addEdge g = .ok g' := by
  induction edges generalizing g with
  | nil => exact ⟨g, rfl⟩
  | cons e rest ih =>
    obtain ⟨ht, hh⟩ := hin e List.mem_cons_self
    obtain ⟨g', hrest⟩ := ih (g := g.withEdge e) fun d hd => by
      rw [nodeCount_withEdge]
      exact hin d (List.mem_cons_of_mem _ hd)
    refine ⟨g', ?_⟩
    rw [List.foldlM_cons, bind_eq_ok_iff]
    exact ⟨_, addEdge_eq_ok_iff.mpr ⟨ht, hh, rfl⟩, hrest⟩

/-- A built graph is sound, has the requested nodes and the edges as given. -/
theorem sound_of_build [Memory] {n : ℕ} {edges : List Edge} {g : Digraph}
    (h : build n edges = .ok g) :
    g.Sound ∧ g.nodeCount = n ∧ g.edges.toList = edges ∧ Memory.Grants n rowWidth := by
  unfold build at h
  split_ifs at h with hn hrows
  have hdiscrete : (Digraph.discrete n).Sound := .discrete (by omega)
  obtain ⟨hg, hcount, hedges⟩ := hdiscrete.foldlM_addEdge h
  exact ⟨hg, by simpa using hcount, by simpa [Digraph.discrete] using hedges, hrows⟩

/-- A graph is built unless it has no nodes, more than the memory grants, or an edge out of
range. -/
theorem exists_build_iff [Memory] {n : ℕ} {edges : List Edge} :
    (∃ g, build n edges = .ok g) ↔
      0 < n ∧ Memory.Grants n rowWidth ∧ ∀ e ∈ edges, e.tail < n ∧ e.head < n := by
  constructor
  · rintro ⟨g, h⟩
    obtain ⟨hg, rfl, rfl, hrows⟩ := sound_of_build h
    exact ⟨hg.nodes_pos, hrows, fun e he => ⟨hg.tail_lt e he, hg.head_lt e he⟩⟩
  · rintro ⟨hpos, hrows, hin⟩
    rw [build, if_neg (by omega), if_pos hrows]
    exact exists_foldlM_addEdge (by simpa using hin)

/-- Edges of a built graph make a graph, too. -/
theorem exists_build_of_subset [Memory] {n : ℕ} {edges edges' : List Edge} {g : Digraph}
    (h : build n edges = .ok g) (hsub : edges' ⊆ edges) : ∃ g', build n edges' = .ok g' := by
  obtain ⟨hpos, hrows, hin⟩ := exists_build_iff.mp ⟨g, h⟩
  exact exists_build_iff.mpr ⟨hpos, hrows, fun e he => hin e (hsub he)⟩

/-- In another order, the edges of a built graph make a graph, too. -/
theorem exists_build_of_perm [Memory] {n : ℕ} {edges edges' : List Edge} {g : Digraph}
    (h : build n edges = .ok g) (hperm : edges'.Perm edges) : ∃ g', build n edges' = .ok g' :=
  exists_build_of_subset h hperm.subset

/-- The lists of outgoing edges share out all positions among the nodes. -/
theorem Sound.positions_perm {g : Digraph} (hg : g.Sound) :
    ((List.range g.nodeCount).flatMap fun v => (leaving g.edges.toList v).map Prod.snd).Perm
      (List.range g.edgeCount) := by
  rw [List.perm_ext_iff_of_nodup (nodup_flatMap_leaving _ List.nodup_range) List.nodup_range]
  intro i
  rw [mem_flatMap_leaving, List.mem_range, edgeCount]
  constructor
  · rintro ⟨e, hi, -⟩
    exact (Array.getElem?_eq_some_iff.mp (by simpa using hi)).1
  · intro hi
    have hmem : g.edges[i] ∈ g.edges.toList := by simp
    exact ⟨g.edges[i], by simp [hi], List.mem_range.mpr (hg.tail_lt _ hmem)⟩

theorem mem_edges_of_getElem? {g : Digraph} {i : ℕ} {e : Edge} (he : g.edges[i]? = some e) :
    e ∈ g.edges.toList :=
  Array.mem_toList_iff.mpr (Array.mem_of_getElem? he)

theorem Sound.tail_lt_of_getElem? {g : Digraph} (hg : g.Sound) {i : ℕ} {e : Edge}
    (he : g.edges[i]? = some e) : e.tail < g.nodeCount :=
  hg.tail_lt e (mem_edges_of_getElem? he)

theorem Sound.head_lt_of_getElem? {g : Digraph} (hg : g.Sound) {i : ℕ} {e : Edge}
    (he : g.edges[i]? = some e) : e.head < g.nodeCount :=
  hg.head_lt e (mem_edges_of_getElem? he)

/-- A cycle, a self-loop, parallel edges, a node that only leads elsewhere and one
without any edge. -/
def tangle : Digraph where
  edges := #[⟨0, 2⟩, ⟨2, 1⟩, ⟨1, 0⟩, ⟨0, 1⟩, ⟨2, 2⟩, ⟨0, 2⟩, ⟨3, 1⟩]
  adjacency := #[#[0, 3, 5], #[2], #[1, 4], #[6], #[]]

theorem build_tangle :
    build 5 [⟨0, 2⟩, ⟨2, 1⟩, ⟨1, 0⟩, ⟨0, 1⟩, ⟨2, 2⟩, ⟨0, 2⟩, ⟨3, 1⟩] = .ok tangle := by
  decide

end Digraph

end ClassicAlgorithms
