import ClassicAlgorithms.Proofs.Graph.Endpoints

/-!
# Which list an edge is in

A built graph keeps its edges twice: all of them in input order, and for each node the
positions of those that leave it. The two agree, however many edges are parallel or loops,
so that each position is in one list and stands there once, behind the smaller ones. The
edges need not be there before they are asked for. A graph that is built while they are
read is the same one, and reading stops at the first edge that is refused.
-/
namespace ClassicAlgorithms

open GraphInput (endpoints)

namespace Digraph

/-- Takes the edges that are not read yet one by one, each before it is checked. What is still
unread is the state. -/
def addUnread (g : Digraph) : List Edge → EStateM.Result GraphError (List Edge) Digraph
  | [] => .ok g []
  | e :: unread =>
    match g.addEdge e with
    | .ok g' => addUnread g' unread
    | .error error => .error error unread

/-- `build` with edges that are read while the graph is built. -/
def buildReading [Memory] (nodeCount : ℕ) : EStateM GraphError (List Edge) Digraph := fun unread =>
  if nodeCount = 0 then .error .emptyGraph unread
  else if Memory.Grants nodeCount rowWidth then addUnread (discrete nodeCount) unread
  else .error (.tooManyNodes nodeCount) unread

/-- The edges behind the first one that is out of range. -/
def behindRefused (n : ℕ) (edges : List Edge) : List Edge :=
  (edges.dropWhile fun e => e.Within n).tail

/-- The graph has the nodes and the edges it was asked for, and lists the position of each edge
once, with the tail of this edge and in increasing order. -/
structure Indexes (g : Digraph) (n : ℕ) (edges : List Edge) : Prop where
  nodeCount_eq : g.nodeCount = n
  edges_eq : g.edges.toList = edges
  outgoing_sorted : ∀ v < n, (g.outgoing v).SortedLT
  mem_outgoing_iff : ∀ v < n, ∀ i, i ∈ g.outgoing v ↔ ∃ e, edges[i]? = some e ∧ e.tail = v
  existsUnique_outgoing : ∀ i < edges.length, ∃! v, i ∈ g.outgoing v
  outgoing_eq_nil : ∀ v, n ≤ v → g.outgoing v = []

variable {g : Digraph} {n node v i : ℕ} {e : Edge} {edges : List Edge}

theorem addEdge_eq_error_of_not_within (h : ¬ e.Within g.nodeCount) :
    ∃ error, g.addEdge e = .error error := by
  cases hadd : g.addEdge e with
  | error error => exact ⟨error, rfl⟩
  | ok g' =>
    obtain ⟨htail, hhead, -⟩ := addEdge_eq_ok_iff.mp hadd
    exact absurd ⟨htail, hhead⟩ h

/-- Reading edge by edge comes to the same as adding all edges of the list. -/
theorem addUnread_eq (g : Digraph) (edges : List Edge) :
    g.addUnread edges =
      match edges.foldlM addEdge g with
      | .ok g' => .ok g' []
      | .error error => .error error (behindRefused g.nodeCount edges) := by
  induction edges generalizing g with
  | nil => rfl
  | cons e rest ih =>
    rw [addUnread, List.foldlM_cons, behindRefused, List.dropWhile_cons]
    by_cases h : e.Within g.nodeCount
    · have hadd : g.addEdge e = .ok (g.withEdge e) := addEdge_eq_ok_iff.mpr ⟨h.1, h.2, rfl⟩
      have hrest := ih (g.withEdge e)
      rw [nodeCount_withEdge] at hrest
      simp only [hadd, h, decide_true, if_true]
      exact hrest
    · obtain ⟨error, hadd⟩ := addEdge_eq_error_of_not_within h
      simp only [hadd, h, decide_false, Bool.false_eq_true, if_false]
      rfl

/-- The graph is the same whether its edges are read one by one or are given as a list. -/
theorem run_buildReading [Memory] (hpos : 0 < n) (hrows : Memory.Grants n rowWidth)
    (edges : List Edge) :
    (buildReading n).run edges =
      match build n edges with
      | .ok g => .ok g []
      | .error error => .error error (behindRefused n edges) := by
  have hread := addUnread_eq (discrete n) edges
  rw [nodeCount_discrete] at hread
  rw [build, if_neg (by omega), if_pos hrows, ← hread]
  show buildReading n edges = _
  rw [buildReading, if_neg (by omega), if_pos hrows]

namespace Sound

theorem mem_outgoing_iff (hg : g.Sound) :
    i ∈ g.outgoing v ↔ ∃ e, g.edges.toList[i]? = some e ∧ e.tail = v := by
  simp [hg.outgoing_eq, mem_leaving]

theorem outgoing_eq_nil (hg : g.Sound) (hv : g.nodeCount ≤ v) : g.outgoing v = [] := by
  rw [List.eq_nil_iff_forall_not_mem]
  intro i hi
  obtain ⟨e, he, rfl⟩ := hg.mem_outgoing_iff.mp hi
  exact absurd (hg.tail_lt e (List.mem_of_getElem? he)) hv.not_gt

/-- The list that a position is in is that of the tail. -/
theorem existsUnique_outgoing (hg : g.Sound) (hi : i < g.edges.toList.length) :
    ∃! v, i ∈ g.outgoing v := by
  have he : g.edges.toList[i]? = some g.edges.toList[i] := List.getElem?_eq_getElem hi
  refine ⟨_, hg.mem_outgoing_iff.mpr ⟨_, he, rfl⟩, ?_⟩
  intro v hv
  obtain ⟨e, he', rfl⟩ := hg.mem_outgoing_iff.mp hv
  rw [Option.some.inj (he.symm.trans he')]

theorem indexes (hg : g.Sound) : g.Indexes g.nodeCount g.edges.toList where
  nodeCount_eq := rfl
  edges_eq := rfl
  outgoing_sorted v _ := by
    rw [hg.outgoing_eq]
    exact (List.pairwise_map.mpr (leaving_pairwise _ v)).sortedLT
  mem_outgoing_iff _ _ _ := hg.mem_outgoing_iff
  existsUnique_outgoing _ := hg.existsUnique_outgoing
  outgoing_eq_nil _ := hg.outgoing_eq_nil

end Sound

/-- Edges in range make a graph that has them in order and lists each with its tail. An endpoint
out of range is given as the reason why there is no graph, and nothing behind its edge is read.
Without nodes, no edge is read at all. -/
theorem indexes_build [Memory] :
    (∀ n edges, 0 < n → Memory.Grants n rowWidth → (∀ e ∈ edges, e.Within n) →
      ∃ g, build n edges = .ok g ∧ g.Indexes n edges ∧ (buildReading n).run edges = .ok g []) ∧
    (∀ n edges, 0 < n → Memory.Grants n rowWidth → (∃ e ∈ edges, ¬ e.Within n) →
      ∃ node, FirstOutside n (endpoints edges) node ∧
        build n edges = .error (.invalidNodeId node n) ∧
        (buildReading n).run edges =
          .error (.invalidNodeId node n) (behindRefused n edges)) ∧
    ∀ edges, build 0 edges = .error .emptyGraph ∧
      (buildReading 0).run edges = .error .emptyGraph edges := by
  refine ⟨fun n edges hpos hrows hin => ?_, fun n edges hpos hrows hout => ?_, fun edges => ?_⟩
  · obtain ⟨g, hbuild⟩ := exists_build_iff.mpr ⟨hpos, hrows, hin⟩
    obtain ⟨hg, rfl, rfl, -⟩ := sound_of_build hbuild
    refine ⟨g, hbuild, hg.indexes, ?_⟩
    rw [run_buildReading hpos hrows, hbuild]
  · obtain ⟨e, he, hrange⟩ := hout
    rcases edges_lt_or_exists_firstOutside n edges with hin | ⟨node, hnode⟩
    · exact absurd (hin e he) hrange
    · have hbuild := build_of_firstOutside hpos hrows hnode
      refine ⟨node, hnode, hbuild, ?_⟩
      rw [run_buildReading hpos hrows, hbuild]
  · exact ⟨rfl, rfl⟩

/-- Parallel edges and a loop are listed like any other edge. An edge is refused for its head, and
the edge behind it stays unread. -/
theorem indexes_build_tangle :
    (∃ g, build 5 [⟨0, 2⟩, ⟨2, 1⟩, ⟨1, 0⟩, ⟨0, 1⟩, ⟨2, 2⟩, ⟨0, 2⟩, ⟨3, 1⟩] = .ok g ∧
      g.Indexes 5 [⟨0, 2⟩, ⟨2, 1⟩, ⟨1, 0⟩, ⟨0, 1⟩, ⟨2, 2⟩, ⟨0, 2⟩, ⟨3, 1⟩] ∧
      g.outgoing 0 = [0, 3, 5]) ∧
    (∃ e ∈ [(⟨0, 1⟩ : Edge), ⟨2, 7⟩, ⟨5, 0⟩], ¬ e.Within 3) ∧
    (buildReading 3).run [⟨0, 1⟩, ⟨2, 7⟩, ⟨5, 0⟩] = .error (.invalidNodeId 7 3) [⟨5, 0⟩] ∧
    (buildReading 0).run [⟨0, 1⟩] = .error .emptyGraph [⟨0, 1⟩] := by
  have hrows : Memory.Grants 5 rowWidth := by decide
  have hrows' : Memory.Grants 3 rowWidth := by decide
  have hout : ∃ e ∈ [(⟨0, 1⟩ : Edge), ⟨2, 7⟩, ⟨5, 0⟩], ¬ e.Within 3 := by decide
  obtain ⟨haccepted, hrefused, hempty⟩ := indexes_build
  refine ⟨?_, hout, ?_, (hempty _).2⟩
  · obtain ⟨g, hbuild, hindexes, -⟩ := haccepted 5
      [⟨0, 2⟩, ⟨2, 1⟩, ⟨1, 0⟩, ⟨0, 1⟩, ⟨2, 2⟩, ⟨0, 2⟩, ⟨3, 1⟩] (by decide) hrows (by decide)
    obtain rfl := Except.ok.inj (build_tangle.symm.trans hbuild)
    exact ⟨tangle, build_tangle, hindexes, rfl⟩
  · obtain ⟨node, -, hbuild, hread⟩ := hrefused 3 _ (by decide) hrows' hout
    have hnode : build 3 [⟨0, 1⟩, ⟨2, 7⟩, ⟨5, 0⟩] = .error (.invalidNodeId 7 3) := by decide
    rw [hbuild, Except.error.injEq] at hnode
    rw [hread, hnode]
    rfl

end Digraph

end ClassicAlgorithms
