import ClassicAlgorithms.Proofs.Graph.Checks
import ClassicAlgorithms.Proofs.Random.Draw
import ClassicAlgorithms.Random.Fixture
import Mathlib.Algebra.BigOperators.Ring.List

/-!
# What the label of a drawn fixture promises

The label of a fixture is not checked when it is made, so it has to follow from the way in
which the edges are drawn. Lists of pairs without repetitions stay so when some are left out
and when the rest is shuffled. Blocks share out the nodes, also if the last one is narrower.
Whatever the source answers, no range is empty, no endpoint is out of range, and a graph
labelled as acyclic has no cycle, so no check ever fails on a drawn fixture.
-/
namespace ClassicAlgorithms

open Draw

/-- What the label says of the edges between `n` nodes. -/
def Topology.Promises (n : ℕ) (edges : List Edge) : Topology → Prop
  | sparse => n ≤ edges.length ∧ edges.length ≤ 2 * n
  | dense => edges.Nodup
  | acyclic => edges.Nodup ∧ ∀ e ∈ edges, e.tail < e.head
  | disconnected => edges.length = 2 * n ∧
      ∃ width, 1 ≤ width ∧ width ≤ min n 6 ∧ ∀ e ∈ edges, e.tail / width = e.head / width
  | multigraph => n ≤ edges.length

/-- A fixture of the given topology that describes a graph, keeps what its label promises and
passes all checks. -/
structure Fixture.WellDrawn [Memory] (f : Fixture) (topology : Topology) : Prop where
  topology_eq : f.topology = topology
  nodes_pos : 1 ≤ f.nodeCount
  nodes_le : f.nodeCount ≤ 48
  dense_nodes_le : topology = .dense → f.nodeCount ≤ 20
  exists_build : ∃ g, Digraph.build f.nodeCount f.edges = .ok g
  promises : topology.Promises f.nodeCount f.edges
  passes : ∀ check ∈ checks, check f = .ok ()

section
variable {n width start v : ℕ}

/-- The blocks that begin below `m` reach up to a multiple of the width, or to the last node. -/
theorem exists_sum_blocks (hwidth : 0 < width) (n m : ℕ) :
    ∃ border, width ∣ border ∧ m ≤ border ∧ border < m + width ∧
      (((List.range m).filter fun start => start % width = 0).map
        fun start => min width (n - start)).sum = min n border := by
  induction m with
  | zero => exact ⟨0, dvd_zero _, le_rfl, by omega, by simp⟩
  | succ m ih =>
    obtain ⟨border, hdvd, hle, hlt, hsum⟩ := ih
    rw [List.range_succ, List.filter_append, List.map_append, List.sum_append, hsum]
    by_cases hm : m % width = 0
    · have hrest : width ∣ border - m := Nat.dvd_sub hdvd (Nat.dvd_of_mod_eq_zero hm)
      have hzero := Nat.eq_zero_of_dvd_of_lt hrest (by omega)
      obtain rfl : border = m := by omega
      refine ⟨border + width, Nat.dvd_add hdvd (Nat.dvd_refl width), by omega, by omega, ?_⟩
      simp only [hm, List.filter_cons, decide_true, if_true, List.filter_nil, List.map_cons,
        List.map_nil, List.sum_cons, List.sum_nil]
      omega
    · have hne : border ≠ m := by
        rintro rfl
        exact hm (Nat.mod_eq_zero_of_dvd hdvd)
      exact ⟨border, hdvd, by omega, by omega, by simp [hm]⟩

/-- The blocks share out the nodes. -/
theorem sum_blocks (hwidth : 0 < width) (n : ℕ) :
    ((Fixture.blockStarts n width).map fun start => min width (n - start)).sum = n := by
  obtain ⟨border, -, hle, -, hsum⟩ := exists_sum_blocks hwidth n n
  rw [Fixture.blockStarts, hsum, min_eq_left hle]

/-- All nodes of a block have the same number when divided by the width. -/
theorem div_eq_of_mem_block (hstart : start % width = 0) (hle : start ≤ v)
    (hlt : v < start + width) : v / width = start / width := by
  have hsplit := Nat.div_add_mod start width
  rw [hstart, Nat.add_zero, Nat.mul_comm] at hsplit
  refine Nat.div_eq_of_lt_le (by omega) ?_
  rw [Nat.add_mul, Nat.one_mul]
  omega

end

/-- Edges that lead upwards make no cycle. -/
theorem Fixture.not_hasCycle {f : Fixture} (h : ∀ e ∈ f.edges, e.tail < e.head) :
    ¬ f.HasCycle := by
  rintro ⟨v, hcycle⟩
  have hup : ∀ w, Relation.TransGen (fun u w => (⟨u, w⟩ : Edge) ∈ f.edges) v w → v < w := by
    intro w hpath
    induction hpath with
    | single hedge => exact h _ hedge
    | tail _ hedge ih => exact ih.trans (h _ hedge)
  exact (hup v hcycle).false

/-- What is checked of a graph holds without regard to the label, but for the absence of cycles. -/
theorem Fixture.passes_of_build [Memory] {f : Fixture} {g : Digraph}
    (h : Digraph.build f.nodeCount f.edges = .ok g)
    (hacyclic : f.topology = .acyclic → ∀ e ∈ f.edges, e.tail < e.head) :
    ∀ check ∈ checks, check f = .ok () := by
  have hkinds : f.checkKinds = .ok () :=
    (checkKinds_eq_ok_iff h).mpr fun htopology => not_hasCycle (hacyclic htopology)
  simp only [checks, List.forall_mem_cons]
  exact ⟨checkAgreement_eq_ok h, checkForest_eq_ok h, hkinds, checkRepetition_eq_ok h, by simp⟩

theorem nodup_allPairs (n : ℕ) : (Fixture.allPairs n).Nodup := by
  rw [Fixture.allPairs, List.nodup_flatMap]
  constructor
  · intro tail _
    exact List.nodup_range.map fun head head' h => (Edge.mk.inj h).2
  · refine List.nodup_range.imp ?_
    intro tail tail' hne e he he'
    obtain ⟨head, -, rfl⟩ := List.mem_map.mp he
    obtain ⟨head', -, heq⟩ := List.mem_map.mp he'
    exact hne (Edge.mk.inj heq).1.symm

namespace Fixture

variable {σ : Type} {n : ℕ}

theorem yields_edge (src : DrawSource σ) (first : ℕ) {count : ℕ} (h : 0 < count) :
    (Edge.draw src first count).Yields fun e =>
      (first ≤ e.tail ∧ e.tail < first + count) ∧ first ≤ e.head ∧ e.head < first + count := by
  unfold Edge.draw
  apply (src.yields_pick h).bind
  intro tail htail
  apply (src.yields_pick h).bind
  intro head hhead
  apply yields_pure
  dsimp only
  omega

theorem yields_sparseEdges (src : DrawSource σ) (hn : 0 < n) :
    (sparseEdges src n).Yields fun edges =>
      (∀ e ∈ edges, e.Within n) ∧ n ≤ edges.length ∧ edges.length ≤ 2 * n := by
  unfold sparseEdges
  apply (src.yields_between (by omega)).bind
  intro count hcount
  apply (yields_replicate (yields_edge src 0 hn) count).imp
  intro edges hedges
  obtain ⟨hlength, hall⟩ := hedges
  refine ⟨?_, by omega⟩
  intro e he
  have hends := hall e he
  exact ⟨by omega, by omega⟩

theorem yields_denseEdges (src : DrawSource σ) (n : ℕ) :
    (denseEdges src n).Yields fun edges => (∀ e ∈ edges, e.Within n) ∧ edges.Nodup := by
  unfold denseEdges
  apply src.yields_unitStep.bind
  intro numerator _
  apply (src.yields_sift (densityOdds numerator) (allPairs n)).imp
  intro edges hsub
  refine ⟨?_, hsub.nodup (nodup_allPairs n)⟩
  intro e he
  exact mem_allPairs.mp (hsub.subset he)

/-- Shuffling brings the edges into another order and leaves their direction alone. -/
theorem yields_acyclicEdges (src : DrawSource σ) (n : ℕ) :
    (acyclicEdges src n).Yields fun edges =>
      (∀ e ∈ edges, e.Within n) ∧ edges.Nodup ∧ ∀ e ∈ edges, e.tail < e.head := by
  unfold acyclicEdges
  apply (src.yields_sift acyclicOdds (ascendingPairs n)).bind
  intro kept hsub
  apply (src.yields_shuffle kept).imp
  intro edges hperm
  have hpairs : ∀ e ∈ edges, e.head < n ∧ e.tail < e.head := by
    intro e he
    exact mem_ascendingPairs.mp (hsub.subset (hperm.subset he))
  have hnodup : (ascendingPairs n).Nodup := (nodup_allPairs n).filter _
  refine ⟨?_, hperm.nodup_iff.mpr (hsub.nodup hnodup), fun e he => (hpairs e he).2⟩
  intro e he
  have hends := hpairs e he
  exact ⟨by omega, by omega⟩

/-- Two edges for each node of the block, with both endpoints in it. -/
theorem yields_blockEdges (src : DrawSource σ) {width start : ℕ} (hwidth : 0 < width)
    (hstart : start ∈ blockStarts n width) :
    (blockEdges src n width start).Yields fun edges =>
      edges.length = 2 * min width (n - start) ∧
        ∀ e ∈ edges, e.Within n ∧ e.tail / width = e.head / width := by
  obtain ⟨hlt, hmod⟩ := mem_blockStarts.mp hstart
  have hsize : 0 < min width (n - start) := by omega
  unfold blockEdges
  apply (yields_replicate (yields_edge src start hsize) _).imp
  intro edges hedges
  obtain ⟨hlength, hall⟩ := hedges
  refine ⟨hlength, ?_⟩
  intro e he
  obtain ⟨⟨htail, htail'⟩, hhead, hhead'⟩ := hall e he
  have hblock : e.tail / width = start / width := div_eq_of_mem_block hmod htail (by omega)
  have hblock' : e.head / width = start / width := div_eq_of_mem_block hmod hhead (by omega)
  exact ⟨⟨by omega, by omega⟩, hblock.trans hblock'.symm⟩

/-- What is known of each part is known of the parts in a row. -/
theorem flatten_of_forall₂ {α β : Type} {size : α → ℕ} {P : β → Prop} {l : List α}
    {parts : List (List β)}
    (h : List.Forall₂ (fun a part => part.length = size a ∧ ∀ b ∈ part, P b) l parts) :
    parts.flatten.length = (l.map size).sum ∧ ∀ b ∈ parts.flatten, P b := by
  induction h with
  | nil => simp
  | cons hpart _ ih =>
    obtain ⟨hlength, hall⟩ := hpart
    constructor
    · simp [hlength, ih.1]
    · intro b hb
      rw [List.flatten_cons, List.mem_append] at hb
      exact hb.elim (hall b) (ih.2 b)

theorem yields_disconnectedEdges (src : DrawSource σ) (hn : 0 < n) :
    (disconnectedEdges src n).Yields fun edges =>
      (∀ e ∈ edges, e.Within n) ∧ edges.length = 2 * n ∧
        ∃ width, 1 ≤ width ∧ width ≤ min n 6 ∧
          ∀ e ∈ edges, e.tail / width = e.head / width := by
  unfold disconnectedEdges
  apply (src.yields_between (by omega)).bind
  intro width hwidth
  apply (yields_mapM fun start hstart => yields_blockEdges src hwidth.1 hstart).bind
  intro blocks hblocks
  apply yields_pure
  obtain ⟨hlength, hall⟩ := flatten_of_forall₂ hblocks
  rw [List.sum_map_mul_left, sum_blocks hwidth.1] at hlength
  exact ⟨fun e he => (hall e he).1, hlength, width, hwidth.1, hwidth.2, fun e he => (hall e he).2⟩

/-- Loops and repetitions come on top of the sparse edges. -/
theorem yields_multigraphEdges (src : DrawSource σ) (hn : 0 < n) :
    (multigraphEdges src n).Yields fun edges => (∀ e ∈ edges, e.Within n) ∧ n ≤ edges.length := by
  unfold multigraphEdges
  apply (yields_sparseEdges src hn).bind
  intro edges hedges
  obtain ⟨hwithin, hlength, -⟩ := hedges
  apply (src.yields_sift _ _).bind
  intro loops hloops
  apply (src.yields_sift _ _).bind
  intro repeated hrepeated
  apply yields_pure
  have hboth : ∀ e ∈ edges ++ loops, e.Within n := by
    intro e he
    rcases List.mem_append.mp he with he | he
    · exact hwithin e he
    · obtain ⟨node, hnode, hloop⟩ := List.mem_map.mp (hloops.subset he)
      subst hloop
      exact ⟨List.mem_range.mp hnode, List.mem_range.mp hnode⟩
  constructor
  · intro e he
    rcases List.mem_append.mp he with he | he
    · exact hboth e he
    · exact hboth e (hrepeated.subset he)
  · rw [List.length_append, List.length_append]
    omega

theorem yields_drawEdges (src : DrawSource σ) (topology : Topology) (hn : 0 < n) :
    (drawEdges src topology n).Yields fun edges =>
      (∀ e ∈ edges, e.Within n) ∧ topology.Promises n edges := by
  cases topology with
  | sparse => exact yields_sparseEdges src hn
  | dense => exact yields_denseEdges src n
  | acyclic => exact yields_acyclicEdges src n
  | disconnected => exact yields_disconnectedEdges src hn
  | multigraph => exact yields_multigraphEdges src hn

theorem wellDrawn [Memory] {f : Fixture} (hpos : 1 ≤ f.nodeCount)
    (hlimit : f.nodeCount ≤ f.topology.nodeLimit) (hwithin : ∀ e ∈ f.edges, e.Within f.nodeCount)
    (hpromises : f.topology.Promises f.nodeCount f.edges) : f.WellDrawn f.topology := by
  have hle : f.nodeCount ≤ 48 := by
    have hmost : f.topology.nodeLimit ≤ 48 := by cases f.topology <;> decide
    omega
  have hrows : Memory.Grants f.nodeCount Digraph.rowWidth := by
    apply Memory.grants_of_le_page
    rw [Digraph.rowWidth]
    omega
  obtain ⟨g, hbuild⟩ := Digraph.exists_build_iff.mpr ⟨hpos, hrows, hwithin⟩
  constructor
  · rfl
  · exact hpos
  · exact hle
  · intro hdense
    rw [hdense] at hlimit
    exact hlimit
  · exact ⟨g, hbuild⟩
  · exact hpromises
  · apply passes_of_build hbuild
    intro hacyclic
    rw [hacyclic] at hpromises
    exact hpromises.2

theorem yields_draw [Memory] (src : DrawSource σ) (topology : Topology) :
    (draw src topology).Yields fun f => f.WellDrawn topology := by
  have hlimit : 1 ≤ topology.nodeLimit := by cases topology <;> decide
  unfold draw
  apply (src.yields_between hlimit).bind
  intro n hn
  apply (yields_drawEdges src topology hn.1).bind
  intro edges hedges
  apply yields_pure
  exact wellDrawn hn.1 hn.2 hedges.1 hedges.2

/-- Whatever a source answers, a fixture is drawn from it without a fault. It describes a graph of
at most 48 nodes, 20 if it is dense, keeps the promise of its topology and passes every check.
So does the fixture that a seed stands for. -/
theorem wellDrawn_draw [Memory] (topology : Topology) :
    (∀ (σ : Type) (src : DrawSource σ) (state : σ), ∃ f after,
      draw src topology state = .ok (f, after) ∧ f.WellDrawn topology) ∧
    ∀ seed, ∃ f, ofSeed topology seed = .ok f ∧ f.WellDrawn topology := by
  refine ⟨fun σ src state => yields_draw src topology state, ?_⟩
  intro seed
  obtain ⟨f, after, hdraw, hf⟩ := yields_draw Xoshiro.source topology (.ofSeed seed)
  refine ⟨f, ?_, hf⟩
  rw [ofSeed, Draw.ofSeed, hdraw]
  rfl

end Fixture

end ClassicAlgorithms
