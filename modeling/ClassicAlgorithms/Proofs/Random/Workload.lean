import ClassicAlgorithms.Proofs.Graph.Endpoints
import ClassicAlgorithms.Proofs.Random.Fixture
import ClassicAlgorithms.Random.Workload

/-!
# Workloads are of the size they are named by

A workload takes its edges and its letters from a source one after the other, and each draw
stays in its range from whatever state the draw before it has left. So the number of edges
is the product it is asked for by, as long as a word holds it, and both structures accept
the edges because no endpoint is out of range.
-/
namespace ClassicAlgorithms

open Draw

/-- Nodes and edges are as many as asked for, and the edges make both a graph and a partition. -/
structure SyntheticGraph.Meets [Memory] (s : SyntheticGraph) (w : GraphWorkload) : Prop where
  nodeCount_eq : s.nodeCount = w.nodeCount
  length_edges : s.edges.length = w.nodeCount * w.edgesPerNode
  within : ∀ e ∈ s.edges, e.Within w.nodeCount
  exists_digraph : ∃ g, s.digraph = .ok g ∧ g.nodeCount = w.nodeCount ∧
    g.edgeCount = w.nodeCount * w.edgesPerNode ∧ g.edges.toList = s.edges
  exists_partition : ∃ d, s.partition = .ok d ∧ d.size = w.nodeCount

/-- The text has the length asked for and consists of the four letters. -/
structure TextWorkload.MetBy (w : TextWorkload) (text : String) : Prop where
  length_eq : text.length = w.length
  letters : ∀ c ∈ text.toList, c ∈ ['a', 'c', 'g', 't']

section
variable {σ : Type} {w : GraphWorkload}

/-- A product that a word holds is not cut off. -/
theorem GraphWorkload.edgeCount_eq (h : w.nodeCount * w.edgesPerNode < 2 ^ 64) :
    w.edgeCount = w.nodeCount * w.edgesPerNode := by
  have hlimit : edgeLimit = 2 ^ 64 - 1 := rfl
  rw [edgeCount, hlimit]
  omega

namespace SyntheticGraph

/-- Edges between the nodes of the workload are accepted as a graph and as a partition. -/
theorem meets [Memory] {edges : List Edge} (hpos : 0 < w.nodeCount)
    (hrows : Memory.Grants w.nodeCount Digraph.rowWidth)
    (hlength : edges.length = w.nodeCount * w.edgesPerNode)
    (hwithin : ∀ e ∈ edges, e.Within w.nodeCount) : Meets ⟨w.nodeCount, edges⟩ w where
  nodeCount_eq := rfl
  length_edges := hlength
  within := hwithin
  exists_digraph := by
    obtain ⟨g, hbuild⟩ := Digraph.exists_build_iff.mpr ⟨hpos, hrows, hwithin⟩
    obtain ⟨-, hnodes, hedges, -⟩ := Digraph.sound_of_build hbuild
    refine ⟨g, hbuild, hnodes, ?_, hedges⟩
    rw [Digraph.edgeCount, ← Array.length_toList, hedges, hlength]
  exists_partition := by
    obtain ⟨d, hbuild⟩ := DisjointSet.exists_ofEdges (DisjointSet.grants_linkWidth hrows) hwithin
    exact ⟨d, hbuild, (DisjointSet.partitions_of_ofEdges hbuild).size_eq⟩

theorem exists_generate [Memory] (src : DrawSource σ) (hpos : 0 < w.nodeCount)
    (hedges : w.nodeCount * w.edgesPerNode < 2 ^ 64)
    (hrows : Memory.Grants w.nodeCount Digraph.rowWidth) (state : σ) :
    ∃ s, generate src w state = .ok s ∧ s.Meets w := by
  have hdraw := yields_replicate (Fixture.yields_edge src 0 hpos) w.edgeCount
  obtain ⟨edges, after, hrun, hlength, hall⟩ := hdraw state
  rw [GraphWorkload.edgeCount_eq hedges] at hlength
  have hwithin : ∀ e ∈ edges, e.Within w.nodeCount := by
    intro e he
    obtain ⟨⟨-, htail⟩, -, hhead⟩ := hall e he
    rw [Nat.zero_add] at htail hhead
    exact ⟨htail, hhead⟩
  refine ⟨⟨w.nodeCount, edges⟩, ?_, meets hpos hrows hlength hwithin⟩
  rw [generate, if_neg (by omega), hrun]

end SyntheticGraph

namespace TextWorkload

theorem yields_drawLetter (src : DrawSource σ) :
    (drawLetter src).Yields fun c => c ∈ ['a', 'c', 'g', 't'] := by
  unfold drawLetter
  apply (src.yields_pick (by decide)).bind
  intro position hposition
  apply yields_pure
  rw [← List.getElem_eq_getD (h := hposition)]
  exact List.getElem_mem hposition

theorem yields_draw (src : DrawSource σ) (w : TextWorkload) : (w.draw src).Yields w.MetBy := by
  unfold draw
  apply (yields_replicate (yields_drawLetter src) w.length).map
  intro letters hletters
  constructor
  · rw [String.length_ofList, hletters.1]
  · rw [String.toList_ofList]
    exact hletters.2

end TextWorkload

end

/-- Whatever a source answers, a workload that can be stored is drawn from it with exactly as many
edges as its size says, all of them between its nodes, and both structures can be made of it. A
text has its length and no letter but the four. So it is with the workloads that seeds stand for. -/
theorem meets_generate_and_metBy_draw [Memory] :
    (∀ w : GraphWorkload, 1 ≤ w.nodeCount → w.nodeCount * w.edgesPerNode < 2 ^ 64 →
      Memory.Grants w.nodeCount Digraph.rowWidth →
      (∀ (σ : Type) (src : DrawSource σ) (state : σ), ∃ s,
        SyntheticGraph.generate src w state = .ok s ∧ s.Meets w) ∧
      ∀ seed, ∃ s, SyntheticGraph.ofSeed w seed = .ok s ∧ s.Meets w) ∧
    ∀ w : TextWorkload,
      (∀ (σ : Type) (src : DrawSource σ) (state : σ), ∃ text after,
        w.draw src state = .ok (text, after) ∧ w.MetBy text) ∧
      ∀ seed, ∃ text, w.ofSeed seed = .ok text ∧ w.MetBy text := by
  constructor
  · intro w hpos hedges hrows
    have hgenerate {σ : Type} (src : DrawSource σ) :=
      SyntheticGraph.exists_generate src hpos hedges hrows
    exact ⟨fun σ src => hgenerate src, fun seed => hgenerate Xoshiro.source (.ofSeed seed)⟩
  · intro w
    refine ⟨fun σ src => TextWorkload.yields_draw src w, fun seed => ?_⟩
    obtain ⟨text, after, hdraw, htext⟩ :=
      TextWorkload.yields_draw Xoshiro.source w (.ofSeed seed)
    refine ⟨text, ?_, htext⟩
    rw [TextWorkload.ofSeed, Draw.ofSeed, hdraw]
    rfl

theorem meets_generate_fifty :
    1 ≤ 50 ∧ 50 * 4 < 2 ^ 64 ∧ Memory.Grants 50 Digraph.rowWidth ∧
      ∃ s, SyntheticGraph.ofSeed ⟨50, 4⟩ 42 = .ok s ∧ s.edges.length = 200 ∧
        s.Meets ⟨50, 4⟩ := by
  have hpos : 1 ≤ 50 := by decide
  have hedges : 50 * 4 < 2 ^ 64 := by decide
  have hrows : Memory.Grants 50 Digraph.rowWidth := by decide
  obtain ⟨-, hseeds⟩ := meets_generate_and_metBy_draw.1 ⟨50, 4⟩ hpos hedges hrows
  obtain ⟨s, hs, hmeets⟩ := hseeds 42
  exact ⟨hpos, hedges, hrows, s, hs, hmeets.length_edges, hmeets⟩

end ClassicAlgorithms
