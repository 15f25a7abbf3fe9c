import ClassicAlgorithms.Proofs.Graph.Excerpt
import Mathlib.Data.Fin.VecNotation

/-!
# What counts in a list of edges

The search asks for the edges out of one node in their order and for nothing else of the
list. An edge that discovered nothing can be taken out of it, and edges of different
tails can change places: the nodes are visited as before, and every edge that is still
there keeps its kind.
-/
namespace ClassicAlgorithms

/-- Both traversals visit and finish the nodes in the same order, from the same roots. -/
structure Traversal.SameWalk (t t' : Traversal) : Prop where
  discovery_eq : t'.discovery = t.discovery
  preorder_eq : t'.preorder = t.preorder
  postorder_eq : t'.postorder = t.postorder
  roots_eq : t'.roots = t.roots

/-- The second list has the edges of the first one at the places that `place` names, and edges
with a common tail are in the same order in both. -/
structure Rearranges (edges edges' : List Edge) (place : Fin edges.length ≃ Fin edges'.length) :
    Prop where
  edge_eq : ∀ i, edges'[place i] = edges[i]
  ordered : ∀ i j, i < j → edges[i].tail = edges[j].tail → place i < place j

section
variable {g g' : Digraph} {position : ℕ → Option ℕ} {i j : ℕ} {e : Edge}

@[simp] theorem Renaming.edge_of_node_eq_some (position : ℕ → Option ℕ) (e : Edge) :
    Renaming.edge ⟨some, position⟩ e = some e :=
  Renaming.edge_eq_some_iff.mpr ⟨rfl, rfl⟩

/-- All nodes are kept, by their own names. -/
theorem Excerpt.of_position (hcount : g'.nodeCount = g.nodeCount)
    (hedges : ∀ j d, g'.edges[j]? = some d ↔ ∃ i, g.edges[i]? = some d ∧ position i = some j)
    (hordered : ∀ i j e d, g.edges[i]? = some e → g.edges[j]? = some d → e.tail = d.tail →
      i < j → ∀ i' j', position i = some i' → position j = some j' → i' < j') :
    Excerpt ⟨some, position⟩ g g' where
  node_inj u v w hu hv := Option.some.inj (hu.trans hv.symm)
  nodes_eq := by rw [List.filterMap_some, hcount]
  edge_iff j d := by
    rw [hedges]
    constructor
    · rintro ⟨i, hi, hj⟩
      exact ⟨i, d, hi, hj, Renaming.edge_of_node_eq_some _ _⟩
    · rintro ⟨i, e, hi, hj, he⟩
      obtain rfl := Option.some.inj ((Renaming.edge_of_node_eq_some _ _).symm.trans he)
      exact ⟨i, hi, hj⟩
  ordered i i' e e' he he' htail hlt j j' _ _ hj _ hj' _ :=
    hordered i i' e e' he he' htail hlt j j' hj hj'

end

namespace Spans

variable {g g' : Digraph} {F F' : Forest} {position : ℕ → Option ℕ} {i : ℕ}

theorem sameWalk (hcount : g'.nodeCount = g.nodeCount)
    (hmirrors : Forest.Mirrors ⟨some, position⟩ F F') :
    (traversal g F).SameWalk (traversal g' F') := by
  have hnodes : F'.nodes = F.nodes := by rw [hmirrors.nodes_eq, List.filterMap_some]
  have hfinishes : F'.finishes = F.finishes := by rw [hmirrors.finishes_eq, List.filterMap_some]
  have hroots : F'.roots = F.roots := by rw [hmirrors.roots_eq, List.filterMap_some]
  constructor <;> simp [traversal, Progress.traversal, hcount, hnodes, hfinishes, hroots]

/-- When no arc is left out that found a node, the walk is the same, and so are the kinds. -/
theorem exists_sameWalk (h : Spans g F) (hg : g.Sound) (hg' : g'.Sound)
    (hcount : g'.nodeCount = g.nodeCount) (hr : Excerpt ⟨some, position⟩ g g')
    (hkept : ∀ i e, Arc.along i e ∈ F.grown → (position i).isSome) :
    ∃ F', Spans g' F' ∧ (traversal g F).SameWalk (traversal g' F') ∧
      ∀ j k, (traversal g' F').kind? j = some k ↔
        ∃ i, (traversal g F).kind? i = some k ∧ position i = some j := by
  have hkept' : F.Kept ⟨some, position⟩ := by
    intro a ha _
    cases a with
    | seed v => rfl
    | along i e =>
      obtain ⟨j, hj⟩ := Option.isSome_iff_exists.mp (hkept i e ha)
      rw [Renaming.arc_eq_along hj (Renaming.edge_of_node_eq_some _ _)]
      rfl
  have hmirrors := hkept'.mirrors_filterMap
  have h' := h.excerpt hr hkept'
  refine ⟨_, h', sameWalk hcount hmirrors, fun j k => ?_⟩
  constructor
  · intro hk
    obtain ⟨d, hd⟩ := h'.exists_edge_of_kind? hg' hk
    obtain ⟨i, e, he, hi, hed⟩ := (hr.edge_iff j d).mp hd
    exact ⟨i, (h.kind?_excerpt hg h' hg' hr hmirrors he hi hed).symm.trans hk, hi⟩
  · rintro ⟨i, hk, hi⟩
    obtain ⟨e, he⟩ := h.exists_edge_of_kind? hg hk
    have hed := Renaming.edge_of_node_eq_some position e
    exact (h.kind?_excerpt hg h' hg' hr hmirrors he hi hed).trans hk

end Spans

/-- Where the edges are when the one at `gap` has been taken out. -/
def positionWithout (gap i : ℕ) : Option ℕ :=
  if i < gap then some i else if i = gap then none else some (i - 1)

theorem positionWithout_eq_some_iff {gap i j : ℕ} :
    positionWithout gap i = some j ↔ i = if j < gap then j else j + 1 := by
  unfold positionWithout
  split_ifs <;> simp <;> omega

theorem getElem?_eraseIdx_eq_some_iff {α : Type} {l : List α} {gap j : ℕ} {a : α} :
    (l.eraseIdx gap)[j]? = some a ↔ ∃ i, l[i]? = some a ∧ positionWithout gap i = some j := by
  simp only [positionWithout_eq_some_iff, List.getElem?_eraseIdx]
  split_ifs <;> simp

theorem Excerpt.without {g g' : Digraph} {gap : ℕ} (hcount : g'.nodeCount = g.nodeCount)
    (hedges : g'.edges.toList = g.edges.toList.eraseIdx gap) :
    Excerpt ⟨some, positionWithout gap⟩ g g' := by
  refine .of_position hcount ?_ ?_
  · intro j d
    rw [← Array.getElem?_toList, hedges, getElem?_eraseIdx_eq_some_iff]
    simp
  · intro i j _ _ _ _ _ hlt i' j' hi hj
    rw [positionWithout_eq_some_iff] at hi hj
    split_ifs at hi hj <;> omega

/-- Where the edges are when each one has gone to its place. -/
def positionAt {m m' : ℕ} (place : Fin m ≃ Fin m') (i : ℕ) : Option ℕ :=
  if h : i < m then some (place ⟨i, h⟩) else none

theorem positionAt_eq_some_iff {m m' : ℕ} {place : Fin m ≃ Fin m'} {i j : ℕ} :
    positionAt place i = some j ↔ ∃ k : Fin m, (k : ℕ) = i ∧ (place k : ℕ) = j := by
  unfold positionAt
  split_ifs with h
  · rw [Option.some.injEq]
    constructor
    · exact fun heq => ⟨⟨i, h⟩, rfl, heq⟩
    · rintro ⟨k, rfl, heq⟩
      exact heq
  · simp only [false_iff]
    rintro ⟨k, rfl, -⟩
    exact h k.isLt

namespace Rearranges

variable {edges edges' : List Edge} {place : Fin edges.length ≃ Fin edges'.length}

theorem getElem?_place (h : Rearranges edges edges' place) (i : Fin edges.length) :
    edges'[(place i : ℕ)]? = edges[(i : ℕ)]? := by
  rw [List.getElem?_eq_getElem i.isLt, List.getElem?_eq_getElem (place i).isLt]
  exact congrArg some (h.edge_eq i)

/-- Every edge of the second list has come from somewhere. -/
theorem exists_getElem? (h : Rearranges edges edges' place) {j : ℕ} {d : Edge}
    (hd : edges'[j]? = some d) : ∃ i, (place i : ℕ) = j ∧ edges[(i : ℕ)]? = some d := by
  have hj := (List.getElem?_eq_some_iff.mp hd).1
  have hplace : (place (place.symm ⟨j, hj⟩) : ℕ) = j := by rw [Equiv.apply_symm_apply]
  refine ⟨place.symm ⟨j, hj⟩, hplace, ?_⟩
  rw [← h.getElem?_place, hplace, hd]

theorem subset (h : Rearranges edges edges' place) : edges' ⊆ edges := by
  intro e he
  obtain ⟨j, hj⟩ := List.mem_iff_getElem?.mp he
  obtain ⟨i, -, hi⟩ := h.exists_getElem? hj
  exact List.mem_of_getElem? hi

theorem excerpt {g g' : Digraph} (h : Rearranges edges edges' place)
    (hcount : g'.nodeCount = g.nodeCount) (hedges : g.edges.toList = edges)
    (hedges' : g'.edges.toList = edges') : Excerpt ⟨some, positionAt place⟩ g g' := by
  refine .of_position hcount ?_ ?_
  · intro j d
    simp only [← Array.getElem?_toList, hedges, hedges', positionAt_eq_some_iff]
    constructor
    · intro hd
      obtain ⟨i, hplace, hi⟩ := h.exists_getElem? hd
      exact ⟨i, hi, i, rfl, hplace⟩
    · rintro ⟨_, hi, k, rfl, rfl⟩
      rwa [h.getElem?_place]
  · intro i j e d he hd htail hlt i' j' hi hj
    obtain ⟨k, rfl, rfl⟩ := positionAt_eq_some_iff.mp hi
    obtain ⟨l, rfl, rfl⟩ := positionAt_eq_some_iff.mp hj
    rw [← Array.getElem?_toList, hedges] at he hd
    obtain ⟨hk, rfl⟩ := List.getElem?_eq_some_iff.mp he
    obtain ⟨hl, rfl⟩ := List.getElem?_eq_some_iff.mp hd
    exact h.ordered k l hlt htail

end Rearranges

/-- On every built graph an edge that is no tree edge can be taken out of the list: the walk is
the same, and the other edges keep their kinds. -/
theorem exists_sameWalk_eraseIdx_of_build [Memory] {nodeCount : ℕ} {edges : List Edge} {g : Digraph}
    (h : Digraph.build nodeCount edges = .ok g) :
    ∃ t, classify g = .ok t ∧ ∀ i < edges.length, t.kind? i ≠ some .tree →
      ∃ g' t', Digraph.build nodeCount (edges.eraseIdx i) = .ok g' ∧ classify g' = .ok t' ∧
        t.SameWalk t' ∧ t'.kinds.toList = t.kinds.toList.eraseIdx i := by
  obtain ⟨F, hF, hg, hcount, hedges, hclassify⟩ := exists_spans_of_build h
  refine ⟨_, hclassify, fun i _ hkind => ?_⟩
  obtain ⟨g', h'⟩ := Digraph.exists_build_of_subset h (List.eraseIdx_subset (k := i))
  obtain ⟨hg', hcount', hedges', -⟩ := Digraph.sound_of_build h'
  have hr : Excerpt ⟨some, positionWithout i⟩ g g' :=
    .without (hcount'.trans hcount.symm) (by rw [hedges', hedges])
  have hkept : ∀ j e, Arc.along j e ∈ F.grown → (positionWithout i j).isSome := by
    intro j e hgrown
    have hne : j ≠ i := by
      rintro rfl
      exact hkind ((hF.along_mem_grown_iff hg).mp hgrown).2
    unfold positionWithout
    split_ifs <;> rfl
  obtain ⟨F', hF', hwalk, hkinds⟩ :=
    hF.exists_sameWalk hg hg' (hcount'.trans hcount.symm) hr hkept
  refine ⟨g', _, h', hF'.classify_eq hg', hwalk, List.ext_getElem? fun j => Option.ext fun k => ?_⟩
  rw [getElem?_eraseIdx_eq_some_iff]
  simpa [Traversal.kind?] using hkinds j k

theorem exists_sameWalk_eraseIdx_tangle :
    Digraph.build 5 [⟨0, 2⟩, ⟨2, 1⟩, ⟨1, 0⟩, ⟨0, 1⟩, ⟨2, 2⟩, ⟨0, 2⟩, ⟨3, 1⟩] = .ok .tangle ∧
      ∃ t g' t', classify .tangle = .ok t ∧
        t.kinds.toList = [.tree, .tree, .back, .forward, .back, .forward, .cross] ∧
        Digraph.build 5 [⟨0, 2⟩, ⟨2, 1⟩, ⟨0, 1⟩, ⟨2, 2⟩, ⟨0, 2⟩, ⟨3, 1⟩] = .ok g' ∧
        classify g' = .ok t' ∧ t.SameWalk t' ∧
        t'.kinds.toList = [.tree, .tree, .forward, .back, .forward, .cross] := by
  have htangle : classify .tangle = .ok ⟨#[0, 2, 1, 3, 4],
      #[.tree, .tree, .back, .forward, .back, .forward, .cross], #[1, 3, 2, 4, 5],
      #[3, 1, 2, 4, 5], #[0, 3, 4]⟩ := by cbv
  obtain ⟨t, hclassify, hwithout⟩ := exists_sameWalk_eraseIdx_of_build Digraph.build_tangle
  have ht := Except.ok.inj (htangle.symm.trans hclassify)
  have hback : t.kind? 2 ≠ some .tree := by
    rw [← ht]
    decide
  obtain ⟨g', t', h', hclassify', hwalk, hkinds⟩ := hwithout 2 (by decide) hback
  refine ⟨Digraph.build_tangle, t, g', t', hclassify, by rw [← ht], h', hclassify', hwalk, ?_⟩
  rw [hkinds, ← ht]
  rfl

/-- On every built graph edges can change places as long as those with a common tail stay in
order: the walk is the same, and every edge keeps its kind at its new place. -/
theorem exists_sameWalk_rearranged_of_build [Memory] {nodeCount : ℕ} {edges : List Edge}
    {g : Digraph} (h : Digraph.build nodeCount edges = .ok g) :
    ∃ t, classify g = .ok t ∧
      ∀ (edges' : List Edge) (place : Fin edges.length ≃ Fin edges'.length),
        Rearranges edges edges' place → ∃ g' t',
          Digraph.build nodeCount edges' = .ok g' ∧ classify g' = .ok t' ∧ t.SameWalk t' ∧
            ∀ i, t'.kind? (place i) = t.kind? i := by
  obtain ⟨F, hF, hg, hcount, hedges, hclassify⟩ := exists_spans_of_build h
  refine ⟨_, hclassify, fun edges' place hplace => ?_⟩
  obtain ⟨g', h'⟩ := Digraph.exists_build_of_subset h hplace.subset
  obtain ⟨hg', hcount', hedges', -⟩ := Digraph.sound_of_build h'
  have hr := hplace.excerpt (hcount'.trans hcount.symm) hedges hedges'
  have hkept : ∀ i e, Arc.along i e ∈ F.grown → (positionAt place i).isSome := by
    intro i e hgrown
    have he := ((hF.along_mem_grown_iff hg).mp hgrown).1
    have hi : i < edges.length := by
      rw [← hedges, Array.length_toList]
      exact (Array.getElem?_eq_some_iff.mp he).1
    simp [positionAt, hi]
  obtain ⟨F', hF', hwalk, hkinds⟩ :=
    hF.exists_sameWalk hg hg' (hcount'.trans hcount.symm) hr hkept
  refine ⟨g', _, h', hF'.classify_eq hg', hwalk, fun i => Option.ext fun k => ?_⟩
  rw [hkinds]
  constructor
  · rintro ⟨_, hk, hplaced⟩
    obtain ⟨i', rfl, heq⟩ := positionAt_eq_some_iff.mp hplaced
    rwa [place.injective (Fin.ext heq)] at hk
  · exact fun hk => ⟨i, hk, positionAt_eq_some_iff.mpr ⟨i, rfl, rfl⟩⟩

/-- New places for seven edges. -/
def shuffle : Fin 7 ≃ Fin 7 where
  toFun := ![2, 1, 3, 5, 4, 6, 0]
  invFun := ![6, 1, 0, 2, 4, 3, 5]
  left_inv i := by
    revert i
    decide
  right_inv i := by
    revert i
    decide

theorem rearranges_tangle : Rearranges
    [⟨0, 2⟩, ⟨2, 1⟩, ⟨1, 0⟩, ⟨0, 1⟩, ⟨2, 2⟩, ⟨0, 2⟩, ⟨3, 1⟩]
    [⟨3, 1⟩, ⟨2, 1⟩, ⟨0, 2⟩, ⟨1, 0⟩, ⟨2, 2⟩, ⟨0, 1⟩, ⟨0, 2⟩] shuffle where
  edge_eq := by decide
  ordered := by decide

theorem exists_sameWalk_rearranged_tangle :
    Digraph.build 5 [⟨0, 2⟩, ⟨2, 1⟩, ⟨1, 0⟩, ⟨0, 1⟩, ⟨2, 2⟩, ⟨0, 2⟩, ⟨3, 1⟩] = .ok .tangle ∧
      Rearranges [⟨0, 2⟩, ⟨2, 1⟩, ⟨1, 0⟩, ⟨0, 1⟩, ⟨2, 2⟩, ⟨0, 2⟩, ⟨3, 1⟩]
        [⟨3, 1⟩, ⟨2, 1⟩, ⟨0, 2⟩, ⟨1, 0⟩, ⟨2, 2⟩, ⟨0, 1⟩, ⟨0, 2⟩] shuffle ∧
      ∃ t g' t', classify .tangle = .ok t ∧
        Digraph.build 5 [⟨3, 1⟩, ⟨2, 1⟩, ⟨0, 2⟩, ⟨1, 0⟩, ⟨2, 2⟩, ⟨0, 1⟩, ⟨0, 2⟩] = .ok g' ∧
        classify g' = .ok t' ∧ t.SameWalk t' ∧ ∀ i, t'.kind? (shuffle i) = t.kind? i := by
  obtain ⟨t, hclassify, hrearranged⟩ := exists_sameWalk_rearranged_of_build Digraph.build_tangle
  obtain ⟨g', t', h', hclassify', hwalk, hkinds⟩ := hrearranged _ _ rearranges_tangle
  exact ⟨Digraph.build_tangle, rearranges_tangle, t, g', t', hclassify, h', hclassify', hwalk,
    hkinds⟩

end ClassicAlgorithms
