import ClassicAlgorithms.Proofs.DisjointSet.Closure
import ClassicAlgorithms.Proofs.Graph.Roots
import Mathlib.Order.Lattice.Nat

/-!
# Trees and components

A tree of the search never leaves its component, so that there are at least as many trees
as components. When every edge also occurs in reverse, the nodes that reach each other are
the nodes that are connected. Then a tree takes its whole component, and no edge leads to
another tree or to another branch of its own.
-/
namespace ClassicAlgorithms

namespace Traversal

/-- One tree of the search holds both nodes. -/
def SameTree (g : Digraph) (t : Traversal) (u v : ℕ) : Prop :=
  ∃ r ∈ t.roots, t.Descends g r u ∧ t.Descends g r v

/-- No tree has nodes of two components. -/
structure WithinComponents (g : Digraph) (t : Traversal) (d : DisjointSet) : Prop where
  connected_of_sameTree : ∀ u < g.nodeCount, ∀ v < g.nodeCount,
    t.SameTree g u v → d.connected u v = .ok true
  components_le : d.components ≤ t.roots.size

/-- The trees are the components. -/
structure FillsComponents (g : Digraph) (t : Traversal) (d : DisjointSet) : Prop where
  connected_iff : ∀ u < g.nodeCount, ∀ v < g.nodeCount, ∃ answer,
    d.connected u v = .ok answer ∧ (answer = true ↔ t.SameTree g u v)
  components_eq : d.components = t.roots.size
  count_cross : t.count .cross = 0

end Traversal

def Edge.reverse (e : Edge) : Edge := ⟨e.head, e.tail⟩

/-- Every edge of the list also occurs in reverse. -/
def ReverseClosed (edges : List Edge) : Prop := ∀ e ∈ edges, e.reverse ∈ edges

instance : DecidablePred ReverseClosed := fun edges =>
  inferInstanceAs (Decidable (∀ e ∈ edges, e.reverse ∈ edges))

namespace Digraph

variable {g : Digraph} {u v : ℕ}

theorem joined_eq_eqvGen (g : Digraph) :
    Joined g.edges.toList = Relation.EqvGen g.HasEdge := by
  have hedge : g.HasEdge = fun a b => ⟨a, b⟩ ∈ g.edges.toList := by
    funext a b
    exact propext hasEdge_iff_mem
  rw [Joined, hedge]

theorem Reaches.joined (h : g.Reaches u v) : Joined g.edges.toList u v := by
  rw [joined_eq_eqvGen]
  exact Relation.EqvGen.reflTransGen_le_eqvGen g.HasEdge u v h

/-- Where every edge can be gone back, nodes that are connected reach each other. -/
theorem reaches_of_joined (hback : ReverseClosed g.edges.toList)
    (h : Joined g.edges.toList u v) : g.Reaches u v ∧ g.Reaches v u := by
  have hsymm : Std.Symm g.HasEdge := ⟨fun a b hedge => by
    rw [hasEdge_iff_mem] at hedge ⊢
    exact hback _ hedge⟩
  have hreaches : Joined g.edges.toList = g.Reaches := by
    rw [joined_eq_eqvGen, Relation.EqvGen.eqvGen_eq_reflTransGen]
    rfl
  rw [← hreaches]
  exact ⟨h, h.symm _ _⟩

end Digraph

namespace Traversal

variable {g : Digraph} {t : Traversal} {u v r r' : ℕ}

theorem SameTree.joined (h : t.SameTree g u v) : Joined g.edges.toList u v := by
  obtain ⟨r, -, hu, hv⟩ := h
  exact (hu.reaches.joined.symm _ _).trans _ _ _ hv.reaches.joined

namespace RootedAtLeast

theorem exists_root (h : t.RootedAtLeast g) (hv : v < g.nodeCount) :
    ∃ r ∈ t.roots, t.Descends g r v := by
  have hleast : IsLeast {q | g.Reaches q v} (sInf {q | g.Reaches q v}) :=
    isLeast_csInf ⟨v, .refl⟩
  obtain ⟨hr, hdescends⟩ := (h.tree_iff v hv _).mpr hleast
  exact ⟨_, hr, hdescends⟩

theorem root_lt (h : t.RootedAtLeast g) (hr : r ∈ t.roots) : r < g.nodeCount :=
  ((h.mem_roots_iff r).mp hr).1

/-- Roots that reach each other are the same. -/
theorem root_eq (h : t.RootedAtLeast g) (hr : r ∈ t.roots) (hr' : r' ∈ t.roots)
    (hreach : g.Reaches r r') (hreach' : g.Reaches r' r) : r = r' := by
  rcases Nat.lt_trichotomy r r' with hlt | heq | hlt
  · exact absurd hreach (((h.mem_roots_iff r').mp hr').2 r hlt)
  · exact heq
  · exact absurd hreach' (((h.mem_roots_iff r).mp hr).2 r' hlt)

/-- Where every edge can be gone back, connected nodes are reached from the same nodes, and so
they are in the same tree. -/
theorem sameTree_iff_joined (h : t.RootedAtLeast g) (hback : ReverseClosed g.edges.toList)
    (hu : u < g.nodeCount) (hv : v < g.nodeCount) :
    t.SameTree g u v ↔ Joined g.edges.toList u v := by
  refine ⟨SameTree.joined, fun hjoined => ?_⟩
  obtain ⟨hthere, hback⟩ := Digraph.reaches_of_joined hback hjoined
  have hsame : {q | g.Reaches q u} = {q | g.Reaches q v} := by
    ext q
    exact ⟨fun hq => Relation.ReflTransGen.trans hq hthere,
      fun hq => Relation.ReflTransGen.trans hq hback⟩
  obtain ⟨r, hr, hdescends⟩ := h.exists_root hu
  have hleast := (h.tree_iff u hu r).mp ⟨hr, hdescends⟩
  rw [hsame] at hleast
  exact ⟨r, hr, hdescends, ((h.tree_iff v hv r).mpr hleast).2⟩

/-- The component of each root. -/
def rootClass (h : t.RootedAtLeast g) (i : Fin t.roots.size) :
    Quotient (joinedSetoid g.nodeCount g.edges.toList) :=
  ⟦⟨t.roots[i], h.root_lt (Array.getElem_mem i.isLt)⟩⟧

/-- Every component has a root. -/
theorem rootClass_surjective (h : t.RootedAtLeast g) : Function.Surjective h.rootClass := by
  intro c
  obtain ⟨⟨v, hv⟩, rfl⟩ := Quotient.exists_rep c
  obtain ⟨r, hr, hdescends⟩ := h.exists_root hv
  obtain ⟨i, hi, rfl⟩ := Array.getElem_of_mem hr
  exact ⟨⟨i, hi⟩, Quotient.sound hdescends.reaches.joined⟩

/-- Where every edge can be gone back, it has only one. -/
theorem rootClass_injective (h : t.RootedAtLeast g) (hback : ReverseClosed g.edges.toList) :
    Function.Injective h.rootClass := by
  intro i j heq
  have hjoined : Joined g.edges.toList t.roots[i] t.roots[j] := Quotient.exact heq
  obtain ⟨hthere, hback⟩ := Digraph.reaches_of_joined hback hjoined
  have hsame := h.root_eq (Array.getElem_mem i.isLt) (Array.getElem_mem j.isLt) hthere hback
  simp only [← Array.getElem_toList] at hsame
  exact Fin.ext (h.ascending.nodup.getElem_inj_iff.mp hsame)

theorem withinComponents {d : DisjointSet} (h : t.RootedAtLeast g)
    (hparts : d.Partitions g.nodeCount g.edges.toList) : t.WithinComponents g d where
  connected_of_sameTree u hu v hv hsame := by
    obtain ⟨answer, hanswer, hiff⟩ := hparts.connected_iff u hu v hv
    rw [hanswer, hiff.mpr hsame.joined]
  components_le := by
    have hle := Nat.card_le_card_of_surjective _ h.rootClass_surjective
    rwa [← hparts.components_eq_classes, Nat.card_fin] at hle

end RootedAtLeast

end Traversal

namespace Spans

variable {g : Digraph} {F : Forest}

/-- With its reverse in the list no edge is a cross edge: the one says that the head was
discovered first, the other one that the tail was. -/
theorem kind?_ne_cross (h : Spans g F) (hg : g.Sound)
    (hback : ReverseClosed g.edges.toList) (i : ℕ) : (traversal g F).kind? i ≠ some .cross := by
  intro hcross
  obtain ⟨e, he⟩ := h.exists_edge_of_kind? hg hcross
  obtain ⟨kind, hkind, hdescribes⟩ := h.exists_kind hg he
  obtain rfl := Option.some.inj (hcross.symm.trans hkind)
  have hmem := hback e (Digraph.mem_edges_of_getElem? he)
  obtain ⟨j, hj⟩ := List.mem_iff_getElem?.mp hmem
  rw [Array.getElem?_toList] at hj
  obtain ⟨kind', -, hdescribes'⟩ := h.exists_kind hg hj
  have hcross' : kind' = .cross :=
    (eq_cross_iff hdescribes').mpr ((eq_cross_iff hdescribes).mp rfl).symm
  rw [hcross'] at hdescribes'
  exact absurd hdescribes'.1 hdescribes.1.not_gt

theorem fillsComponents {d : DisjointSet} (h : Spans g F) (hg : g.Sound)
    (hparts : d.Partitions g.nodeCount g.edges.toList) (hback : ReverseClosed g.edges.toList) :
    (traversal g F).FillsComponents g d where
  connected_iff u hu v hv := by
    obtain ⟨answer, hanswer, hiff⟩ := hparts.connected_iff u hu v hv
    exact ⟨answer, hanswer,
      hiff.trans ((h.rootedAtLeast hg).sameTree_iff_joined hback hu hv).symm⟩
  components_eq := by
    have hroots := h.rootedAtLeast hg
    have hcard := Nat.card_eq_of_bijective _
      ⟨hroots.rootClass_injective hback, hroots.rootClass_surjective⟩
    rw [hparts.components_eq_classes, ← hcard, Nat.card_fin]
  count_cross := by
    rw [Traversal.count, Array.count_eq_zero]
    intro hcross
    obtain ⟨i, hi⟩ := Array.mem_iff_getElem?.mp hcross
    exact h.kind?_ne_cross hg hback i hi

end Spans

/-- The trees of the search lie in the components of the disjoint set that is made from the same
edges. With the reverses of all edges in the list they are the components, and there is no cross
edge. -/
theorem exists_withinComponents_of_build [Memory] {nodeCount : ℕ} {edges : List Edge} {g : Digraph}
    {d : DisjointSet} (h : Digraph.build nodeCount edges = .ok g)
    (hd : DisjointSet.ofEdges nodeCount edges = .ok d) :
    g.nodeCount = nodeCount ∧ ∃ t, classify g = .ok t ∧ t.WithinComponents g d ∧
      (ReverseClosed edges → t.FillsComponents g d) := by
  have hparts := DisjointSet.partitions_of_ofEdges hd
  obtain ⟨F, hF, hg, rfl, rfl, hclassify⟩ := exists_spans_of_build h
  exact ⟨rfl, _, hclassify, (hF.rootedAtLeast hg).withinComponents hparts,
    hF.fillsComponents hg hparts⟩

/-- Two pairs and a loop, each of which can be gone back. -/
def thereAndBack : List Edge := [⟨0, 2⟩, ⟨3, 1⟩, ⟨2, 0⟩, ⟨1, 3⟩, ⟨2, 2⟩]

theorem exists_withinComponents_thereAndBack :
    DisjointSet.ofEdges 5 thereAndBack = .ok ⟨#[0, 3, 0, 3, 4], 3⟩ ∧ ReverseClosed thereAndBack ∧
      ∃ g t, Digraph.build 5 thereAndBack = .ok g ∧ classify g = .ok t ∧
        t.WithinComponents g ⟨#[0, 3, 0, 3, 4], 3⟩ ∧
        t.FillsComponents g ⟨#[0, 3, 0, 3, 4], 3⟩ := by
  have hd : DisjointSet.ofEdges 5 thereAndBack = .ok ⟨#[0, 3, 0, 3, 4], 3⟩ := by decide
  have hback : ReverseClosed thereAndBack := by decide
  obtain ⟨g, h⟩ : ∃ g, Digraph.build 5 thereAndBack = .ok g :=
    Digraph.exists_build_iff.mpr (by decide)
  obtain ⟨-, t, hclassify, hwithin, hfills⟩ := exists_withinComponents_of_build h hd
  exact ⟨hd, hback, g, t, h, hclassify, hwithin, hfills hback⟩

end ClassicAlgorithms
