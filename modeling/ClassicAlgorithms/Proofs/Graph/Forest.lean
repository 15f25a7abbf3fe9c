import ClassicAlgorithms.Proofs.Graph.Build
import Mathlib.Data.Finset.Card
import Mathlib.Data.Finset.Range
import Mathlib.Data.List.Nodup

/-!
# Depth-first forests

The course of a depth-first search as a value of its own, without numbers,
colours or a stack: which arc found a new node, what was explored below that
node, and which arc led to a node seen before. `Explores` is the depth-first
rule itself. It is the common ground of the two searches, which both follow the
one forest of the graph, and the structure that later inductions run along.
-/
namespace ClassicAlgorithms

/-- A way into a node: the seed of a tree, or an edge with its position. -/
inductive Arc where
  | seed (head : ℕ)
  | along (position : ℕ) (edge : Edge)
deriving DecidableEq

namespace Arc

def head : Arc → ℕ
  | seed head => head
  | along _ e => e.head

def position? : Arc → Option ℕ
  | seed _ => none
  | along i _ => some i

end Arc

/-- Where one of two partial functions has a value exactly when the other has none, a list is
as long as the two lists of their values. -/
theorem length_eq_length_filterMap_add {α β γ : Type} (l : List α) (f : α → Option β)
    (f' : α → Option γ) (h : ∀ a, (f a).isSome = !(f' a).isSome) :
    l.length = (l.filterMap f).length + (l.filterMap f').length := by
  induction l with
  | nil => rfl
  | cons a rest ih =>
    have ha := h a
    cases hf : f a with
    | none =>
      obtain ⟨c, hc⟩ : ∃ c, f' a = some c := Option.isSome_iff_exists.mp (by simpa [hf] using ha)
      rw [List.filterMap_cons_none hf, List.filterMap_cons_some hc, List.length_cons, ih,
        List.length_cons]
      omega
    | some b =>
      have hnone : f' a = none := by simpa [hf] using ha
      rw [List.filterMap_cons_some hf, List.filterMap_cons_none hnone, List.length_cons, ih,
        List.length_cons]
      omega

namespace Digraph

/-- The arcs out of `node`, in the order in which a traversal explores them. -/
def arcs (g : Digraph) (node : ℕ) : List Arc :=
  (leaving g.edges.toList node).map fun p => .along p.2 p.1

/-- A seed at every node, in ascending order. -/
def seeds (g : Digraph) : List Arc := (List.range g.nodeCount).map .seed

theorem mem_arcs {g : Digraph} {node : ℕ} {a : Arc} :
    a ∈ g.arcs node ↔ ∃ i e, g.edges[i]? = some e ∧ e.tail = node ∧ a = .along i e := by
  simp only [arcs, List.mem_map, mem_leaving, Prod.exists, Array.getElem?_toList]
  constructor
  · rintro ⟨e, i, ⟨hi, ht⟩, rfl⟩
    exact ⟨i, e, hi, ht, rfl⟩
  · rintro ⟨i, e, hi, ht, rfl⟩
    exact ⟨e, i, ⟨hi, ht⟩, rfl⟩

theorem filterMap_position?_arcs (g : Digraph) (node : ℕ) :
    (g.arcs node).filterMap Arc.position? = (leaving g.edges.toList node).map Prod.snd := by
  simp [arcs, List.filterMap_map, Function.comp_def, Arc.position?]

theorem Sound.arc_head_lt {g : Digraph} (hg : g.Sound) {node : ℕ} {a : Arc}
    (ha : a ∈ g.arcs node) : a.head < g.nodeCount := by
  obtain ⟨i, e, hi, -, rfl⟩ := mem_arcs.mp ha
  exact hg.head_lt_of_getElem? hi

end Digraph

/-- Each arc in the order of examination. An arc that grows carries what was
explored below its head; `rest` goes on with the next arc of the same node. -/
inductive Forest where
  | nil
  | skip (arc : Arc) (rest : Forest)
  | grow (arc : Arc) (below rest : Forest)

namespace Forest

/-- The nodes in the order of discovery. -/
def nodes : Forest → List ℕ
  | nil => []
  | skip _ rest => rest.nodes
  | grow a below rest => a.head :: (below.nodes ++ rest.nodes)

/-- The nodes in the order in which their last arc was done with. -/
def finishes : Forest → List ℕ
  | nil => []
  | skip _ rest => rest.finishes
  | grow a below rest => below.finishes ++ a.head :: rest.finishes

/-- The arcs in the order of examination. -/
def arcs : Forest → List Arc
  | nil => []
  | skip a rest => a :: rest.arcs
  | grow a below rest => a :: (below.arcs ++ rest.arcs)

/-- The arcs that found a new node. -/
def grown : Forest → List Arc
  | nil => []
  | skip _ rest => rest.grown
  | grow a below rest => a :: (below.grown ++ rest.grown)

/-- The arcs of `F` first, then those of the other forest. -/
def append : Forest → Forest → Forest
  | nil, other => other
  | skip a rest, other => skip a (rest.append other)
  | grow a below rest, other => grow a below (rest.append other)

@[simp] theorem nodes_append (F other : Forest) :
    (F.append other).nodes = F.nodes ++ other.nodes := by
  induction F with
  | nil => rfl
  | skip a rest ih => exact ih
  | grow a below rest _ ih => simp [append, nodes, ih]

@[simp] theorem finishes_append (F other : Forest) :
    (F.append other).finishes = F.finishes ++ other.finishes := by
  induction F with
  | nil => rfl
  | skip a rest ih => exact ih
  | grow a below rest _ ih => simp [append, finishes, ih]

@[simp] theorem grown_append (F other : Forest) :
    (F.append other).grown = F.grown ++ other.grown := by
  induction F with
  | nil => rfl
  | skip a rest ih => exact ih
  | grow a below rest _ ih => simp [append, grown, ih]

theorem finishes_perm (F : Forest) : F.finishes.Perm F.nodes := by
  induction F with
  | nil => exact .nil
  | skip a rest ih => exact ih
  | grow a below rest ihb ihr =>
    calc
      below.finishes ++ a.head :: rest.finishes
      _ |>.Perm (a.head :: (below.finishes ++ rest.finishes)) := List.perm_middle
      _ |>.Perm (a.head :: (below.nodes ++ rest.nodes)) := (ihb.append ihr).cons _

@[simp] theorem mem_finishes {F : Forest} {v : ℕ} : v ∈ F.finishes ↔ v ∈ F.nodes :=
  F.finishes_perm.mem_iff

theorem grown_sublist (F : Forest) : F.grown.Sublist F.arcs := by
  induction F with
  | nil => exact .slnil
  | skip a rest ih => exact ih.cons a
  | grow a below rest ihb ihr => exact (ihb.append ihr).cons_cons a

theorem map_head_grown (F : Forest) : F.grown.map Arc.head = F.nodes := by
  induction F with
  | nil => rfl
  | skip a rest ih => exact ih
  | grow a below rest ihb ihr => simp [grown, nodes, ihb, ihr]

end Forest

/-- The depth-first rule: with the nodes of `seen` discovered, the arcs are taken
in order, and a new head is explored to the end before the next arc. -/
inductive Explores (g : Digraph) : (seen : List ℕ) → (arcs : List Arc) → Forest → Prop
  | nil {seen} : Explores g seen [] .nil
  | skip {seen a arcs rest} (hseen : a.head ∈ seen) (hrest : Explores g seen arcs rest) :
      Explores g seen (a :: arcs) (.skip a rest)
  | grow {seen a arcs below rest} (hnew : a.head ∉ seen)
      (hbelow : Explores g (seen ++ [a.head]) (g.arcs a.head) below)
      (hrest : Explores g (seen ++ a.head :: below.nodes) arcs rest) :
      Explores g seen (a :: arcs) (.grow a below rest)

namespace Explores

variable {g : Digraph} {seen : List ℕ} {arcs : List Arc} {F : Forest}

theorem fresh (h : Explores g seen arcs F) : ∀ v ∈ F.nodes, v ∉ seen := by
  induction h with
  | nil => simp [Forest.nodes]
  | skip hseen hrest ih => exact ih
  | grow hnew hbelow hrest ihb ihr =>
    intro v hv
    simp only [Forest.nodes, List.mem_cons, List.mem_append] at hv
    rcases hv with rfl | hv | hv
    · exact hnew
    · exact fun hs => ihb v hv (List.mem_append_left _ hs)
    · exact fun hs => ihr v hv (List.mem_append_left _ hs)

theorem nodes_nodup (h : Explores g seen arcs F) : F.nodes.Nodup := by
  induction h with
  | nil => simp [Forest.nodes]
  | skip hseen hrest ih => exact ih
  | @grow seen a arcs below rest hnew hbelow hrest ihb ihr =>
    have hb : a.head ∉ below.nodes := fun h => hbelow.fresh _ h (by simp)
    have hr : a.head ∉ rest.nodes := fun h => hrest.fresh _ h (by simp)
    have hdisjoint : below.nodes.Disjoint rest.nodes :=
      fun v hvb hvr => hrest.fresh v hvr (by simp [hvb])
    simp only [Forest.nodes, List.nodup_cons, List.mem_append, not_or]
    exact ⟨⟨hb, hr⟩, ihb.append ihr hdisjoint⟩

theorem finishes_nodup (h : Explores g seen arcs F) : F.finishes.Nodup :=
  F.finishes_perm.nodup_iff.mpr h.nodes_nodup

/-- Every arc is examined, and so is every arc out of a discovered node. -/
theorem arcs_perm (h : Explores g seen arcs F) :
    F.arcs.Perm (arcs ++ F.nodes.flatMap g.arcs) := by
  induction h with
  | nil => exact .nil
  | skip hseen hrest ih => exact ih.cons _
  | @grow seen a arcs below rest hnew hbelow hrest ihb ihr =>
    simp only [Forest.arcs, Forest.nodes, List.flatMap_cons, List.flatMap_append,
      List.cons_append]
    refine List.Perm.cons _ ((ihb.append ihr).trans ?_)
    rw [← List.append_assoc (g.arcs a.head)]
    exact List.perm_append_comm_assoc _ _ _

theorem head_mem (h : Explores g seen arcs F) :
    ∀ a ∈ arcs, a.head ∈ seen ∨ a.head ∈ F.nodes := by
  induction h with
  | nil => simp
  | skip hseen hrest ih =>
    intro b hb
    rcases List.mem_cons.mp hb with rfl | hb
    · exact Or.inl hseen
    · exact ih b hb
  | grow hnew hbelow hrest ihb ihr =>
    intro b hb
    rcases List.mem_cons.mp hb with rfl | hb
    · exact Or.inr (by simp [Forest.nodes])
    · have := ihr b hb
      simp only [List.mem_append, List.mem_cons, Forest.nodes] at this ⊢
      tauto

/-- The later arcs are explored with what the earlier ones have discovered. -/
theorem append {arcs' : List Arc} {F' : Forest} (h : Explores g seen arcs F)
    (h' : Explores g (seen ++ F.nodes) arcs' F') :
    Explores g seen (arcs ++ arcs') (F.append F') := by
  induction h with
  | nil => simpa [Forest.nodes, Forest.append] using h'
  | skip hseen _ ih => exact .skip hseen (ih h')
  | grow hnew hbelow _ _ ih => exact .grow hnew hbelow (ih (by simpa [Forest.nodes] using h'))

/-- What holds of the heads of all arcs and passes from tail to head holds of all nodes found. -/
theorem forall_nodes {P : ℕ → Prop} (h : Explores g seen arcs F)
    (hclosed : ∀ v, P v → ∀ a ∈ g.arcs v, P a.head) (harcs : ∀ a ∈ arcs, P a.head) :
    ∀ v ∈ F.nodes, P v := by
  induction h with
  | nil => simp [Forest.nodes]
  | skip hseen hrest ih => exact ih fun b hb => harcs b (List.mem_cons_of_mem _ hb)
  | grow hnew hbelow hrest ihb ihr =>
    intro v hv
    have hhead := harcs _ List.mem_cons_self
    simp only [Forest.nodes, List.mem_cons, List.mem_append] at hv
    rcases hv with rfl | hv | hv
    · exact hhead
    · exact ihb (hclosed _ hhead) v hv
    · exact ihr (fun b hb => harcs b (List.mem_cons_of_mem _ hb)) v hv

theorem nodes_lt (h : Explores g seen arcs F) (hg : g.Sound)
    (harcs : ∀ a ∈ arcs, a.head < g.nodeCount) : ∀ v ∈ F.nodes, v < g.nodeCount :=
  h.forall_nodes (fun _ _ _ ha => hg.arc_head_lt ha) harcs

end Explores

/-- The nodes of the graph that are still to be discovered. -/
def Digraph.unseen (g : Digraph) (seen : List ℕ) : Finset ℕ :=
  Finset.range g.nodeCount \ seen.toFinset

theorem Digraph.card_unseen_append_lt (g : Digraph) {seen : List ℕ} {v : ℕ}
    (hv : v < g.nodeCount) (hnew : v ∉ seen) (more : List ℕ) :
    (g.unseen (seen ++ v :: more)).card < (g.unseen seen).card := by
  apply Finset.card_lt_card
  rw [Finset.ssubset_iff_of_subset]
  · exact ⟨v, by simp [unseen, hv, hnew], by simp [unseen]⟩
  · intro w hw
    simp only [unseen, Finset.mem_sdiff, List.mem_toFinset, List.mem_append, not_or] at hw ⊢
    exact ⟨hw.1, hw.2.1⟩

/-- There is always a forest: each arc either leads to a seen node or leaves fewer
nodes unseen. -/
theorem exists_explores {g : Digraph} (hg : g.Sound) (seen : List ℕ) (arcs : List Arc)
    (harcs : ∀ a ∈ arcs, a.head < g.nodeCount) : ∃ F, Explores g seen arcs F := by
  match arcs with
  | [] => exact ⟨.nil, .nil⟩
  | a :: arcs =>
    have hrest : ∀ b ∈ arcs, b.head < g.nodeCount := fun b hb => harcs b (List.mem_cons_of_mem _ hb)
    by_cases hseen : a.head ∈ seen
    · obtain ⟨rest, h⟩ := exists_explores hg seen arcs hrest
      exact ⟨.skip a rest, .skip hseen h⟩
    · have hlt := g.card_unseen_append_lt (harcs a List.mem_cons_self) hseen
      have := hlt []
      obtain ⟨below, hb⟩ := exists_explores hg (seen ++ [a.head]) (g.arcs a.head)
        fun b hb => hg.arc_head_lt hb
      have := hlt below.nodes
      obtain ⟨rest, hr⟩ := exists_explores hg (seen ++ a.head :: below.nodes) arcs hrest
      exact ⟨.grow a below rest, .grow hseen hb hr⟩
termination_by ((g.unseen seen).card, arcs.length)
decreasing_by
  · exact Prod.Lex.right _ (by simp)
  · exact Prod.Lex.left _ _ (by assumption)
  · exact Prod.Lex.left _ _ (by assumption)

/-- The forest of the whole graph: a tree is seeded at every node that no earlier
tree has reached. -/
def Spans (g : Digraph) (F : Forest) : Prop := Explores g [] g.seeds F

theorem exists_spans {g : Digraph} (hg : g.Sound) : ∃ F, Spans g F :=
  exists_explores hg [] g.seeds (by simp [Digraph.seeds, Arc.head])

namespace Spans

variable {g : Digraph} {F : Forest}

theorem mem_nodes (h : Spans g F) (hg : g.Sound) {v : ℕ} : v ∈ F.nodes ↔ v < g.nodeCount := by
  constructor
  · exact Explores.nodes_lt h hg (by simp [Digraph.seeds, Arc.head]) v
  · intro hv
    have := Explores.head_mem h (.seed v) (by simpa [Digraph.seeds] using hv)
    simpa [Arc.head] using this

theorem nodes_perm (h : Spans g F) (hg : g.Sound) : F.nodes.Perm (List.range g.nodeCount) :=
  (List.perm_ext_iff_of_nodup (Explores.nodes_nodup h) List.nodup_range).mpr fun v => by
    rw [h.mem_nodes hg, List.mem_range]

/-- Every edge is examined exactly once. -/
theorem positions_perm (h : Spans g F) (hg : g.Sound) :
    (F.arcs.filterMap Arc.position?).Perm (List.range g.edgeCount) := by
  have hseeds : g.seeds.filterMap Arc.position? = [] := by
    simp [Digraph.seeds, Arc.position?, List.filterMap_map, Function.comp_def]
  calc
    F.arcs.filterMap Arc.position?
    _ |>.Perm ((g.seeds ++ F.nodes.flatMap g.arcs).filterMap Arc.position?) :=
      (Explores.arcs_perm h).filterMap _
    _ = F.nodes.flatMap fun v => (leaving g.edges.toList v).map Prod.snd := by
      simp [hseeds, List.filterMap_flatMap, g.filterMap_position?_arcs]
    _ |>.Perm ((List.range g.nodeCount).flatMap fun v =>
        (leaving g.edges.toList v).map Prod.snd) := (h.nodes_perm hg).flatMap_right _
    _ |>.Perm (List.range g.edgeCount) := hg.positions_perm

end Spans

end ClassicAlgorithms
