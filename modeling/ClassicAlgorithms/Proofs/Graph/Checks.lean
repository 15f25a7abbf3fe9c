import ClassicAlgorithms.Graph.Checks
import ClassicAlgorithms.Proofs.Graph.ColourSearch
import ClassicAlgorithms.Proofs.Graph.Cycles
import ClassicAlgorithms.Proofs.Graph.SpanningForest
import Mathlib.Data.List.Sort

/-!
# What makes a check fail

The checks compare the search with a second search and look the order of discovery, the
tree edges and the roots over again, each for itself. On a graph none of that ever goes
wrong. What is left is a fixture that describes no graph, and a cycle in one that claims
to have none.
-/
namespace ClassicAlgorithms

section
variable {ε α β : Type}

theorem exists_eq_error_iff {x : Except ε Unit} : (∃ e, x = .error e) ↔ x ≠ .ok () := by
  cases x <;> simp

theorem seq_eq_ok_iff {x : Except ε Unit} {f : Unit → Except ε β} {b : β} :
    x >>= f = .ok b ↔ x = .ok () ∧ f () = .ok b := by
  cases x <;> simp [bind, Except.bind]

/-- A check of all elements succeeds when it succeeds on each of them. -/
theorem forM_eq_ok_iff {l : List α} {f : α → Except ε Unit} :
    l.forM f = .ok () ↔ ∀ a ∈ l, f a = .ok () := by
  induction l with
  | nil => simp [List.forM, pure, Except.pure]
  | cons a l ih =>
    show (f a >>= fun _ => l.forM f) = .ok () ↔ _
    rw [seq_eq_ok_iff, ih, List.forall_mem_cons]

/-- What is found at one position only is counted once. -/
theorem countP_eq_one {l : List α} {p : α → Bool}
    (h : ∃! i : ℕ, ∃ a, l[i]? = some a ∧ p a) : l.countP p = 1 := by
  induction l with
  | nil => simp at h
  | cons a l ih =>
    obtain ⟨i, ⟨b, hb, hpb⟩, honly⟩ := h
    by_cases hp : p a
    · have hzero : 0 = i := honly 0 ⟨a, rfl, hp⟩
      have hrest : l.countP p = 0 := by
        rw [List.countP_eq_zero]
        intro c hc hpc
        obtain ⟨j, hj⟩ := List.mem_iff_getElem?.mp hc
        have := honly (j + 1) ⟨c, hj, hpc⟩
        omega
      rw [List.countP_cons_of_pos hp, hrest]
    · rw [List.countP_cons_of_neg hp]
      cases i with
      | zero =>
        obtain rfl : a = b := Option.some.inj hb
        exact absurd hpb hp
      | succ i =>
        refine ih ⟨i, ⟨b, hb, hpb⟩, ?_⟩
        rintro j ⟨c, hc, hpc⟩
        have := honly (j + 1) ⟨c, hc, hpc⟩
        omega

end

theorem mergeSort_eq_range {l : List ℕ} {n : ℕ} (h : l.Perm (List.range n)) :
    l.mergeSort (· ≤ ·) = List.range n :=
  ((List.mergeSort_perm l _).trans h).eq_of_sortedLE List.sortedLE_mergeSort
    (List.sortedLT_range n).sortedLE

namespace Fixture

/-- The fixture describes no graph. -/
def Rejected [Memory] (f : Fixture) : Prop :=
  ∃ error, Digraph.build f.nodeCount f.edges = .error error

/-- Along the edges of the list, some path of at least one edge comes back to its first node. A
self-loop is such a path. -/
def HasCycle (f : Fixture) : Prop :=
  ∃ v, Relation.TransGen (fun u w => (⟨u, w⟩ : Edge) ∈ f.edges) v v

variable {f : Fixture} {g : Digraph} {F : Forest} {u v : ℕ}

theorem not_rejected [Memory] (h : Digraph.build f.nodeCount f.edges = .ok g) : ¬ f.Rejected := by
  rintro ⟨error, herror⟩
  rw [h] at herror
  cases herror

/-- The cycles of the graph are those of the list. -/
theorem hasCycle_iff (hedges : g.edges.toList = f.edges) : f.HasCycle ↔ g.Cyclic := by
  have hedge : g.HasEdge = fun u w => (⟨u, w⟩ : Edge) ∈ f.edges := by
    funext u w
    rw [eq_iff_iff, Digraph.hasEdge_iff_mem, hedges]
  rw [HasCycle, Digraph.Cyclic, hedge]

/-- An edge is listed with its kind at its own position. -/
theorem getElem?_kinds (hedges : g.edges.toList = f.edges) {t : Traversal} {i : ℕ} {e : Edge}
    {k : EdgeKind} :
    (f.kinds t)[i]? = some (e, k) ↔ g.edges[i]? = some e ∧ t.kind? i = some k := by
  rw [kinds, List.getElem?_zip_eq_some, ← hedges, Array.getElem?_toList, Array.getElem?_toList]
  rfl

theorem mem_treeEdges (hedges : g.edges.toList = f.edges) {t : Traversal} {e : Edge} :
    e ∈ f.treeEdges t ↔ ∃ i, g.edges[i]? = some e ∧ t.kind? i = some .tree := by
  rw [treeEdges, List.mem_filterMap]
  constructor
  · rintro ⟨⟨d, k⟩, hmem, hd⟩
    obtain ⟨i, hi⟩ := List.mem_iff_getElem?.mp hmem
    dsimp only at hd
    split_ifs at hd with hk
    obtain rfl : d = e := Option.some.inj hd
    obtain rfl : k = .tree := hk
    exact ⟨i, (getElem?_kinds hedges).mp hi⟩
  · rintro ⟨i, hi⟩
    have hmem := List.mem_of_getElem? ((getElem?_kinds hedges).mpr hi)
    exact ⟨(e, .tree), hmem, if_pos rfl⟩

/-- The tree edges into a node are counted among all edges. -/
theorem countP_treeEdges (f : Fixture) (t : Traversal) (v : ℕ) :
    (f.treeEdges t).countP (fun e => e.head = v) =
      (f.kinds t).countP fun (e, k) => k = .tree ∧ e.head = v := by
  rw [treeEdges, List.countP_filterMap]
  congr 1
  funext ⟨e, k⟩
  by_cases hk : k = .tree <;> simp [hk]

/-- The position of a tree edge into `v` holds an edge that is counted for `v`. -/
theorem treeInto_iff (hedges : g.edges.toList = f.edges) {t : Traversal} {i : ℕ} :
    t.TreeInto g i v ↔ ∃ p, (f.kinds t)[i]? = some p ∧ (p.2 = .tree ∧ p.1.head = v) := by
  unfold Traversal.TreeInto
  constructor
  · rintro ⟨e, he, hk, hhead⟩
    exact ⟨(e, .tree), (getElem?_kinds hedges).mpr ⟨he, hk⟩, rfl, hhead⟩
  · rintro ⟨⟨e, k⟩, hi, rfl, hhead⟩
    obtain ⟨he, hk⟩ := (getElem?_kinds hedges).mp hi
    exact ⟨e, he, hk, hhead⟩

/-- A root has no tree edge into it, and each other node has one. -/
theorem countP_treeEdges_eq (hedges : g.edges.toList = f.edges) {t : Traversal}
    (ht : t.SpanningForest g) (hv : v < g.nodeCount) :
    (f.treeEdges t).countP (fun e => e.head = v) = if v ∈ t.roots then 0 else 1 := by
  rw [countP_treeEdges]
  split_ifs with hroot
  · rw [List.countP_eq_zero]
    intro p hp htree
    obtain ⟨i, hi⟩ := List.mem_iff_getElem?.mp hp
    have hinto : t.TreeInto g i v := (treeInto_iff hedges).mpr ⟨p, hi, by simpa using htree⟩
    exact ht.not_treeInto_root v hroot i hinto
  · apply countP_eq_one
    have hunique := ht.existsUnique_treeInto v hv hroot
    simpa only [treeInto_iff hedges, decide_eq_true_eq] using hunique

end Fixture

namespace Spans

variable {f : Fixture} {g : Digraph} {F : Forest} {u v r : ℕ}

theorem precedes_iff (hu : u < g.nodeCount) (hv : v < g.nodeCount) :
    (traversal g F).precedes u v = true ↔ numberIn F.nodes u < numberIn F.nodes v := by
  rw [Traversal.precedes, preorder?_eq_some_iff.mpr ⟨hu, rfl⟩,
    preorder?_eq_some_iff.mpr ⟨hv, rfl⟩]
  simp

theorem checkRoots_eq_ok (h : Spans g F) (hg : g.Sound) :
    Fixture.checkRoots (traversal g F) = .ok () := by
  unfold Fixture.checkRoots
  rw [seq_eq_ok_iff, ensure_eq_ok_iff, forM_eq_ok_iff]
  refine ⟨(h.rootedAtLeast hg).first_eq, ?_⟩
  intro r hr
  rw [forM_eq_ok_iff]
  intro v hv
  have hlt : v < r := List.mem_range.mp hv
  rw [roots_traversal] at hr
  have hrlt := h.root_lt_nodeCount hg hr
  rw [ensure_eq_ok_iff, precedes_iff hrlt (hlt.trans hrlt)]
  intro hearlier
  exact absurd (h.root_le_of_discovered_le hr hearlier.le) hlt.not_ge

theorem precedes_of_mem_treeEdges (h : Spans g F) (hg : g.Sound)
    (hedges : g.edges.toList = f.edges) {e : Edge} (he : e ∈ f.treeEdges (traversal g F)) :
    (traversal g F).precedes e.tail e.head = true := by
  obtain ⟨i, hi, htree⟩ := (Fixture.mem_treeEdges hedges).mp he
  rw [precedes_iff (hg.tail_lt_of_getElem? hi) (hg.head_lt_of_getElem? hi)]
  exact h.discovered_lt_of_link hg ((h.treeEdge_iff hg).mp ⟨i, e, hi, htree, rfl, rfl⟩)

/-- A self-loop is a back edge. -/
theorem eq_back_of_isSelfLoop (h : Spans g F) (hg : g.Sound) (hedges : g.edges.toList = f.edges)
    {e : Edge} {k : EdgeKind} (hmem : (e, k) ∈ f.kinds (traversal g F))
    (hloop : e.isSelfLoop = true) : k = .back := by
  obtain ⟨i, hi⟩ := List.mem_iff_getElem?.mp hmem
  obtain ⟨he, hk⟩ := (Fixture.getElem?_kinds hedges).mp hi
  obtain ⟨k', hk', hdescribes⟩ := h.exists_kind hg he
  obtain rfl : k = k' := Option.some.inj (hk.symm.trans hk')
  rw [h.eq_back_iff hg he hdescribes]
  left
  exact (beq_iff_eq.mp hloop).symm

end Spans

namespace Fixture

variable {f : Fixture} {g : Digraph}

/-- Without a graph, every check fails for that reason. -/
theorem check_eq_error [Memory] {error : GraphError} {check : Fixture → Except CheckFailure Unit}
    (h : Digraph.build f.nodeCount f.edges = .error error) (hcheck : check ∈ checks) :
    check f = .error (.rejected error) := by
  have htraversal : f.traversal = .error (.rejected error) := by
    rw [traversal, h]
  simp only [checks, List.mem_cons, List.not_mem_nil, or_false] at hcheck
  rcases hcheck with rfl | rfl | rfl | rfl
  · rw [checkAgreement, htraversal]
    rfl
  · rw [checkForest, htraversal]
    rfl
  · rw [checkKinds, htraversal]
    rfl
  · rw [checkRepetition, htraversal]
    rfl

theorem traversal_eq_ok [Memory] (h : Digraph.build f.nodeCount f.edges = .ok g) {t : Traversal}
    (hclassify : classify g = .ok t) : f.traversal = .ok t := by
  rw [traversal, h]
  show (classify g).mapError _ = _
  rw [hclassify]
  rfl

theorem checkAgreement_eq_ok [Memory] (h : Digraph.build f.nodeCount f.edges = .ok g) :
    f.checkAgreement = .ok () := by
  obtain ⟨F, hF, hg, hcount, hedges, hclassify⟩ := exists_spans_of_build h
  have hrows := (Digraph.sound_of_build h).2.2.2.not_overflows
  have hcolours : classifyByColour f.nodeCount f.edges = .ok (Spans.traversal g F) := by
    rw [← hcount] at hrows
    rw [← hcount, ← hedges, hF.classifyByColour_eq hg hrows, hF.play_byColour, Spans.traversal]
  unfold checkAgreement
  rw [traversal_eq_ok h hclassify, hcolours]
  show (ensure _ _ >>= fun _ => List.forM _ _) = Except.ok ()
  rw [seq_eq_ok_iff, ensure_eq_ok_iff, forM_eq_ok_iff]
  refine ⟨⟨rfl, rfl⟩, ?_⟩
  intro v _
  rw [ensure_eq_ok_iff]
  exact ⟨rfl, rfl⟩

theorem checkForest_eq_ok [Memory] (h : Digraph.build f.nodeCount f.edges = .ok g) :
    f.checkForest = .ok () := by
  obtain ⟨F, hF, hg, hcount, hedges, hclassify⟩ := exists_spans_of_build h
  have ht := hF.spanningForest hg
  unfold checkForest
  rw [traversal_eq_ok h hclassify, ← hcount]
  show (ensure _ _ >>= fun _ => List.forM _ _ >>= fun _ => List.forM _ _ >>= fun _ =>
    ensure _ _ >>= fun _ => checkRoots _) = Except.ok ()
  simp only [seq_eq_ok_iff, forM_eq_ok_iff, ensure_eq_ok_iff]
  refine ⟨mergeSort_eq_range ht.discovery_perm, ?_, ?_, ?_, hF.checkRoots_eq_ok hg⟩
  · intro e he
    exact hF.precedes_of_mem_treeEdges hg hedges he
  · intro v hv
    exact countP_treeEdges_eq hedges ht (List.mem_range.mp hv)
  · have := ht.count_tree
    omega

theorem checkKinds_eq_ok_iff [Memory] (h : Digraph.build f.nodeCount f.edges = .ok g) :
    f.checkKinds = .ok () ↔ (f.topology = .acyclic → ¬ f.HasCycle) := by
  obtain ⟨F, hF, hg, -, hedges, hclassify⟩ := exists_spans_of_build h
  unfold checkKinds
  rw [traversal_eq_ok h hclassify]
  show (List.forM _ _ >>= fun _ => ensure _ _) = Except.ok () ↔ _
  rw [seq_eq_ok_iff, forM_eq_ok_iff, ensure_eq_ok_iff,
    (hF.detectsCycles hg).count_back_eq_zero_iff, hasCycle_iff hedges]
  apply and_iff_right
  rintro ⟨e, k⟩ hmem
  rw [ensure_eq_ok_iff]
  exact hF.eq_back_of_isSelfLoop hg hedges hmem

theorem checkRepetition_eq_ok [Memory] (h : Digraph.build f.nodeCount f.edges = .ok g) :
    f.checkRepetition = .ok () := by
  obtain ⟨F, -, -, -, -, hclassify⟩ := exists_spans_of_build h
  unfold checkRepetition
  rw [traversal_eq_ok h hclassify]
  show ensure _ _ = Except.ok ()
  rw [ensure_eq_ok_iff]

/-- Which fixtures fail which check; where there is no graph, the reason is always that. -/
structure FailsExactly [Memory] (f : Fixture) : Prop where
  agreement : (∃ failure, f.checkAgreement = .error failure) ↔ f.Rejected
  forest : (∃ failure, f.checkForest = .error failure) ↔ f.Rejected
  kinds : (∃ failure, f.checkKinds = .error failure) ↔
    f.Rejected ∨ f.topology = .acyclic ∧ f.HasCycle
  repetition : (∃ failure, f.checkRepetition = .error failure) ↔ f.Rejected
  rejected : ∀ error, Digraph.build f.nodeCount f.edges = .error error →
    ∀ check ∈ checks, check f = .error (.rejected error)

/-- A check fails on a fixture that describes no graph. Apart from that only the check of kinds
ever fails, and it does so on a cycle where the topology promises none. -/
theorem failsExactly [Memory] (f : Fixture) : f.FailsExactly := by
  cases h : Digraph.build f.nodeCount f.edges with
  | error error =>
    have hrejected : f.Rejected := ⟨error, h⟩
    exact {
      agreement := iff_of_true ⟨_, check_eq_error h (by simp [checks])⟩ hrejected
      forest := iff_of_true ⟨_, check_eq_error h (by simp [checks])⟩ hrejected
      kinds := iff_of_true ⟨_, check_eq_error h (by simp [checks])⟩ (Or.inl hrejected)
      repetition := iff_of_true ⟨_, check_eq_error h (by simp [checks])⟩ hrejected
      rejected := fun _ h' _ hcheck => check_eq_error h' hcheck }
  | ok g =>
    have hsound := not_rejected h
    exact {
      agreement := by simp [checkAgreement_eq_ok h, hsound]
      forest := by simp [checkForest_eq_ok h, hsound]
      kinds := by
        rw [exists_eq_error_iff, ne_eq, checkKinds_eq_ok_iff h]
        simp [hsound]
      repetition := by simp [checkRepetition_eq_ok h, hsound]
      rejected := fun _ h' _ hcheck => check_eq_error h' hcheck }

example : (⟨.acyclic, 2, [⟨0, 1⟩, ⟨1, 1⟩]⟩ : Fixture).checkKinds = .error (.backEdges 1) := by
  cbv

example : (⟨.multigraph, 2, [⟨0, 1⟩, ⟨1, 1⟩]⟩ : Fixture).checkKinds = .ok () := by cbv

end Fixture

end ClassicAlgorithms
