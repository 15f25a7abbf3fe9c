import ClassicAlgorithms.Proofs.Graph.Path
import Mathlib.Logic.Relation

/-!
# Descendants and numbers

In a depth-first forest a node is below another one exactly when its two numbers
lie between those of the other: it was discovered later and finished earlier.
The kind of an edge, decided in the middle of the search, fixes how the numbers of
its endpoints compare at the end.
-/
namespace ClassicAlgorithms

namespace Forest

/-- An edge from `u` has found `v`. -/
def Link (F : Forest) (u v : ℕ) : Prop :=
  ∃ i e, Arc.along i e ∈ F.grown ∧ e.tail = u ∧ e.head = v

/-- A path of edges that found their heads leads from `u` to `v`. -/
def Reaches (F : Forest) : ℕ → ℕ → Prop := Relation.ReflTransGen F.Link

/-- The time of `v` lies within the time of `u`: it is not discovered before and
not finished after `u`. -/
structure Encloses (F : Forest) (u v : ℕ) : Prop where
  discovered_le : numberIn F.nodes u ≤ numberIn F.nodes v
  finished_le : numberIn F.finishes v ≤ numberIn F.finishes u

theorem Encloses.trans {F : Forest} {u v w : ℕ} (h : F.Encloses u v) (h' : F.Encloses v w) :
    F.Encloses u w :=
  ⟨h.discovered_le.trans h'.discovered_le, h'.finished_le.trans h.finished_le⟩

section
variable {a : Arc} {below rest : Forest} {u v : ℕ}

/-- Where two nodes of a grown tree and its right neighbours can stand when the time
of one lies within the time of the other. -/
theorem Encloses.grow_cases (hnodup : (grow a below rest).nodes.Nodup)
    (hu : u ∈ (grow a below rest).nodes) (hv : v ∈ (grow a below rest).nodes)
    (h : (grow a below rest).Encloses u v) :
    (u = a.head ∧ (v = a.head ∨ v ∈ below.nodes)) ∨
      (u ∈ below.nodes ∧ v ∈ below.nodes ∧ below.Encloses u v) ∨
      (u ∈ rest.nodes ∧ v ∈ rest.nodes ∧ rest.Encloses u v) := by
  have hnodes : (grow a below rest).nodes = (a.head :: below.nodes) ++ rest.nodes := rfl
  have hfinishes : (grow a below rest).finishes =
      (below.finishes ++ [a.head]) ++ rest.finishes := by simp [finishes]
  obtain ⟨hdiscovered, hfinished⟩ := h
  rw [hnodes] at hnodup hu hv hdiscovered
  rw [hfinishes] at hfinished
  have htree : ∀ w, w ∈ below.finishes ++ [a.head] ↔ w ∈ a.head :: below.nodes := by
    simp [or_comm]
  rcases numberIn_append_cases hnodup htree (fun _ => mem_finishes) hu hv hdiscovered hfinished
    with ⟨hu, hv, hdiscovered, hfinished⟩ | ⟨hu, hv, hdiscovered, hfinished⟩
  -- Within the tree, its root is first in one order and last in the other.
  · rcases List.mem_cons.mp hu with rfl | hub
    · exact Or.inl ⟨rfl, List.mem_cons.mp hv⟩
    · have hroot : ∀ w ∈ below.nodes, w ∉ [a.head] := by
        intro w hw hmem
        rw [List.mem_singleton.mp hmem] at hw
        exact (List.nodup_cons.mp (List.nodup_append.mp hnodup).1).1 hw
      rcases List.mem_cons.mp hv with rfl | hvb
      · have hlt := numberIn_lt_of_mem List.mem_cons_self (hroot u hub) hub
        exact absurd hdiscovered hlt.not_ge
      · refine Or.inr (Or.inl ⟨hub, hvb, ?_, ?_⟩)
        · exact (numberIn_append_le_right (hroot u hub) (hroot v hvb) hub hvb).mp hdiscovered
        · exact (numberIn_append_le_left (mem_finishes.mpr hvb) (mem_finishes.mpr hub)).mp hfinished
  · exact Or.inr (Or.inr ⟨hu, hv, hdiscovered, hfinished⟩)

end

theorem Reaches.of_below {a : Arc} {below rest : Forest} {u v : ℕ} (h : below.Reaches u v) :
    (grow a below rest).Reaches u v := by
  refine Relation.ReflTransGen.mono ?_ u v h
  rintro x y ⟨i, e, hmem, he⟩
  exact ⟨i, e, by simp [grown, hmem], he⟩

theorem Reaches.of_rest {a : Arc} {below rest : Forest} {u v : ℕ} (h : rest.Reaches u v) :
    (grow a below rest).Reaches u v := by
  refine Relation.ReflTransGen.mono ?_ u v h
  rintro x y ⟨i, e, hmem, he⟩
  exact ⟨i, e, by simp [grown, hmem], he⟩

end Forest

namespace Explores

variable {g : Digraph} {seen : List ℕ} {arcs : List Arc} {F : Forest} {u v : ℕ}

/-- Whatever is explored through arcs of one node is reached from that node. -/
theorem reaches_of_arcs (h : Explores g seen arcs F) (hout : arcs ⊆ g.arcs u)
    (hv : v ∈ F.nodes) : F.Reaches u v := by
  induction h generalizing u with
  | nil => simp [Forest.nodes] at hv
  | skip hseen hrest ih => exact ih (List.subset_of_cons_subset hout) hv
  | @grow seen a arcs below rest hnew hbelow hrest ihb ihr =>
    have hlink : (Forest.grow a below rest).Link u a.head := by
      obtain ⟨i, e, -, ht, rfl⟩ := Digraph.mem_arcs.mp (hout List.mem_cons_self)
      exact ⟨i, e, List.mem_cons_self, ht, rfl⟩
    simp only [Forest.nodes, List.mem_cons, List.mem_append] at hv
    rcases hv with rfl | hv | hv
    · exact .single hlink
    · exact .head hlink (ihb (List.Subset.refl _) hv).of_below
    · exact (ihr (List.subset_of_cons_subset hout) hv).of_rest

/-- A node whose time lies within that of another one is reached from it. -/
theorem reaches_of_encloses (h : Explores g seen arcs F) (hu : u ∈ F.nodes) (hv : v ∈ F.nodes)
    (hin : F.Encloses u v) : F.Reaches u v := by
  induction h with
  | nil => simp [Forest.nodes] at hu
  | skip hseen hrest ih => exact ih hu hv ⟨hin.discovered_le, hin.finished_le⟩
  | @grow seen a arcs below rest hnew hbelow hrest ihb ihr =>
    rcases hin.grow_cases (Explores.grow hnew hbelow hrest).nodes_nodup hu hv with
      ⟨rfl, rfl | hv⟩ | ⟨hu, hv, hin⟩ | ⟨hu, hv, hin⟩
    · exact .refl
    · exact (hbelow.reaches_of_arcs (List.Subset.refl _) hv).of_below
    · exact (ihb hu hv hin).of_below
    · exact (ihr hu hv hin).of_rest

/-- The arcs that grow are the ones examined with an undiscovered head. -/
theorem mem_grown (h : Explores g seen arcs F) (done : List ℕ) (a : Arc) :
    a ∈ F.grown ↔ ∃ m ∈ F.moments seen done, m.arc = a ∧ a.head ∉ m.seen := by
  induction h generalizing done with
  | nil => simp [Forest.grown, Forest.moments]
  | @skip seen b arcs rest hseen hrest ih =>
    rw [Forest.grown, Forest.moments, ih done]
    simp only [List.exists_mem_cons_iff]
    constructor
    · exact Or.inr
    · rintro (⟨rfl, hnew⟩ | h)
      · exact absurd hseen hnew
      · exact h
  | @grow seen b arcs below rest hnew hbelow hrest ihb ihr =>
    simp only [Forest.grown, Forest.moments, List.mem_cons, List.mem_append,
      ihb done, ihr (done ++ (below.finishes ++ [b.head])), or_and_right, exists_or]
    constructor
    · rintro (rfl | h)
      · exact Or.inl ⟨_, rfl, rfl, hnew⟩
      · exact Or.inr h
    · rintro (⟨m, rfl, rfl, -⟩ | h)
      · exact Or.inl rfl
      · exact Or.inr h

end Explores

/-- How the endpoints of an edge of a kind stand to each other in the whole forest. -/
def EdgeKind.Describes (F : Forest) (e : Edge) : EdgeKind → Prop
  | .tree | .forward => F.Encloses e.tail e.head ∧ e.head ≠ e.tail
  | .back => F.Encloses e.head e.tail
  | .cross => numberIn F.nodes e.head < numberIn F.nodes e.tail ∧
      numberIn F.finishes e.head < numberIn F.finishes e.tail

/-- The kind that examining the edge at this moment gives it. -/
def Moment.kind (m : Moment) (e : Edge) : EdgeKind :=
  if e.head ∈ m.seen then byNumber e m.seen m.done else .tree

/-- The kind is tree exactly for an undiscovered head. -/
theorem Moment.kind_eq_tree {m : Moment} {e : Edge} : m.kind e = .tree ↔ e.head ∉ m.seen := by
  unfold kind byNumber revisitKind
  split_ifs <;> simp_all

namespace Moment.At

variable {F : Forest} {m : Moment} {path later : List ℕ} {i : ℕ} {e : Edge}

theorem numberIn_nodes (h : m.At F.nodes F.finishes path later) {v : ℕ} (hv : v ∈ m.seen) :
    numberIn F.nodes v = numberIn m.seen v := by
  obtain ⟨rest, hrest⟩ := h.seen_prefix
  rw [← hrest, numberIn_append_left hv]

/-- The tail is open while the edge is examined. -/
theorem tail_mem_path (h : m.At F.nodes F.finishes path later) (ha : m.arc = .along i e) :
    e.tail ∈ path :=
  List.mem_of_mem_head? (h.innermost i e ha)

/-- A node that is done is finished before an open one. -/
theorem finished_lt_of_done (h : m.At F.nodes F.finishes path later) {v w : ℕ} (hv : v ∈ m.done)
    (hw : w ∈ path) : numberIn F.finishes v < numberIn F.finishes w := by
  rw [h.finish_eq]
  exact numberIn_lt_of_mem hv ((h.openPath.mem_iff w).mp hw).2 (h.openPath.finish_order.subset hw)

/-- What stands further in on a part of `later` is finished earlier. -/
theorem finished_le_of_sublist (h : m.At F.nodes F.finishes path later) (hnodup : F.finishes.Nodup)
    {v w : ℕ} {inner : List ℕ} (hsub : (v :: inner).Sublist later) (hw : w ∈ v :: inner) :
    numberIn F.finishes v ≤ numberIn F.finishes w := by
  have hin : (v :: inner).Sublist F.finishes := by
    rw [h.finish_eq]
    exact hsub.trans (List.sublist_append_right _ _)
  rcases List.mem_cons.mp hw with rfl | hw
  · exact le_rfl
  · exact (List.rel_of_pairwise_cons ((pairwise_numberIn hnodup).sublist hin) hw).le

/-- An undiscovered head will be below the tail. -/
theorem encloses_of_new (h : m.At F.nodes F.finishes path later) (hnodup : F.finishes.Nodup)
    (ha : m.arc = .along i e) (hnew : e.head ∉ m.seen) : F.Encloses e.tail e.head := by
  have htail := h.tail_mem_path ha
  have hseen := ((h.openPath.mem_iff e.tail).mp htail).1
  have hsub : (e.head :: path).Sublist later := by
    have := h.new_first
    rw [ha] at this
    exact this hnew
  obtain ⟨rest, hrest⟩ := h.seen_prefix
  have hmem : e.head ∈ m.seen ++ rest := by
    rw [hrest, ← Forest.mem_finishes, h.finish_eq]
    exact List.mem_append_right _ (hsub.subset List.mem_cons_self)
  constructor
  · rw [← hrest]
    exact (numberIn_lt_of_mem hseen hnew ((List.mem_append.mp hmem).resolve_left hnew)).le
  · exact h.finished_le_of_sublist hnodup hsub (List.mem_cons_of_mem _ htail)

/-- The rule of numbers, asked in the middle of the search, is right about the whole
forest: an open node will be finished after everything that is discovered before. -/
theorem describes_byNumber (h : m.At F.nodes F.finishes path later) (hnodup : F.finishes.Nodup)
    (ha : m.arc = .along i e) (hhead : e.head ∈ m.seen) :
    (byNumber e m.seen m.done).Describes F e := by
  have htail := h.tail_mem_path ha
  obtain ⟨hseen, hopen⟩ := (h.openPath.mem_iff e.tail).mp htail
  rw [byNumber, revisitKind, ← h.numberIn_nodes hseen, ← h.numberIn_nodes hhead]
  split_ifs with hyounger hunfinished
  · have hdone : e.head ∈ m.done := by
      by_contra hheadOpen
      have hle := h.openPath.numberIn_le_innermost (h.innermost i e ha) hhead hheadOpen
      rw [← h.numberIn_nodes hseen, ← h.numberIn_nodes hhead] at hle
      exact absurd hyounger hle.not_gt
    refine ⟨⟨hyounger.le, (h.finished_lt_of_done hdone htail).le⟩, ?_⟩
    intro heq
    exact hopen (heq ▸ hdone)
  · have hheadOpen : e.head ∈ path :=
      (h.openPath.mem_iff e.head).mpr ⟨hhead, numberIn_eq_zero.mp hunfinished⟩
    obtain ⟨outer, rfl⟩ := List.head?_eq_some_iff.mp (h.innermost i e ha)
    exact ⟨not_lt.mp hyounger, h.finished_le_of_sublist hnodup h.openPath.finish_order hheadOpen⟩
  · have hdone : e.head ∈ m.done := by simpa using hunfinished
    have hne : e.head ≠ e.tail := fun heq => hopen (heq ▸ hdone)
    refine ⟨lt_of_le_of_ne (not_lt.mp hyounger) ?_, h.finished_lt_of_done hdone htail⟩
    intro heq
    rw [h.numberIn_nodes hhead, h.numberIn_nodes hseen] at heq
    exact hne (numberIn_inj hhead heq)

/-- The kind that is decided in the middle of the search holds at the end of it. -/
theorem describes (h : m.At F.nodes F.finishes path later) (hnodup : F.finishes.Nodup)
    (ha : m.arc = .along i e) : (m.kind e).Describes F e := by
  by_cases hhead : e.head ∈ m.seen
  · rw [kind, if_pos hhead]
    exact h.describes_byNumber hnodup ha hhead
  · rw [kind, if_neg hhead]
    refine ⟨h.encloses_of_new hnodup ha hhead, ?_⟩
    have hseen := ((h.openPath.mem_iff e.tail).mp (h.tail_mem_path ha)).1
    exact fun heq => hhead (heq ▸ hseen)

end Moment.At

namespace Spans

variable {g : Digraph} {F : Forest} {u v i : ℕ} {e : Edge}

theorem mem_arcs (h : Spans g F) (hg : g.Sound) :
    Arc.along i e ∈ F.arcs ↔ g.edges[i]? = some e := by
  rw [(Explores.arcs_perm h).mem_iff]
  simp only [List.mem_append, Digraph.seeds, List.mem_map, reduceCtorEq, and_false, exists_false,
    false_or, List.mem_flatMap, Digraph.mem_arcs, Arc.along.injEq]
  constructor
  · rintro ⟨_, -, j, d, hd, -, rfl, rfl⟩
    exact hd
  · intro he
    exact ⟨e.tail, (h.mem_nodes hg).mpr (hg.tail_lt_of_getElem? he), i, e, he, rfl, rfl, rfl⟩

/-- Every edge has its moment, and what is decided then describes the edge. -/
theorem exists_moment (h : Spans g F) (hg : g.Sound) (he : g.edges[i]? = some e) :
    ∃ m ∈ F.moments [] [], m.arc = .along i e ∧ (m.kind e).Describes F e := by
  have harc := (h.mem_arcs hg).mpr he
  rw [← F.map_arc_moments [] []] at harc
  obtain ⟨m, hm, ha⟩ := List.mem_map.mp harc
  obtain ⟨path, later, hat⟩ := h.exists_at m hm
  exact ⟨m, hm, ha, hat.describes (Explores.finishes_nodup h) ha⟩

/-- Along the edges that found their heads, times lie within each other. -/
theorem encloses_of_reaches (h : Spans g F) (hr : F.Reaches u v) : F.Encloses u v := by
  induction hr with
  | refl => exact ⟨le_rfl, le_rfl⟩
  | tail _ hlink ih =>
    obtain ⟨i, e, hgrown, rfl, rfl⟩ := hlink
    obtain ⟨m, hm, ha, hnew⟩ := (Explores.mem_grown h [] _).mp hgrown
    obtain ⟨path, later, hat⟩ := h.exists_at m hm
    exact ih.trans (hat.encloses_of_new (Explores.finishes_nodup h) ha hnew)

/-- One node is below another exactly when its time lies within that of the other. -/
theorem reaches_iff (h : Spans g F) (hg : g.Sound) (hu : u < g.nodeCount) :
    F.Reaches u v ↔ F.Encloses u v := by
  have hmem := (h.mem_nodes hg).mpr hu
  constructor
  · exact h.encloses_of_reaches
  · intro hin
    exact Explores.reaches_of_encloses h hmem (mem_of_numberIn_le hmem hin.discovered_le) hin

end Spans

end ClassicAlgorithms
