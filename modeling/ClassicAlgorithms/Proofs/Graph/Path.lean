import ClassicAlgorithms.Proofs.Graph.Progress
import Mathlib.Data.List.Infix

/-!
# The path of open nodes

A node is open while its arcs are being explored. The open nodes form a path: the
innermost one was discovered last and will be finished first, and it is the tail
of the arc under examination. From this the rule by colours and the rule by
numbers are seen to agree.
-/
namespace ClassicAlgorithms

/-- The open nodes, the innermost first, when the nodes of `later` are the ones
still to be finished. -/
structure OpenPath (seen done later path : List ℕ) : Prop where
  done_subset : ∀ v ∈ done, v ∈ seen
  mem_iff : ∀ v, v ∈ path ↔ v ∈ seen ∧ v ∉ done
  newest_first : path.Pairwise fun v w => numberIn seen w < numberIn seen v
  finish_order : path.Sublist later

namespace OpenPath

variable {seen done later path : List ℕ}

protected theorem nil (later : List ℕ) : OpenPath [] [] later [] where
  done_subset := by simp
  mem_iff := by simp
  newest_first := .nil
  finish_order := later.nil_sublist

theorem mono {later' : List ℕ} (h : OpenPath seen done later path)
    (hsub : path.Sublist later') : OpenPath seen done later' path :=
  ⟨h.done_subset, h.mem_iff, h.newest_first, hsub⟩

/-- Numbers of open nodes do not change when more nodes are discovered. -/
theorem newest_first_append (h : OpenPath seen done later path) (new : List ℕ) :
    path.Pairwise fun v w => numberIn (seen ++ new) w < numberIn (seen ++ new) v := by
  refine h.newest_first.imp_of_mem ?_
  intro v w hv hw hlt
  rwa [numberIn_append_left ((h.mem_iff v).mp hv).1, numberIn_append_left ((h.mem_iff w).mp hw).1]

/-- Entering a new node puts it at the inner end of the path. -/
theorem enter (h : OpenPath seen done later path) {v : ℕ} (hnew : v ∉ seen) :
    OpenPath (seen ++ [v]) done (v :: later) (v :: path) where
  done_subset w hw := List.mem_append_left _ (h.done_subset w hw)
  mem_iff w := by
    have hv : v ∉ done := fun hd => hnew (h.done_subset v hd)
    rw [List.mem_cons, List.mem_append, List.mem_singleton, h.mem_iff w]
    constructor
    · rintro (rfl | ⟨hs, hd⟩)
      · exact ⟨Or.inr rfl, hv⟩
      · exact ⟨Or.inl hs, hd⟩
    · rintro ⟨hs | rfl, hd⟩
      · exact Or.inr ⟨hs, hd⟩
      · exact Or.inl rfl
  newest_first := by
    refine List.pairwise_cons.mpr ⟨?_, h.newest_first_append [v]⟩
    intro w hw
    exact numberIn_lt_of_mem ((h.mem_iff w).mp hw).1 hnew List.mem_cons_self
  finish_order := h.finish_order.cons_cons v

/-- Nodes that are discovered and finished in between leave the path as it is. -/
theorem extend (h : OpenPath seen done later path) (new finished : List ℕ)
    (hfresh : ∀ v ∈ new, v ∉ seen) (hfinished : ∀ v, v ∈ finished ↔ v ∈ new) :
    OpenPath (seen ++ new) (done ++ finished) later path where
  done_subset v hv := by
    rcases List.mem_append.mp hv with hv | hv
    · exact List.mem_append_left _ (h.done_subset v hv)
    · exact List.mem_append_right _ ((hfinished v).mp hv)
  mem_iff v := by
    have := hfresh v
    rw [h.mem_iff v, List.mem_append, List.mem_append, hfinished v]
    tauto
  newest_first := h.newest_first_append new
  finish_order := h.finish_order

/-- The innermost open node is the one discovered last. -/
theorem numberIn_le_innermost (h : OpenPath seen done later path) {u v : ℕ}
    (hu : path.head? = some u) (hv : v ∈ seen) (hopen : v ∉ done) :
    numberIn seen v ≤ numberIn seen u := by
  obtain ⟨rest, rfl⟩ := List.head?_eq_some_iff.mp hu
  rcases List.mem_cons.mp ((h.mem_iff v).mpr ⟨hv, hopen⟩) with rfl | hmem
  · exact le_rfl
  · exact (List.rel_of_pairwise_cons h.newest_first hmem).le

end OpenPath

/-- The place of a moment in a search that discovers `order` and finishes `finish`:
the open path then, and what was left to be finished. -/
structure Moment.At (m : Moment) (order finish path later : List ℕ) : Prop where
  seen_prefix : m.seen <+: order
  finish_eq : finish = m.done ++ later
  openPath : OpenPath m.seen m.done later path
  innermost : ∀ i e, m.arc = .along i e → path.head? = some e.tail
  new_first : m.arc.head ∉ m.seen → (m.arc.head :: path).Sublist later

/-- Every arc is examined while its tail is the innermost open node. -/
theorem Explores.exists_at {g : Digraph} {seen : List ℕ} {arcs : List Arc} {F : Forest}
    (h : Explores g seen arcs F) {order finish done path : List ℕ} (after : List ℕ)
    (horder : seen ++ F.nodes <+: order) (hfinish : finish = done ++ (F.finishes ++ after))
    (hpath : OpenPath seen done after path)
    (hinner : ∀ i e, Arc.along i e ∈ arcs → path.head? = some e.tail) :
    ∀ m ∈ F.moments seen done, ∃ path later, m.At order finish path later := by
  induction h generalizing done path after with
  | nil => simp [Forest.moments]
  | @skip seen a arcs rest hseen hrest ih =>
    intro m hm
    rcases List.mem_cons.mp hm with rfl | hm
    · refine ⟨path, rest.finishes ++ after, (List.prefix_append _ _).trans horder, hfinish,
        hpath.mono (hpath.finish_order.trans (List.sublist_append_right _ _)), ?_, ?_⟩
      · rintro i e rfl
        exact hinner i e List.mem_cons_self
      · exact fun hnew => absurd hseen hnew
    · exact ih after horder hfinish hpath
        (fun i e ha => hinner i e (List.mem_cons_of_mem _ ha)) m hm
  | @grow seen a arcs below rest hnew hbelow hrest ihb ihr =>
    have hsub : (a.head :: path).Sublist (a.head :: (rest.finishes ++ after)) :=
      (hpath.finish_order.trans (List.sublist_append_right _ _)).cons_cons _
    intro m hm
    simp only [Forest.moments, List.mem_cons, List.mem_append] at hm
    rcases hm with rfl | hm | hm
    · have hlater : (a.head :: path).Sublist ((Forest.grow a below rest).finishes ++ after) := by
        simpa [Forest.finishes] using hsub.trans (List.sublist_append_right below.finishes _)
      refine ⟨path, _, (List.prefix_append _ _).trans horder, hfinish,
        hpath.mono ((List.sublist_cons_self _ _).trans hlater), ?_, fun _ => hlater⟩
      rintro i e rfl
      exact hinner i e List.mem_cons_self
    -- Below the head the path is longer by the head, which is then the next to be finished.
    · refine ihb (a.head :: (rest.finishes ++ after)) ?_ ?_
        ((hpath.enter hnew).mono hsub) ?_ m hm
      · refine List.IsPrefix.trans ?_ horder
        exact ⟨rest.nodes, by simp [Forest.nodes]⟩
      · simpa [Forest.finishes] using hfinish
      · intro i e ha
        obtain ⟨j, d, -, ht, heq⟩ := Digraph.mem_arcs.mp ha
        cases heq
        rw [ht, List.head?_cons]
    -- Afterwards all of it is finished, and the path is what it was.
    · refine ihr after ?_ ?_ (hpath.extend (a.head :: below.nodes) _ ?_ ?_)
        (fun i e ha => hinner i e (List.mem_cons_of_mem _ ha)) m hm
      · simpa [Forest.nodes] using horder
      · simpa [Forest.finishes] using hfinish
      · intro v hv
        rcases List.mem_cons.mp hv with rfl | hv
        · exact hnew
        · exact fun hs => hbelow.fresh v hv (List.mem_append_left _ hs)
      · intro v
        simp [or_comm]

namespace Spans

variable {g : Digraph} {F : Forest}

theorem exists_at (h : Spans g F) :
    ∀ m ∈ F.moments [] [], ∃ path later, m.At F.nodes F.finishes path later := by
  refine Explores.exists_at h [] (List.prefix_refl _) (by simp) (OpenPath.nil []) ?_
  simp [Digraph.seeds]

/-- The two rules agree wherever the search asks them: an open head is never
younger than the tail. -/
theorem byColour_eq_byNumber (h : Spans g F) {m : Moment} (hm : m ∈ F.moments [] [])
    {i : ℕ} {e : Edge} (ha : m.arc = .along i e) (hseen : e.head ∈ m.seen) :
    byColour e m.seen m.done = byNumber e m.seen m.done := by
  obtain ⟨path, later, hat⟩ := h.exists_at m hm
  by_cases hd : e.head ∈ m.done
  · simp [byColour, byNumber, revisitKind, hd]
  · have := hat.openPath.numberIn_le_innermost (hat.innermost i e ha) hseen hd
    simp [byColour, byNumber, revisitKind, hd, this]

theorem play_byColour (h : Spans g F) :
    F.play byColour .start = F.play byNumber .start :=
  Explores.play_congr h .start rfl fun _ hm _ _ ha hseen => h.byColour_eq_byNumber hm ha hseen

end Spans

end ClassicAlgorithms
