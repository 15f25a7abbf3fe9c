import ClassicAlgorithms.Proofs.Graph.Progress
import Mathlib.Data.List.ReduceOption

/-!
# The tables of a progress

What a search stores about its progress, and the traversal that is read off when
every node has been discovered and every edge classified.
-/
namespace ClassicAlgorithms

theorem map_some_reduceOption {α : Type} {l : List (Option α)} (h : ∀ o ∈ l, o.isSome) :
    l.reduceOption.map some = l := by
  induction l with
  | nil => rfl
  | cons o rest ih =>
    obtain ⟨a, rfl⟩ := Option.isSome_iff_exists.mp (h o List.mem_cons_self)
    rw [List.reduceOption_cons_of_some, List.map_cons,
      ih fun o ho => h o (List.mem_cons_of_mem _ ho)]

/-- The kinds of `m` edges after the classifications in order. -/
def kindTable (m : ℕ) (made : List (ℕ × EdgeKind)) : Array (Option EdgeKind) :=
  made.foldl (fun kinds d => kinds.setIfInBounds d.1 (some d.2)) (Array.replicate m none)

section
variable {m : ℕ} {made : List (ℕ × EdgeKind)}

theorem kindTable_concat (m : ℕ) (made : List (ℕ × EdgeKind)) (i : ℕ) (k : EdgeKind) :
    kindTable m (made ++ [(i, k)]) = (kindTable m made).setIfInBounds i (some k) := by
  simp [kindTable]

@[simp] theorem size_kindTable (m : ℕ) (made : List (ℕ × EdgeKind)) :
    (kindTable m made).size = m := by
  induction made using List.reverseRecOn with
  | nil => simp [kindTable]
  | append_singleton made d ih => rw [kindTable_concat, Array.size_setIfInBounds, ih]

theorem getElem?_kindTable (hnodup : (made.map Prod.fst).Nodup) {i : ℕ} (hi : i < m)
    (k : EdgeKind) : (kindTable m made)[i]? = some (some k) ↔ (i, k) ∈ made := by
  induction made using List.reverseRecOn with
  | nil => simp [kindTable, hi]
  | append_singleton made d ih =>
    obtain ⟨j, kind⟩ := d
    rw [List.map_append, List.nodup_append] at hnodup
    have ih := ih hnodup.1
    have hj : ∀ k, (j, k) ∉ made := fun k hk =>
      hnodup.2.2 j (List.mem_map_of_mem hk) j (by simp) rfl
    rw [kindTable_concat, Array.getElem?_setIfInBounds]
    by_cases hij : j = i
    · subst hij
      simp [hi, hj, eq_comm]
    · simp [hij, ih, Ne.symm hij]

theorem getElem?_kindTable_eq_none (hnodup : (made.map Prod.fst).Nodup) {i : ℕ} (hi : i < m) :
    (kindTable m made)[i]? = some none ↔ i ∉ made.map Prod.fst := by
  have hsize : i < (kindTable m made).size := by simpa using hi
  constructor
  · intro hnone hmem
    obtain ⟨⟨j, kind⟩, hmade, rfl⟩ := List.mem_map.mp hmem
    simp [(getElem?_kindTable hnodup hi kind).mpr hmade] at hnone
  · intro hnot
    rw [Array.getElem?_eq_getElem hsize]
    cases hentry : (kindTable m made)[i] with
    | none => rfl
    | some kind =>
      have hmade := (getElem?_kindTable hnodup hi kind).mp (by
        rw [Array.getElem?_eq_getElem hsize, hentry])
      exact absurd (List.mem_map_of_mem hmade) hnot

end

namespace Progress

/-- The kinds that are known, by edge. -/
def kinds (m : ℕ) (p : Progress) : List EdgeKind := (kindTable m p.made).toList.reduceOption

/-- The traversal of a graph with `n` nodes and `m` edges. -/
def traversal (n m : ℕ) (p : Progress) : Traversal where
  discovery := p.seen.toArray
  kinds := (p.kinds m).toArray
  preorder := table n (numberIn p.seen)
  postorder := table n (numberIn p.done)
  roots := p.roots.toArray

/-- Every node is discovered and every edge is classified, each of them once. -/
structure Complete (n m : ℕ) (p : Progress) : Prop where
  seen_perm : p.seen.Perm (List.range n)
  made_perm : (p.made.map Prod.fst).Perm (List.range m)

namespace Complete

variable {n m : ℕ} {p : Progress}

theorem map_some_kinds (h : p.Complete n m) :
    (p.kinds m).map some = (kindTable m p.made).toList := by
  have hall : ∀ o ∈ (kindTable m p.made).toList, o.isSome := by
    intro o ho
    obtain ⟨i, hi, rfl⟩ := List.mem_iff_getElem.mp ho
    have hm : i < m := by simpa using hi
    obtain ⟨⟨j, k⟩, hmade, hj⟩ := List.mem_map.mp (h.made_perm.mem_iff.mpr (List.mem_range.mpr hm))
    obtain rfl : j = i := hj
    have hnodup := h.made_perm.nodup_iff.mpr List.nodup_range
    have hentry := (getElem?_kindTable hnodup hm k).mpr hmade
    rw [Array.getElem?_eq_getElem (by simpa using hi), Option.some.injEq] at hentry
    simp [hentry]
  exact map_some_reduceOption hall

theorem length_kinds (h : p.Complete n m) : (p.kinds m).length = m := by
  have hlength := congrArg List.length h.map_some_kinds
  simpa using hlength

/-- The kind of an edge is the one that was decided for it. -/
theorem kind?_traversal (h : p.Complete n m) (i : ℕ) (k : EdgeKind) :
    (p.traversal n m).kind? i = some k ↔ (i, k) ∈ p.made := by
  have hnodup := h.made_perm.nodup_iff.mpr List.nodup_range
  have hentry : (p.kinds m)[i]? = some k ↔ (kindTable m p.made)[i]? = some (some k) := by
    rw [← Array.getElem?_toList, ← h.map_some_kinds, List.getElem?_map]
    simp
  have hlookup : (p.traversal n m).kind? i = (p.kinds m)[i]? := by
    simp [traversal, Traversal.kind?]
  rw [hlookup, hentry]
  by_cases hi : i < m
  · exact getElem?_kindTable hnodup hi k
  · have hout : (kindTable m p.made)[i]? = none := by simp; omega
    have hnot : (i, k) ∉ p.made := fun hmem =>
      hi (List.mem_range.mp (h.made_perm.mem_iff.mp (List.mem_map_of_mem hmem)))
    simp [hout, hnot]

end Complete

theorem preorder?_traversal {n v : ℕ} (m : ℕ) (p : Progress) (hv : v < n) :
    (p.traversal n m).preorder? v = some (numberIn p.seen v) :=
  getElem?_table hv

theorem postorder?_traversal {n v : ℕ} (m : ℕ) (p : Progress) (hv : v < n) :
    (p.traversal n m).postorder? v = some (numberIn p.done v) :=
  getElem?_table hv

end Progress

theorem Spans.complete_play {g : Digraph} {F : Forest} (h : Spans g F) (hg : g.Sound)
    (rule : Rule) : (F.play rule .start).Complete g.nodeCount g.edgeCount where
  seen_perm := by simpa [Progress.start] using h.nodes_perm hg
  made_perm := by
    rw [Explores.positions_made_play h rule .start rfl]
    simpa [Progress.start] using h.positions_perm hg

end ClassicAlgorithms
