import ClassicAlgorithms.Proofs.DisjointSet.Climb
import ClassicAlgorithms.Proofs.Graph.Build
import Mathlib.Data.Setoid.Basic
import Mathlib.Data.Set.Card
import Mathlib.Logic.Relation

/-!
# The partition is the closure of its merges

Two elements have the same root exactly when the merged pairs join them, in whatever
order and direction the merges were made. Roots and classes then count the same, and
both agree with the counter that is kept beside the links.
-/
namespace ClassicAlgorithms

/-- The reflexive, symmetric and transitive closure of the pairs of endpoints. -/
def Joined (edges : List Edge) : ℕ → ℕ → Prop := Relation.EqvGen fun a b => ⟨a, b⟩ ∈ edges

/-- The closure on the numbers below `size`. -/
def joinedSetoid (size : ℕ) (edges : List Edge) : Setoid (Fin size) :=
  (Relation.EqvGen.setoid fun a b => ⟨a, b⟩ ∈ edges).comap Fin.val

section
variable {edges more : List Edge} {a b c : ℕ}

theorem Joined.append (h : Joined edges a b) (more : List Edge) : Joined (edges ++ more) a b :=
  Relation.EqvGen.mono (fun _ _ hmem => List.mem_append_left more hmem) _ _ h

theorem joined_of_mem {e : Edge} (h : e ∈ edges) : Joined edges e.tail e.head := .rel _ _ h

/-- `root` picks one element from each class of the closure. -/
structure Represents (root : ℕ → ℕ) (edges : List Edge) : Prop where
  joined_root : ∀ v, Joined edges v (root v)
  root_eq : ∀ e ∈ edges, root e.tail = root e.head

namespace Represents

variable {root : ℕ → ℕ}

theorem id : Represents id [] where
  joined_root v := .refl v
  root_eq := by simp

theorem root_eq_iff (h : Represents root edges) : root a = root b ↔ Joined edges a b := by
  constructor
  · intro heq
    have hb := h.joined_root b
    rw [← heq] at hb
    exact (h.joined_root a).trans _ _ _ (hb.symm _ _)
  · intro hjoined
    induction hjoined with
    | rel a b hmem => exact h.root_eq ⟨a, b⟩ hmem
    | refl a => rfl
    | symm a b _ ih => exact ih.symm
    | trans a b c _ _ ih ih' => exact ih.trans ih'

/-- One more pair joins the classes of its two elements. -/
theorem merge (h : Represents root edges) (e : Edge) :
    Represents (DisjointSet.mergedRoot root e.tail e.head) (edges ++ [e]) where
  joined_root v := by
    have hv := (h.joined_root v).append [e]
    unfold DisjointSet.mergedRoot
    split_ifs with hhead
    -- From the root of the head back to the head, along the pair, and up to the root of the tail.
    · have hup := (h.joined_root e.tail).append [e]
      have hdown := ((h.joined_root e.head).append [e]).symm _ _
      have hpair : Joined (edges ++ [e]) e.tail e.head := joined_of_mem (by simp)
      rw [hhead] at hv
      exact hv.trans _ _ _ (hdown.trans _ _ _ ((hpair.symm _ _).trans _ _ _ hup))
    · exact hv
  root_eq d hd := by
    unfold DisjointSet.mergedRoot
    rcases List.mem_append.mp hd with hd | hd
    · rw [h.root_eq d hd]
    · rw [List.mem_singleton.mp hd, if_pos rfl]
      split_ifs <;> rfl

end Represents

end

namespace DisjointSet

variable {size : ℕ} {edges rest before : List Edge} {d : DisjointSet} {root : ℕ → ℕ}

/-- Every merge of the list is made, and the roots follow the closure. -/
theorem Rooted.exists_uniteAll (h : d.Rooted root) (hroot : Represents root before)
    (hrest : ∀ e ∈ rest, e.tail < d.size ∧ e.head < d.size) :
    ∃ d' flags root', d.uniteAll rest = .ok (d', flags) ∧ d'.size = d.size ∧ d'.Rooted root' ∧
      Represents root' (before ++ rest) := by
  induction rest generalizing d root before with
  | nil => exact ⟨d, [], root, rfl, rfl, h, by simpa using hroot⟩
  | cons e rest ih =>
    obtain ⟨ht, hh⟩ := hrest e List.mem_cons_self
    obtain ⟨next, merged, hunion, hsize, hnext⟩ := h.exists_union ht hh
    obtain ⟨d', flags, root', hall, hsize', hrooted, hrepresents⟩ := ih hnext (hroot.merge e)
      fun e he => by
        rw [hsize]
        exact hrest e (List.mem_cons_of_mem _ he)
    refine ⟨d', merged :: flags, root', ?_, hsize'.trans hsize, hrooted, by simpa using hrepresents⟩
    simp [uniteAll, hunion, hall, bind, Except.bind, pure, Except.pure]

/-- The forest on `size` elements says of them what the closure of the pairs says: which are
connected, and how many classes there are. Each class has one root. -/
structure Partitions (d : DisjointSet) (size : ℕ) (edges : List Edge) : Prop where
  size_eq : d.size = size
  connected_iff : ∀ a < size, ∀ b < size, ∃ answer,
    d.connected a b = .ok answer ∧ (answer = true ↔ Joined edges a b)
  components_eq_classes : d.components = Nat.card (Quotient (joinedSetoid size edges))
  components_eq_roots :
    d.components = ((Finset.range size).filter fun v => d.find v = .ok v).card

/-- The classes are the fibres of the root. -/
theorem joinedSetoid_eq_ker (hroot : Represents root edges) (size : ℕ) :
    joinedSetoid size edges = Setoid.ker fun v : Fin size => root v := by
  ext a b
  exact hroot.root_eq_iff.symm

/-- The roots are the elements that are their own root. -/
theorem Rooted.range_root (h : d.Rooted root) :
    Set.range (fun v : Fin d.size => root v) =
      ((Finset.range d.size).filter fun v => root v = v : Finset ℕ) := by
  ext v
  simp only [Set.mem_range, Finset.coe_filter, Finset.mem_range, Set.mem_ofPred_eq]
  constructor
  · rintro ⟨w, rfl⟩
    exact ⟨h.root_lt w.isLt, h.root_root w.isLt⟩
  · rintro ⟨hv, hself⟩
    exact ⟨⟨v, hv⟩, hself⟩

theorem Rooted.partitions (h : d.Rooted root) (hroot : Represents root edges) :
    d.Partitions d.size edges where
  size_eq := rfl
  connected_iff a ha b hb := by
    refine ⟨root a == root b, ?_, ?_⟩
    · rw [connected, h.find_eq ha, h.find_eq hb]
      rfl
    · rw [beq_iff_eq]
      exact hroot.root_eq_iff
  components_eq_classes := by
    rw [joinedSetoid_eq_ker hroot, Nat.card_congr (Setoid.quotientKerEquivRange _), h.range_root,
      Nat.card_coe_set_eq, Set.ncard_coe_finset]
    exact h.components_eq
  components_eq_roots := by
    rw [h.components_eq]
    congr 1
    apply Finset.filter_congr
    intro v hv
    rw [h.find_eq (Finset.mem_range.mp hv), Except.ok.injEq]

theorem invalidEndpoint?_eq_none :
    invalidEndpoint? size edges = none ↔ ∀ e ∈ edges, e.tail < size ∧ e.head < size := by
  simp only [invalidEndpoint?, List.find?_eq_none, List.mem_flatMap, forall_exists_index, and_imp,
    decide_eq_true_eq, Nat.not_le]
  constructor
  · intro h e he
    exact ⟨h _ e he (by simp), h _ e he (by simp)⟩
  · intro h v e he hv
    obtain ⟨ht, hh⟩ := h e he
    rcases List.mem_pair.mp hv with rfl | rfl
    · exact ht
    · exact hh

/-- Merging pairs in range from the singletons on never fails, and the roots represent the
closure of the pairs. -/
theorem exists_rooted_uniteAll (hin : ∀ e ∈ edges, e.tail < size ∧ e.head < size) :
    ∃ d flags root, (discrete size).uniteAll edges = .ok (d, flags) ∧ d.size = size ∧
      d.Rooted root ∧ Represents root edges := by
  have hrest : ∀ e ∈ edges, e.tail < (discrete size).size ∧ e.head < (discrete size).size := by
    simpa using hin
  obtain ⟨d, flags, root, hall, hsize, hrooted, hroot⟩ :=
    (Rooted.discrete size).exists_uniteAll Represents.id hrest
  exact ⟨d, flags, root, hall, hsize.trans (size_discrete size), hrooted, by simpa using hroot⟩

theorem exists_partitions_uniteAll (hin : ∀ e ∈ edges, e.tail < size ∧ e.head < size) :
    ∃ d flags, (discrete size).uniteAll edges = .ok (d, flags) ∧ d.Partitions size edges := by
  obtain ⟨d, flags, root, hall, rfl, hrooted, hroot⟩ := exists_rooted_uniteAll hin
  exact ⟨d, flags, hall, hrooted.partitions hroot⟩

/-- A list of edges is accepted when its endpoints are in range and the links can be stored;
then the merges are made one after the other. -/
theorem buildCounted_eq_ok_iff [Memory] {result : DisjointSet × List Bool} :
    buildCounted size edges = .ok result ↔
      (∀ e ∈ edges, e.tail < size ∧ e.head < size) ∧ Memory.Grants size linkWidth ∧
        (discrete size).uniteAll edges = .ok result := by
  rw [← invalidEndpoint?_eq_none, buildCounted]
  cases hin : invalidEndpoint? size edges with
  | some node => simp
  | none =>
    by_cases hlinks : Memory.Grants size linkWidth
    · cases hall : (discrete size).uniteAll edges <;>
        simp [tryCreate, hlinks, hall, bind, Except.bind]
    · simp [tryCreate, hlinks, bind, Except.bind]

/-- What is made of an accepted list of edges says what their closure says. -/
theorem partitions_of_ofEdges [Memory] (hbuild : ofEdges size edges = .ok d) :
    d.Partitions size edges := by
  obtain ⟨⟨d', flags⟩, hcounted, rfl⟩ := map_eq_ok_iff.mp hbuild
  obtain ⟨hin, -, hall⟩ := buildCounted_eq_ok_iff.mp hcounted
  obtain ⟨_, _, hall', hpartitions⟩ := exists_partitions_uniteAll hin
  rw [hall, Except.ok.injEq, Prod.mk.injEq] at hall'
  rw [hall'.1]
  exact hpartitions

/-- Connectedness and the count are those of the closure of the pairs, whether the pairs are
merged one by one or taken from an accepted list of edges. -/
theorem partitions_of_unions [Memory] (size : ℕ) (edges : List Edge) :
    (∀ d, create size = .ok d → (∀ e ∈ edges, e.tail < size ∧ e.head < size) →
      ∃ d' flags, d.uniteAll edges = .ok (d', flags) ∧ d'.Partitions size edges) ∧
    (∀ d, ofEdges size edges = .ok d → d.Partitions size edges) := by
  constructor
  · intro d hcreate hin
    unfold create at hcreate
    split_ifs at hcreate
    obtain rfl := Except.ok.inj hcreate
    exact exists_partitions_uniteAll hin
  · exact fun d hbuild => partitions_of_ofEdges hbuild

theorem partitions_of_unions_triangle :
    (create 5 = .ok (discrete 5) ∧
      (∀ e ∈ [⟨0, 1⟩, ⟨3, 2⟩, ⟨2, 0⟩, (⟨1, 3⟩ : Edge)], e.tail < 5 ∧ e.head < 5) ∧
      ∃ d flags, (discrete 5).uniteAll [⟨0, 1⟩, ⟨3, 2⟩, ⟨2, 0⟩, ⟨1, 3⟩] = .ok (d, flags) ∧
        d.Partitions 5 [⟨0, 1⟩, ⟨3, 2⟩, ⟨2, 0⟩, ⟨1, 3⟩]) ∧
    ofEdges 5 [⟨0, 1⟩, ⟨3, 2⟩, ⟨2, 0⟩, ⟨1, 3⟩] = .ok ⟨#[3, 0, 3, 3, 4], 2⟩ ∧
      Partitions ⟨#[3, 0, 3, 3, 4], 2⟩ 5 [⟨0, 1⟩, ⟨3, 2⟩, ⟨2, 0⟩, ⟨1, 3⟩] := by
  have hcreate : create 5 = .ok (discrete 5) := by decide
  have hin : ∀ e ∈ [⟨0, 1⟩, ⟨3, 2⟩, ⟨2, 0⟩, (⟨1, 3⟩ : Edge)], e.tail < 5 ∧ e.head < 5 := by decide
  have hbuild : ofEdges 5 [⟨0, 1⟩, ⟨3, 2⟩, ⟨2, 0⟩, ⟨1, 3⟩] = .ok ⟨#[3, 0, 3, 3, 4], 2⟩ := by
    decide
  obtain ⟨hmerged, hlisted⟩ := partitions_of_unions 5 [⟨0, 1⟩, ⟨3, 2⟩, ⟨2, 0⟩, ⟨1, 3⟩]
  exact ⟨⟨hcreate, hin, hmerged _ hcreate hin⟩, hbuild, hlisted _ hbuild⟩

end DisjointSet

end ClassicAlgorithms
