import ClassicAlgorithms.EditDistance.Alignment
import Mathlib.Order.Bounds.Basic
import Mathlib.Order.MinMax

/-!
# The recurrence of the cells and the cost of alignments

The recurrence is stated for texts read from the back, because a cell looks at the
last characters of two prefixes. It takes the diagonal wherever these agree, without
a look at the other neighbours. Since neighbouring values differ by at most one, no
alignment is cheaper than the recurrence, and there is one that costs as much.
-/
namespace ClassicAlgorithms

/-- The columns have no gap above a gap, and spell `a` and `b`. -/
structure Spells (columns : List Column) (a b : List Char) : Prop where
  source_eq : columns.filterMap Column.source = a
  target_eq : columns.filterMap Column.target = b
  not_gap : ∀ c ∈ columns, c ≠ ⟨none, none⟩

/-- How many columns are not a match. -/
def mismatches (columns : List Column) : ℕ := columns.countP fun c => c.operation ≠ .keep

/-- What aligning `a` with `b` can cost. -/
def alignmentCosts (a b : List Char) : Set ℕ :=
  {k | ∃ columns, Spells columns a b ∧ mismatches columns = k}

namespace Spells

variable {columns : List Column} {a b : List Char}

protected theorem nil : Spells [] [] [] where
  source_eq := rfl
  target_eq := rfl
  not_gap := by simp

theorem cons (h : Spells columns a b) {c : Column} (hc : c ≠ ⟨none, none⟩) :
    Spells (c :: columns) (c.source.toList ++ a) (c.target.toList ++ b) where
  source_eq := by
    rw [← h.source_eq]
    cases hs : c.source <;> simp [hs]
  target_eq := by
    rw [← h.target_eq]
    cases ht : c.target <;> simp [ht]
  not_gap d hd := by
    rcases List.mem_cons.mp hd with rfl | hd
    · exact hc
    · exact h.not_gap d hd

/-- What is left of both texts behind the first column. -/
theorem uncons {column : Column} (h : Spells (column :: columns) a b) :
    ∃ a' b', a = column.source.toList ++ a' ∧ b = column.target.toList ++ b' ∧
      column ≠ ⟨none, none⟩ ∧ Spells columns a' b' := by
  obtain ⟨rfl, rfl, hgap⟩ := h
  refine ⟨columns.filterMap Column.source, columns.filterMap Column.target, ?_, ?_,
    hgap _ List.mem_cons_self, rfl, rfl, fun d hd => hgap d (List.mem_cons_of_mem _ hd)⟩
  · cases hs : column.source <;> simp [hs]
  · cases ht : column.target <;> simp [ht]

theorem reverse (h : Spells columns a b) : Spells columns.reverse a.reverse b.reverse where
  source_eq := by rw [List.filterMap_reverse, h.source_eq]
  target_eq := by rw [List.filterMap_reverse, h.target_eq]
  not_gap c hc := h.not_gap c (List.mem_reverse.mp hc)

end Spells

@[simp] theorem mismatches_nil : mismatches [] = 0 := rfl

theorem mismatches_cons (c : Column) (rest : List Column) :
    mismatches (c :: rest) = mismatches rest + if c.operation = .keep then 0 else 1 := by
  by_cases h : c.operation = .keep <;> simp [mismatches, h]

theorem mismatches_append (columns more : List Column) :
    mismatches (columns ++ more) = mismatches columns + mismatches more :=
  List.countP_append

@[simp] theorem mismatches_reverse (columns : List Column) :
    mismatches columns.reverse = mismatches columns :=
  List.countP_reverse

/-- Every column that is not a match is one edit. -/
theorem edits_ofColumns (columns : List Column) :
    (OperationCounts.ofColumns columns).edits = mismatches columns := by
  induction columns with
  | nil => rfl
  | cons c rest ih =>
    simp only [OperationCounts.edits, OperationCounts.ofColumns, List.map_cons, List.count_cons,
      mismatches_cons] at ih ⊢
    cases c.operation <;> simp <;> omega

/-- The value of a cell, from the texts of its row and its column read from the back. -/
def distanceBack : (a b : List Char) → ℕ
  | [], b => b.length
  | a, [] => a.length
  | x :: a, y :: b =>
    EditTable.cellValue (x == y) (distanceBack a b) (distanceBack a (y :: b))
      (distanceBack (x :: a) b)
termination_by a b => a.length + b.length

section
variable {a b : List Char} {x y : Char}

@[simp] theorem distanceBack_nil_left (b : List Char) : distanceBack [] b = b.length := by
  rw [distanceBack]

@[simp] theorem distanceBack_nil_right (a : List Char) : distanceBack a [] = a.length := by
  cases a <;> simp [distanceBack]

theorem distanceBack_cons_self : distanceBack (x :: a) (x :: b) = distanceBack a b := by
  simp [distanceBack, EditTable.cellValue]

theorem distanceBack_cons_of_ne (h : x ≠ y) :
    distanceBack (x :: a) (y :: b) =
      1 + min (min (distanceBack a b) (distanceBack a (y :: b))) (distanceBack (x :: a) b) := by
  simp [distanceBack, EditTable.cellValue, h]

theorem distanceBack_comm (a b : List Char) : distanceBack a b = distanceBack b a := by
  fun_induction distanceBack a b with
  | case1 b => simp
  | case2 a => simp
  | case3 x a y b ihDiagonal ihUp ihLeft =>
    by_cases h : x = y
    · subst h
      simp [EditTable.cellValue, distanceBack_cons_self, ihDiagonal]
    · rw [distanceBack_cons_of_ne (Ne.symm h), ← ihDiagonal, ← ihUp, ← ihLeft]
      simp only [EditTable.cellValue, beq_iff_eq, h, if_false]
      omega

/-- If no value rises by more than one to the right, none falls by more than one
downwards. -/
theorem distanceBack_le_below {a : List Char}
    (hright : ∀ y b, distanceBack a (y :: b) ≤ distanceBack a b + 1) (x : Char) (b : List Char) :
    distanceBack a b ≤ distanceBack (x :: a) b + 1 := by
  induction b with
  | nil =>
    simp only [distanceBack_nil_right, List.length_cons]
    omega
  | cons y b ih =>
    have hstep := hright y b
    by_cases h : x = y
    · subst h
      rw [distanceBack_cons_self]
      exact hstep
    · rw [distanceBack_cons_of_ne h]
      omega

/-- No value rises by more than one to the right. -/
theorem distanceBack_cons_right_le (a : List Char) (y : Char) (b : List Char) :
    distanceBack a (y :: b) ≤ distanceBack a b + 1 := by
  induction a generalizing y b with
  | nil => simp
  | cons x a ih =>
    by_cases h : x = y
    · subst h
      rw [distanceBack_cons_self]
      exact distanceBack_le_below ih x b
    · rw [distanceBack_cons_of_ne h]
      omega

/-- No value rises by more than one downwards. -/
theorem distanceBack_cons_left_le (x : Char) (a b : List Char) :
    distanceBack (x :: a) b ≤ distanceBack a b + 1 := by
  rw [distanceBack_comm (x :: a), distanceBack_comm a]
  exact distanceBack_cons_right_le b x a

/-- Following the diagonal costs one at most, and nothing where the characters agree. -/
theorem distanceBack_cons_cons_le (x y : Char) (a b : List Char) :
    distanceBack (x :: a) (y :: b) ≤ distanceBack a b + if x = y then 0 else 1 := by
  by_cases h : x = y
  · subst h
    simp [distanceBack_cons_self]
  · rw [distanceBack_cons_of_ne h, if_neg h]
    omega

/-- No value falls by more than one downwards. -/
theorem distanceBack_le_cons_left (x : Char) (a b : List Char) :
    distanceBack a b ≤ distanceBack (x :: a) b + 1 :=
  distanceBack_le_below (distanceBack_cons_right_le a) x b

/-- No value falls by more than one to the right. -/
theorem distanceBack_le_cons_right (a : List Char) (y : Char) (b : List Char) :
    distanceBack a b ≤ distanceBack a (y :: b) + 1 := by
  rw [distanceBack_comm a, distanceBack_comm a]
  exact distanceBack_le_cons_left y b a

/-- No value falls along the diagonal. -/
theorem distanceBack_le_cons_cons (x y : Char) (a b : List Char) :
    distanceBack a b ≤ distanceBack (x :: a) (y :: b) := by
  by_cases h : x = y
  · subst h
    rw [distanceBack_cons_self]
  · have hup := distanceBack_le_cons_right a y b
    have hleft := distanceBack_le_cons_left x a b
    rw [distanceBack_cons_of_ne h]
    omega

end

/-- No alignment is cheaper than the recurrence. -/
theorem distanceBack_le_mismatches {columns : List Column} {a b : List Char}
    (h : Spells columns a b) : distanceBack a b ≤ mismatches columns := by
  induction columns generalizing a b with
  | nil =>
    obtain ⟨rfl, rfl, -⟩ := h
    simp
  | cons c rest ih =>
    obtain ⟨rfl, rfl, hgap⟩ := h
    have hrest := ih ⟨rfl, rfl, fun d hd => hgap d (List.mem_cons_of_mem _ hd)⟩
    have hc := hgap c List.mem_cons_self
    -- Without its first column, the list aligns what the recurrence compares next.
    obtain ⟨_ | x, _ | y⟩ := c
    · exact absurd rfl hc
    · have hstep := distanceBack_cons_right_le (rest.filterMap Column.source) y
        (rest.filterMap Column.target)
      simp only [List.filterMap_cons, mismatches_cons, Column.operation, reduceCtorEq, if_false]
      omega
    · have hstep := distanceBack_cons_left_le x (rest.filterMap Column.source)
        (rest.filterMap Column.target)
      simp only [List.filterMap_cons, mismatches_cons, Column.operation, reduceCtorEq, if_false]
      omega
    · have hstep := distanceBack_cons_cons_le x y (rest.filterMap Column.source)
        (rest.filterMap Column.target)
      simp only [List.filterMap_cons, mismatches_cons, Column.operation]
      split_ifs at hstep ⊢ <;> simp_all <;> omega

section
variable {a b : List Char} {k : ℕ}

theorem mem_alignmentCosts_insert (h : k ∈ alignmentCosts a b) (y : Char) :
    1 + k ∈ alignmentCosts a (y :: b) := by
  obtain ⟨columns, hspells, rfl⟩ := h
  refine ⟨⟨none, some y⟩ :: columns, hspells.cons (by simp), ?_⟩
  simp [mismatches_cons, Column.operation, Nat.add_comm]

theorem mem_alignmentCosts_delete (h : k ∈ alignmentCosts a b) (x : Char) :
    1 + k ∈ alignmentCosts (x :: a) b := by
  obtain ⟨columns, hspells, rfl⟩ := h
  refine ⟨⟨some x, none⟩ :: columns, hspells.cons (by simp), ?_⟩
  simp [mismatches_cons, Column.operation, Nat.add_comm]

theorem mem_alignmentCosts_keep (h : k ∈ alignmentCosts a b) (x : Char) :
    k ∈ alignmentCosts (x :: a) (x :: b) := by
  obtain ⟨columns, hspells, rfl⟩ := h
  refine ⟨⟨some x, some x⟩ :: columns, hspells.cons (by simp), ?_⟩
  simp [mismatches_cons, Column.operation]

theorem mem_alignmentCosts_substitute (h : k ∈ alignmentCosts a b) {x y : Char} (hne : x ≠ y) :
    1 + k ∈ alignmentCosts (x :: a) (y :: b) := by
  obtain ⟨columns, hspells, rfl⟩ := h
  refine ⟨⟨some x, some y⟩ :: columns, hspells.cons (by simp), ?_⟩
  simp [mismatches_cons, Column.operation, hne, Nat.add_comm]

end

/-- Some alignment costs as much as the recurrence. -/
theorem distanceBack_mem_alignmentCosts (a b : List Char) :
    distanceBack a b ∈ alignmentCosts a b := by
  fun_induction distanceBack a b with
  | case1 b =>
    induction b with
    | nil => exact ⟨[], .nil, rfl⟩
    | cons y b ih =>
      rw [List.length_cons, Nat.add_comm]
      exact mem_alignmentCosts_insert ih y
  | case2 a hne =>
    clear hne
    induction a with
    | nil => exact ⟨[], .nil, rfl⟩
    | cons x a ih =>
      rw [List.length_cons, Nat.add_comm]
      exact mem_alignmentCosts_delete ih x
  | case3 x a y b ihDiagonal ihUp ihLeft =>
    by_cases h : x = y
    · subst h
      simpa [EditTable.cellValue] using mem_alignmentCosts_keep ihDiagonal x
    · simp only [EditTable.cellValue, beq_iff_eq, h, if_false]
      rcases min_choice (min (distanceBack a b) (distanceBack a (y :: b)))
        (distanceBack (x :: a) b) with hmin | hmin
      · rw [hmin]
        rcases min_choice (distanceBack a b) (distanceBack a (y :: b)) with hmin | hmin
        · rw [hmin]
          exact mem_alignmentCosts_substitute ihDiagonal h
        · rw [hmin]
          exact mem_alignmentCosts_delete ihUp x
      · rw [hmin]
        exact mem_alignmentCosts_insert ihLeft y

/-- The recurrence gives the cost of the cheapest alignment. -/
theorem isLeast_distanceBack (a b : List Char) :
    IsLeast (alignmentCosts a b) (distanceBack a.reverse b.reverse) := by
  constructor
  · obtain ⟨columns, hspells, hcost⟩ := distanceBack_mem_alignmentCosts a.reverse b.reverse
    refine ⟨columns.reverse, ?_, by rw [mismatches_reverse, hcost]⟩
    simpa using hspells.reverse
  · rintro k ⟨columns, hspells, rfl⟩
    rw [← mismatches_reverse]
    exact distanceBack_le_mismatches hspells.reverse

end ClassicAlgorithms
