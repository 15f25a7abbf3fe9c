import ClassicAlgorithms.Fault
import ClassicAlgorithms.Memory
import ClassicAlgorithms.Proofs.EditDistance.Fill

/-!
# Filling the table index by index

The table once more, cell by cell in one flat array: every index is computed in a machine word,
an index outside the array is a fault, and each access is written down. An array that no memory
has room for is a fault before any access. In any other the cells become those of the table, and
what is read is final when it is read.
-/
namespace ClassicAlgorithms

/-- A cell that was read or written, with the value found or left there. -/
inductive Access where
  | read (position value : ℕ)
  | write (position value : ℕ)

def Access.position : Access → ℕ
  | read position _ => position
  | write position _ => position

/-- The cells, and every access to them in order. -/
structure Store where
  cells : Array ℕ
  accesses : List Access

/-- Work on the cells. The first fault ends it. -/
abbrev Work := EStateM Fault Store

namespace Work

variable {α β : Type}

/-- The bytes of a cell. -/
def cellWidth : ℕ := 8

/-- All cells are zero at first. -/
def allocate (size : ℕ) : Work Unit := fun s =>
  if Memory.Overflows size cellWidth then .error .capacityOverflow s
  else .ok () { s with cells := Array.replicate size 0 }

def read (k : ℕ) : Work ℕ := fun s =>
  match s.cells[k]? with
  | some x => .ok x { s with accesses := s.accesses ++ [.read k x] }
  | none => .error (.indexOutOfBounds s.cells.size k) s

def write (k x : ℕ) : Work Unit := fun s =>
  if k < s.cells.size then .ok () ⟨s.cells.setIfInBounds k x, s.accesses ++ [.write k x]⟩
  else .error (.indexOutOfBounds s.cells.size k) s

/-- The position of cell `(i, j)`. -/
def locate (columns i j : ℕ) : Work ℕ :=
  if i * columns + j < UInt64.size then pure (i * columns + j)
  else throw (.internal "a position fits a machine word")

def readAt (columns i j : ℕ) : Work ℕ := do read (← locate columns i j)

def writeAt (columns i j x : ℕ) : Work Unit := do write (← locate columns i j) x

theorem readAt_eq {columns i j : ℕ} (h : i * columns + j < UInt64.size) :
    readAt columns i j = read (i * columns + j) := by
  rw [readAt, locate, if_pos h]
  rfl

theorem writeAt_eq {columns i j : ℕ} (h : i * columns + j < UInt64.size) (x : ℕ) :
    writeAt columns i j x = write (i * columns + j) x := by
  rw [writeAt, locate, if_pos h]
  rfl

/-- Without a fault, the work ends with a result and in a state of this kind. -/
def Succeeds (w : Work α) (s : Store) (post : α → Store → Prop) : Prop :=
  ∃ x s', w s = .ok x s' ∧ post x s'

section
variable {w : Work α} {f : α → Work β} {s : Store} {x : α} {post post' : α → Store → Prop}
  {next : β → Store → Prop}

theorem succeeds_pure (h : post x s) : Succeeds (pure x) s post := ⟨x, s, rfl, h⟩

theorem Succeeds.bind (h : w.Succeeds s post) (hf : ∀ x s', post x s' → (f x).Succeeds s' next) :
    (w >>= f).Succeeds s next := by
  obtain ⟨x, s', hw, hpost⟩ := h
  obtain ⟨y, t, hrest, hnext⟩ := hf x s' hpost
  refine ⟨y, t, ?_, hnext⟩
  simp [Bind.bind, EStateM.bind, hw, hrest]

theorem Succeeds.mono (h : w.Succeeds s post) (himp : ∀ x s', post x s' → post' x s') :
    w.Succeeds s post' := by
  obtain ⟨x, s', hw, hpost⟩ := h
  exact ⟨x, s', hw, himp x s' hpost⟩

end

end Work

namespace EditTable

open Work

/-- Writes `i` and the numbers behind it, each at its multiple of `stride`. -/
def countAlong (stride : ℕ) : (i count : ℕ) → Work Unit
  | _, 0 => pure ()
  | i, count + 1 => do
    write (i * stride) i
    countAlong stride (i + 1) count

/-- The value of cell `(i + 1, j + 1)`. Where the characters agree, only the diagonal is read. -/
def computeValue (columns i j : ℕ) (same : Bool) : Work ℕ := do
  let diagonal ← readAt columns i j
  if same then
    return diagonal
  else
    let up ← readAt columns i (j + 1)
    let left ← readAt columns (i + 1) j
    return 1 + min (min diagonal up) left

def computeCell (columns i j : ℕ) (same : Bool) : Work Unit := do
  let value ← computeValue columns i j same
  writeAt columns (i + 1) (j + 1) value

/-- Computes row `i + 1` from column `j + 1` on. -/
def computeRow (columns i : ℕ) (a : Char) : (j : ℕ) → (target : List Char) → Work Unit
  | _, [] => pure ()
  | j, b :: rest => do
    computeCell columns i j (a == b)
    computeRow columns i a (j + 1) rest

/-- Computes the rows below `i`. -/
def computeRows (columns : ℕ) (target : List Char) : (i : ℕ) → (source : List Char) → Work Unit
  | _, [] => pure ()
  | i, a :: rest => do
    computeRow columns i a 0 target
    computeRows columns target (i + 1) rest

/-- Fills cells that are there already: the first column, the first row, and the rest row by
row. -/
def fillInPlace (source target : List Char) : Work Unit := do
  let columns := target.length + 1
  let size := (source.length + 1) * columns
  countAlong columns 0 (size / columns)
  countAlong 1 0 (min columns size)
  computeRows columns target 0 source

def buildInPlace (source target : List Char) : Work Unit := do
  allocate ((source.length + 1) * (target.length + 1))
  fillInPlace source target

/-- Only the size decides whether there are cells to fill. -/
theorem run_buildInPlace (source target : List Char) (s : Store) :
    (buildInPlace source target).run s =
      if Memory.Overflows ((source.length + 1) * (target.length + 1)) cellWidth then
        .error .capacityOverflow s
      else (fillInPlace source target).run
        { s with cells := Array.replicate ((source.length + 1) * (target.length + 1)) 0 } := by
  show (allocate _ >>= fun _ => fillInPlace source target) s = _
  simp only [bind, EStateM.bind, allocate]
  split_ifs <;> rfl

/-- The cells are these, no access was outside the table, and what was read was final. -/
structure Holds (source target : List Char) (cells : Array ℕ) (s : Store) : Prop where
  cells_eq : s.cells = cells
  inside : ∀ access ∈ s.accesses, access.position < (source.length + 1) * (target.length + 1)
  reads_final : ∀ k x, .read k x ∈ s.accesses → x = finalCell source target k

namespace Holds

variable {source target : List Char} {cells : Array ℕ} {s : Store} {i j k p : ℕ}

theorem read (h : Holds source target cells s)
    (hk : k < (source.length + 1) * (target.length + 1))
    (hfinal : cells[k]? = some (finalCell source target k)) :
    (Work.read k).Succeeds s fun x t =>
      x = finalCell source target k ∧ Holds source target cells t := by
  have hcell : s.cells[k]? = some (finalCell source target k) := by rw [h.cells_eq, hfinal]
  refine ⟨_, { s with accesses := s.accesses ++ [.read k (finalCell source target k)] }, ?_, rfl,
    h.cells_eq, ?_, ?_⟩
  · simp [Work.read, hcell]
  · simpa [or_imp, forall_and, Access.position] using ⟨h.inside, hk⟩
  · intro l y hmem
    rcases List.mem_append.mp hmem with hmem | hmem
    · exact h.reads_final l y hmem
    · obtain ⟨rfl, rfl⟩ : l = k ∧ y = finalCell source target k := by simpa using hmem
      rfl

theorem write (h : Holds source target cells s)
    (hk : k < (source.length + 1) * (target.length + 1)) (hsize : k < cells.size) (x : ℕ) :
    (Work.write k x).Succeeds s fun _ => Holds source target (cells.setIfInBounds k x) := by
  refine ⟨(), ⟨s.cells.setIfInBounds k x, s.accesses ++ [.write k x]⟩, ?_, ?_, ?_, ?_⟩
  · rw [Work.write, if_pos (by rwa [h.cells_eq])]
  · rw [h.cells_eq]
  · simpa [or_imp, forall_and, Access.position] using ⟨h.inside, hk⟩
  · intro l y hmem
    rcases List.mem_append.mp hmem with hmem | hmem
    · exact h.reads_final l y hmem
    · simp at hmem

section
variable (hword : (source.length + 1) * (target.length + 1) < UInt64.size)
include hword

/-- Reading a cell that is filled already. -/
theorem readAt (h : Holds source target (filledTo source target p) s) (hi : i ≤ source.length)
    (hj : j ≤ target.length) (hp : i * (target.length + 1) + j < p) :
    (Work.readAt (target.length + 1) i j).Succeeds s fun x t =>
      x = prefixDistance source target i j ∧ Holds source target (filledTo source target p) t := by
  have hk := position_lt hi hj
  rw [readAt_eq (hk.trans hword), ← finalCell_at source i hj]
  exact h.read hk (getElem?_filledTo hp hk)

/-- Filling the next cell. -/
theorem writeAt (h : Holds source target (filledTo source target (i * (target.length + 1) + j)) s)
    (hi : i ≤ source.length) (hj : j ≤ target.length) :
    (Work.writeAt (target.length + 1) i j (prefixDistance source target i j)).Succeeds s fun _ =>
      Holds source target (filledTo source target (i * (target.length + 1) + j + 1)) := by
  have hk := position_lt hi hj
  rw [writeAt_eq (hk.trans hword), ← finalCell_at source i hj, ← filledTo_setIfInBounds]
  exact h.write hk (by simpa [filledTo] using hk) _

end

end Holds

variable {source target : List Char} {s : Store} {i j : ℕ}

/-- Counting along multiples leaves everything between them as it is. -/
theorem succeeds_countAlong {stride : ℕ} (hstride : 0 < stride) {count : ℕ} {f : ℕ → ℕ}
    (h : Holds source target (table ((source.length + 1) * (target.length + 1)) f) s)
    (hin : ∀ k < i + count, k * stride < (source.length + 1) * (target.length + 1)) :
    (countAlong stride i count).Succeeds s fun _ =>
      Holds source target (table ((source.length + 1) * (target.length + 1)) fun k =>
        if stride ∣ k ∧ i ≤ k / stride ∧ k / stride < i + count then k / stride else f k) := by
  induction count generalizing i f s with
  | zero =>
    have hnone : (fun k => if stride ∣ k ∧ i ≤ k / stride ∧ k / stride < i + 0 then k / stride
        else f k) = f := by
      funext k
      exact if_neg (by omega)
    rw [hnone]
    exact succeeds_pure h
  | succ count ih =>
    have hwrite := h.write (hin i (by omega)) (by simpa using hin i (by omega)) i
    rw [table_setIfInBounds] at hwrite
    refine hwrite.bind fun _ t ht => (ih ht fun k hk => hin k (by omega)).mono fun _ t ht => ?_
    convert ht using 2
    funext k
    by_cases hk : k = i * stride
    · subst hk
      have hdvd : stride ∣ i * stride := Nat.dvd_mul_left stride i
      rw [Nat.mul_div_cancel _ hstride, Function.update_self, if_pos ⟨hdvd, le_rfl, by omega⟩,
        if_neg (by omega)]
    · have hne : stride ∣ k → k / stride ≠ i := by
        rintro hdvd rfl
        exact hk (Nat.div_mul_cancel hdvd).symm
      rw [Function.update_of_ne hk]
      refine if_congr ?_ rfl rfl
      constructor
      · rintro ⟨hdvd, hle, hlt⟩
        have := hne hdvd
        exact ⟨hdvd, by omega, by omega⟩
      · rintro ⟨hdvd, hle, hlt⟩
        exact ⟨hdvd, by omega, by omega⟩

/-- The first column and the first row, in this order, are what is known in advance. -/
theorem table_counted (source target : List Char) :
    (table ((source.length + 1) * (target.length + 1)) fun k =>
      if 1 ∣ k ∧ 0 ≤ k / 1 ∧ k / 1 < 0 + (target.length + 1) then k / 1
      else if target.length + 1 ∣ k ∧ 0 ≤ k / (target.length + 1) ∧
        k / (target.length + 1) < 0 + (source.length + 1) then k / (target.length + 1)
      else 0) = filledTo source target (target.length + 1) := by
  rw [← blank_eq_filledTo, blank, map_range_eq_table]
  apply table_congr
  intro k hk
  have hrow : k / (target.length + 1) < source.length + 1 :=
    Nat.div_lt_of_lt_mul (by rwa [Nat.mul_comm])
  simp only [border, hrow, Nat.dvd_iff_mod_eq_zero, Nat.mod_one, Nat.div_one, Nat.zero_le, true_and,
    and_true, Nat.zero_add]

section
variable (hword : (source.length + 1) * (target.length + 1) < UInt64.size)
include hword

/-- The value of an inner cell is computed from final neighbours. -/
theorem succeeds_computeValue {a b : Char} (ha : source[i]? = some a) (hb : target[j]? = some b)
    (h : Holds source target (filledTo source target ((i + 1) * (target.length + 1) + (j + 1))) s) :
    (computeValue (target.length + 1) i j (a == b)).Succeeds s fun x t =>
      x = prefixDistance source target (i + 1) (j + 1) ∧
      Holds source target (filledTo source target ((i + 1) * (target.length + 1) + (j + 1))) t := by
  obtain ⟨hi, -⟩ := List.getElem?_eq_some_iff.mp ha
  obtain ⟨hj, -⟩ := List.getElem?_eq_some_iff.mp hb
  have hbelow : i + 1 ≤ source.length := hi
  have hrow : (i + 1) * (target.length + 1) = i * (target.length + 1) + (target.length + 1) :=
    Nat.succ_mul _ _
  have hvalue := prefixDistance_succ ha hb
  refine (h.readAt hword hi.le hj.le (by omega)).bind ?_
  rintro _ t ⟨rfl, h⟩
  cases hsame : a == b with
  | true =>
    rw [hsame] at hvalue
    exact succeeds_pure ⟨hvalue.symm, h⟩
  | false =>
    rw [hsame] at hvalue
    refine (h.readAt hword hi.le hj (by omega)).bind ?_
    rintro _ t ⟨rfl, h⟩
    refine (h.readAt hword hbelow hj.le (by omega)).bind ?_
    rintro _ t ⟨rfl, h⟩
    exact succeeds_pure ⟨hvalue.symm, h⟩

/-- A row is computed from left to right. -/
theorem succeeds_computeRow {a : Char} (ha : source[i]? = some a) {rest : List Char}
    (hrest : target.drop j = rest) (hj : j ≤ target.length)
    (h : Holds source target (filledTo source target ((i + 1) * (target.length + 1) + (j + 1))) s) :
    (computeRow (target.length + 1) i a j rest).Succeeds s fun _ =>
      Holds source target (filledTo source target ((i + 2) * (target.length + 1))) := by
  obtain ⟨hi, -⟩ := List.getElem?_eq_some_iff.mp ha
  induction rest generalizing j s with
  | nil =>
    have hlength : target.length = j := le_antisymm (List.drop_eq_nil_iff.mp hrest) hj
    have hend : (i + 1) * (target.length + 1) + (j + 1) = (i + 2) * (target.length + 1) := by
      rw [Nat.succ_mul (i + 1), hlength]
    rw [hend] at h
    exact succeeds_pure h
  | cons b rest ih =>
    obtain ⟨hb, hnext⟩ := getElem?_and_drop_succ hrest
    obtain ⟨hlt, -⟩ := List.getElem?_eq_some_iff.mp hb
    refine Succeeds.bind ?_ fun _ t h => ih hnext hlt h
    refine (succeeds_computeValue hword ha hb h).bind ?_
    rintro _ t ⟨rfl, h⟩
    exact h.writeAt hword hi hlt

/-- The rows are computed from top to bottom. -/
theorem succeeds_computeRows {rest : List Char} (hrest : source.drop i = rest)
    (hi : i ≤ source.length)
    (h : Holds source target (filledTo source target ((i + 1) * (target.length + 1))) s) :
    (computeRows (target.length + 1) target i rest).Succeeds s fun _ =>
      Holds source target (build source target).cells := by
  induction rest generalizing i s with
  | nil =>
    have hlength : source.length = i := le_antisymm (List.drop_eq_nil_iff.mp hrest) hi
    rw [← hlength, ← cells_build] at h
    exact succeeds_pure h
  | cons a rest ih =>
    obtain ⟨ha, hnext⟩ := getElem?_and_drop_succ hrest
    obtain ⟨hlt, -⟩ := List.getElem?_eq_some_iff.mp ha
    rw [← filledTo_succ_of_border (border_eq_finalCell_row hlt)] at h
    exact (succeeds_computeRow hword ha List.drop_zero (Nat.zero_le _) h).bind
      fun _ t h => ih hnext hlt h

/-- Cells that are zero at first are filled without a fault. -/
theorem succeeds_fillInPlace :
    (fillInPlace source target).Succeeds
      ⟨Array.replicate ((source.length + 1) * (target.length + 1)) 0, []⟩ fun _ =>
        Holds source target (build source target).cells := by
  have hzero : Holds source target (table ((source.length + 1) * (target.length + 1)) fun _ => 0)
      ⟨Array.replicate ((source.length + 1) * (target.length + 1)) 0, []⟩ :=
    ⟨replicate_eq_table _ _, by simp, by simp⟩
  have hrows : (source.length + 1) * (target.length + 1) / (target.length + 1) =
      source.length + 1 := Nat.mul_div_cancel _ (by omega)
  have hcolumns : min (target.length + 1) ((source.length + 1) * (target.length + 1)) =
      target.length + 1 := min_eq_left (Nat.le_mul_of_pos_left _ (by omega))
  rw [fillInPlace, hrows, hcolumns]
  refine (succeeds_countAlong (Nat.succ_pos _) hzero ?rows).bind fun _ s h => ?_
  case rows =>
    intro k hk
    exact Nat.mul_lt_mul_of_pos_right (by omega) (Nat.succ_pos _)
  refine (succeeds_countAlong Nat.one_pos h ?columns).bind fun _ s h => ?_
  case columns =>
    intro k hk
    have := Nat.le_mul_of_pos_left (target.length + 1) (Nat.succ_pos source.length)
    omega
  rw [table_counted] at h
  exact succeeds_computeRows hword List.drop_zero (Nat.zero_le _) (by simpa using h)

end

end EditTable

end ClassicAlgorithms
