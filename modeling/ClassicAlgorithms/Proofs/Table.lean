import Mathlib.Data.Nat.Notation
import Mathlib.Logic.Function.Basic

/-!
# Tables of functions

A table is the array of all values of a function below a bound. Writing one entry
is updating the function at one place, so that a loop that fills an array is
followed by what it does to a function.
-/
namespace ClassicAlgorithms

/-- The first `n` values of `f`. -/
def table {α : Type} (n : ℕ) (f : ℕ → α) : Array α := Array.ofFn fun i : Fin n => f i

section
variable {α : Type} {n : ℕ} {f : ℕ → α}

@[simp] theorem size_table : (table n f).size = n := by simp [table]

theorem table_congr {f' : ℕ → α} (h : ∀ v < n, f v = f' v) : table n f = table n f' :=
  congrArg Array.ofFn (funext fun v => h v v.isLt)

theorem getElem?_table {v : ℕ} (h : v < n) : (table n f)[v]? = some (f v) := by
  simp [table, h]

theorem getElem?_table_eq_some_iff {v : ℕ} {x : α} :
    (table n f)[v]? = some x ↔ v < n ∧ f v = x := by
  simp [table, Array.getElem?_eq_some_iff]

theorem getD_table {v : ℕ} (h : v < n) (d : α) : (table n f).getD v d = f v := by
  simp [table, Array.getD, h]

theorem table_setIfInBounds (n : ℕ) (f : ℕ → α) (v : ℕ) (x : α) :
    (table n f).setIfInBounds v x = table n (Function.update f v x) := by
  apply Array.ext
  · simp
  · intro i hi _
    have hn : i < n := by simpa using hi
    by_cases h : v = i
    · subst h
      simp [table]
    · rw [Array.getElem_setIfInBounds (by simpa using hn), if_neg h]
      simp [table, Function.update_of_ne (Ne.symm h)]

theorem replicate_eq_table (n : ℕ) (x : α) : Array.replicate n x = table n fun _ => x := by
  apply Array.ext <;> simp [table]

theorem map_range_eq_table (n : ℕ) (f : ℕ → α) : ((List.range n).map f).toArray = table n f := by
  apply Array.ext <;> simp [table]

end

end ClassicAlgorithms
