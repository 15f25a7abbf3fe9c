import ClassicAlgorithms.Fault

/-!
# Random draws

Generators draw from a source of which nothing is known but that a number drawn
below a bound lies below it. They therefore hold for every source, and the
concrete one in `Random.Xoshiro` is needed only to make results reproducible. A
draw from an empty range is a fault rather than a hidden default.
-/
namespace ClassicAlgorithms

/-- Where random choices come from. `σ` is what the source remembers between two
of them. -/
structure DrawSource (σ : Type) where
  /-- A number below a positive bound. -/
  below : (bound : Nat) → σ → Nat × σ
  /-- A toss that comes out `true` in `odds` of 2^64 cases. -/
  coin : (odds : Nat) → σ → Bool × σ
  /-- A numerator over the denominator 2^52. -/
  numerator : σ → Nat × σ
  below_lt : ∀ bound state, 0 < bound → (below bound state).1 < bound

/-- Work that draws from a source and may fault. -/
abbrev Draw (σ : Type) := StateT σ (Except Fault)

namespace DrawSource

variable {σ α : Type}

/-- A number below `bound`. -/
def pick (src : DrawSource σ) (bound : Nat) : Draw σ Nat := fun state =>
  if bound = 0 then .error .emptyRange else .ok (src.below bound state)

/-- A number from `low` to `high`, both included. -/
def between (src : DrawSource σ) (low high : Nat) : Draw σ Nat :=
  (low + ·) <$> src.pick (high + 1 - low)

def toss (src : DrawSource σ) (odds : Nat) : Draw σ Bool := fun state => .ok (src.coin odds state)

def unitStep (src : DrawSource σ) : Draw σ Nat := fun state => .ok (src.numerator state)

/-- The candidates whose toss comes out `true`, one toss for each in order. -/
def sift (src : DrawSource σ) (odds : Nat) : List α → Draw σ (List α)
  | [] => return []
  | a :: rest => do
    let keep ← src.toss odds
    let kept ← src.sift odds rest
    return if keep then a :: kept else kept

end DrawSource

/-- Repeats one draw `count` times. -/
def Draw.replicate {σ α : Type} : (count : Nat) → Draw σ α → Draw σ (List α)
  | 0, _ => return []
  | count + 1, one => do
    let a ← one
    let rest ← Draw.replicate count one
    return a :: rest

/-- Exchanges the entries at two positions of a table. -/
def swapAt {α : Type} (table : Array α) (i j : Nat) : Except Fault (Array α) :=
  if hi : i < table.size then
    if hj : j < table.size then .ok (table.swap i j)
    else .error (.indexOutOfBounds table.size j)
  else .error (.indexOutOfBounds table.size i)

namespace DrawSource

variable {σ α : Type}

/-- Shuffles the first `last + 1` entries: the entry at `last` is exchanged with
one at or before it, and then the entries before it are shuffled. -/
def shuffleUpTo (src : DrawSource σ) : (last : Nat) → Array α → Draw σ (Array α)
  | 0, table => return table
  | last + 1, table => do
    let other ← src.between 0 (last + 1)
    src.shuffleUpTo last (← swapAt table (last + 1) other)

def shuffle (src : DrawSource σ) (items : List α) : Draw σ (List α) :=
  Array.toList <$> src.shuffleUpTo (items.length - 1) items.toArray

end DrawSource

end ClassicAlgorithms
