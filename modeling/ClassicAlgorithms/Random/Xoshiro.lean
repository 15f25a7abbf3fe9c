import ClassicAlgorithms.Random.Draw

/-!
# The xoshiro256++ generator

Four words of state, seeded from one word through a PCG32 sequence. A number
below a bound is the high half of the product of a word and the bound; words
whose low half lies beyond the last full multiple are rejected, so that every
number is equally likely. `Xoshiro.source` is the resulting source of draws.
-/
namespace ClassicAlgorithms

structure Xoshiro where
  s0 : UInt64
  s1 : UInt64
  s2 : UInt64
  s3 : UInt64
deriving DecidableEq

namespace Xoshiro

def rotateLeft (w : UInt64) (amount : UInt64) : UInt64 := (w <<< amount) ||| (w >>> (64 - amount))

def rotateRight (w : UInt32) (amount : UInt32) : UInt32 := (w >>> amount) ||| (w <<< (32 - amount))

/-- Steps the PCG32 sequence that spreads a seed over the state. -/
def seedStep (s : UInt64) : UInt64 := s * 6364136223846793005 + 11634580027462260723

/-- The output of the PCG32 sequence at `s`. -/
def seedOutput (s : UInt64) : UInt32 :=
  rotateRight (((s >>> 18) ^^^ s) >>> 27).toUInt32 (s >>> 59).toUInt32

/-- A word from the next two outputs, the low half first. -/
def seedWord (s : UInt64) : UInt64 × UInt64 :=
  let low := seedStep s
  let high := seedStep low
  ((seedOutput low).toUInt64 ||| ((seedOutput high).toUInt64 <<< 32), high)

def ofSeed (seed : UInt64) : Xoshiro :=
  let (s0, seed) := seedWord seed
  let (s1, seed) := seedWord seed
  let (s2, seed) := seedWord seed
  let (s3, _) := seedWord seed
  { s0, s1, s2, s3 }

/-- The next word. -/
def next (x : Xoshiro) : UInt64 × Xoshiro :=
  let s2 := x.s2 ^^^ x.s0
  let s3 := x.s3 ^^^ x.s1
  (rotateLeft (x.s0 + x.s3) 23 + x.s0,
    { s0 := x.s0 ^^^ s3
      s1 := x.s1 ^^^ s2
      s2 := s2 ^^^ (x.s1 <<< 17)
      s3 := rotateLeft s3 45 })

/-- The last low half that is accepted for `bound`: one less than its largest
multiple by a power of two that fits into a word. -/
def zone (bound : Nat) : Nat := (bound <<< (63 - bound.log2)) - 1

/-- Draws words until one is accepted, after `rejections` words at the latest.
Every word has at least an even chance. -/
def accepted (bound : Nat) : (rejections : Nat) → Xoshiro → Nat × Xoshiro
  | 0, x => ((x.next.1.toNat * bound) >>> 64, x.next.2)
  | rejections + 1, x =>
    let product := x.next.1.toNat * bound
    if product % UInt64.size ≤ zone bound then (product >>> 64, x.next.2)
    else accepted bound rejections x.next.2

/-- More rejections in a row than any run can go through. The bound makes every
draw total; the word taken after them is still below its bound. -/
def patience : Nat := UInt64.size

theorem highHalf_lt (w : UInt64) {bound : Nat} (h : 0 < bound) :
    (w.toNat * bound) >>> 64 < bound := by
  rw [Nat.shiftRight_eq_div_pow]
  exact Nat.div_lt_of_lt_mul (Nat.mul_lt_mul_of_pos_right w.toNat_lt h)

theorem accepted_lt {bound : Nat} (h : 0 < bound) (rejections : Nat) (x : Xoshiro) :
    (accepted bound rejections x).1 < bound := by
  fun_induction accepted bound rejections x with
  | case1 x => exact highHalf_lt _ h
  | case2 x _ _ => exact highHalf_lt _ h
  | case3 x _ _ _ ih => exact ih

/-- Draws from the generator: a toss compares one word with the odds, and a
numerator is the upper 52 bits of a word. -/
def source : DrawSource Xoshiro where
  below bound := accepted bound patience
  coin odds x := (x.next.1.toNat < odds, x.next.2)
  numerator x := ((x.next.1 >>> 12).toNat, x.next.2)
  below_lt _ x h := accepted_lt h _ x

end Xoshiro

/-- What a draw yields from the generator seeded with `seed`. -/
def Draw.ofSeed {α : Type} (draw : Draw Xoshiro α) (seed : UInt64) : Except Fault α :=
  Prod.fst <$> draw (.ofSeed seed)

end ClassicAlgorithms
