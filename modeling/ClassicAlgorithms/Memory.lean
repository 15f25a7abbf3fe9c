/-!
# Memory

A table is stored in one piece. How large a piece can be had is up to the machine, so a
table whose size comes from input is made only if the memory grants it. A table with more
bytes than a signed word can count is granted nowhere.
-/
namespace ClassicAlgorithms

/-- The most bytes that a table can have. -/
def Memory.sizeLimit : Nat := (1 <<< 63) - 1

/-- The memory that tables are stored in. -/
class Memory where
  /-- The bytes of the largest table that it grants. -/
  largest : Nat
  /-- A table that fits on a page is always granted. -/
  page_le_largest : 4096 ≤ largest
  largest_le_sizeLimit : largest ≤ Memory.sizeLimit

namespace Memory

/-- The memory of a machine with 47 bits of addresses for a program. -/
instance addressSpace : Memory where
  largest := 1 <<< 47
  page_le_largest := by decide
  largest_le_sizeLimit := by decide

/-- No memory has room for a table of `count` entries of `width` bytes. -/
def Overflows (count width : Nat) : Prop := sizeLimit < count * width

instance (count width : Nat) : Decidable (Overflows count width) :=
  inferInstanceAs (Decidable (_ < _))

/-- The memory grants a table of `count` entries of `width` bytes. -/
def Grants [Memory] (count width : Nat) : Prop := count * width ≤ largest

instance [Memory] (count width : Nat) : Decidable (Grants count width) :=
  inferInstanceAs (Decidable (_ ≤ _))

section
variable [Memory] {count count' width width' : Nat}

/-- What is granted is granted to smaller tables as well. -/
theorem Grants.mono (h : Grants count width) (hcount : count' ≤ count) (hwidth : width' ≤ width) :
    Grants count' width' :=
  Nat.le_trans (Nat.mul_le_mul hcount hwidth) h

theorem Grants.not_overflows (h : Grants count width) : ¬ Overflows count width :=
  Nat.not_lt.mpr (Nat.le_trans h largest_le_sizeLimit)

theorem grants_of_le_page (h : count * width ≤ 4096) : Grants count width :=
  Nat.le_trans h page_le_largest

end

end Memory

end ClassicAlgorithms
