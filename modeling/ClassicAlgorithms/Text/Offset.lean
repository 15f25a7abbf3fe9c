/-!
# Byte offsets

Offsets into a text count the bytes of its UTF-8 form. An offset that falls inside
a character or behind the end cuts nothing.
-/
namespace ClassicAlgorithms.Text

/-- The number of bytes of a text. -/
def byteLength : List Char → Nat
  | [] => 0
  | c :: rest => c.utf8Size + byteLength rest

@[simp] theorem byteLength_append (first second : List Char) :
    byteLength (first ++ second) = byteLength first + byteLength second := by
  induction first with
  | nil => simp [byteLength]
  | cons c rest ih => simp [byteLength, ih, Nat.add_assoc]

/-- Cuts a text in two at an offset. -/
def cutAt? : (offset : Nat) → List Char → Option (List Char × List Char)
  | 0, text => some ([], text)
  | _ + 1, [] => none
  | offset + 1, c :: rest =>
    if c.utf8Size ≤ offset + 1 then
      (cutAt? (offset + 1 - c.utf8Size) rest).map fun (before, after) => (c :: before, after)
    else none

/-- A text is cut wherever one of its characters ends. -/
theorem cutAt?_byteLength (first second : List Char) :
    cutAt? (byteLength first) (first ++ second) = some (first, second) := by
  induction first with
  | nil => simp [byteLength, cutAt?]
  | cons c rest ih =>
    obtain ⟨size, h⟩ := Nat.exists_eq_add_one.mpr c.utf8Size_pos
    have length : byteLength (c :: rest) = (size + byteLength rest) + 1 := by
      simp [byteLength, h]; omega
    rw [length, List.cons_append, cutAt?, h]
    simp [show size + byteLength rest + 1 - (size + 1) = byteLength rest by omega, ih]

/-- The characters from one offset up to another. -/
def between? (first last : Nat) (text : List Char) : Option (List Char) := do
  let (_, rest) ← cutAt? first text
  let (word, _) ← cutAt? (last - first) rest
  return word

end ClassicAlgorithms.Text
