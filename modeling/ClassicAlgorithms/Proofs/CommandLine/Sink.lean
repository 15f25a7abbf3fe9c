import ClassicAlgorithms.CommandLine.Report
import Mathlib.Data.Nat.Notation

/-!
# Writing a report in pieces

A sink that takes pieces until one does not fit holds the same bytes as one that was
given all of them at once, and fails in the same cases. So how a report is cut into pieces
cannot be told from what is written, wherever the writing stops.

A writer that takes each piece in portions holds what the sink behind it would hold: portion by
portion it gets the beginning of the piece that there is room for. So what has been written of a
report depends on the room alone.
-/
namespace ClassicAlgorithms

/-- The bytes of a text in UTF-8. -/
def utf8 (text : String) : List UInt8 := text.toUTF8.toList

theorem toList_loop (bytes : ByteArray) (i : ℕ) (before : List UInt8) :
    ByteArray.toList.loop bytes i before = before.reverse ++ bytes.data.toList.drop i := by
  fun_induction ByteArray.toList.loop bytes i before with
  | case1 i before h ih =>
    have hi : i < bytes.data.toList.length := by simpa using h
    rw [ih, List.drop_eq_getElem_cons hi]
    simp [ByteArray.get!, h]
  | case2 i before h =>
    rw [List.drop_eq_nil_of_le (by simpa using h)]
    simp

theorem utf8_eq (text : String) : utf8 text = text.toByteArray.data.toList := by
  simp [utf8, String.toUTF8, ByteArray.toList, toList_loop]

theorem utf8_append (first second : String) :
    utf8 (first ++ second) = utf8 first ++ utf8 second := by
  simp [utf8_eq]

theorem utf8_join (pieces : List String) : utf8 (String.join pieces) = pieces.flatMap utf8 := by
  induction pieces with
  | nil => simp [utf8_eq]
  | cons piece rest ih => rw [String.join_cons, utf8_append, ih, List.flatMap_cons]

namespace Sink

variable {s : Sink} {first : List UInt8}

/-- What fits can be written in two steps. -/
theorem write_write (h : first.length ≤ s.room) (second : List UInt8) :
    (s.write first).1.write second = s.write (first ++ second) := by
  have hmore : s.room - first.length < second.length ↔ s.room < first.length + second.length := by
    omega
  simp [write, List.take_append, List.take_of_length_le h, hmore, Nat.sub_sub,
    ← Array.toList_inj]

/-- Behind what does not fit nothing is written. -/
theorem write_append_of_lt (h : s.room < first.length) (second : List UInt8) :
    s.write (first ++ second) = s.write first := by
  have hfirst : s.room - first.length = 0 := by omega
  have hboth : s.room - (first.length + second.length) = 0 := by omega
  have hfault : s.room < first.length + second.length := by omega
  simp [write, List.take_append, hfirst, hboth, hfault, h]

theorem write_of_le (h : first.length ≤ s.room) :
    s.write first = (⟨s.taken ++ first, s.room - first.length⟩, none) := by
  simp [write, List.take_of_length_le h, Nat.not_lt.mpr h]

theorem write_of_lt (h : s.room < first.length) :
    s.write first = (⟨s.taken ++ first.take s.room, 0⟩, some .noRoom) := by
  have hroom : s.room - first.length = 0 := by omega
  simp [write, h, hroom]

theorem writeAll_eq_write (s : Sink) (pieces : List String) :
    s.writeAll pieces = s.write (pieces.flatMap utf8) := by
  induction pieces generalizing s with
  | nil => simp [writeAll, write]
  | cons piece rest ih =>
    rw [List.flatMap_cons]
    rcases Nat.lt_or_ge s.room (utf8 piece).length with h | h
    · -- The piece that does not fit is the last one in both cases.
      have hpiece : s.write piece.toUTF8.toList = (_, some .noRoom) := write_of_lt h
      rw [write_append_of_lt h, writeAll, hpiece]
      exact (write_of_lt h).symm
    · have hpiece : s.write piece.toUTF8.toList = (_, none) := write_of_le h
      rw [← write_write h, write_of_le h, ← ih, writeAll, hpiece]
      rfl

end Sink

/-- A report is written as if it were a single piece of text. -/
theorem Report.writeTo_eq (r : Report) (s : Sink) : r.writeTo s = s.write (utf8 r.render) := by
  rw [writeTo, Sink.writeAll_eq_write, render, utf8_join]

namespace Writer

variable {w : Writer} {bytes : List UInt8}

theorem share_le_room (w : Writer) (bytes : List UInt8) :
    (bytes.take (w.share bytes)).length ≤ w.sink.room := by
  simp only [share, List.length_take]
  omega

/-- Nothing is taken of something only where there is no room left. -/
theorem room_eq_zero_of_share (hbytes : bytes ≠ []) (h : w.share bytes = 0) :
    w.sink.room = 0 := by
  have hlength := List.length_pos_iff.mpr hbytes
  simp only [share] at h
  omega

/-- Taking in portions comes to the same as taking at once. -/
theorem exists_write_eq (w : Writer) (bytes : List UInt8) :
    ∃ w', w.write bytes = (w', (w.sink.write bytes).2) ∧ w'.sink = (w.sink.write bytes).1 := by
  fun_induction write w bytes with
  | case1 w => exact ⟨w, by simp [Sink.write]⟩
  | case2 w bytes hbytes hshare =>
    have hroom := room_eq_zero_of_share hbytes hshare
    have hfault : w.sink.room < bytes.length := by
      rw [hroom]
      exact List.length_pos_iff.mpr hbytes
    refine ⟨w.take bytes, ?_, ?_⟩
    · rw [Sink.write_of_lt hfault]
    · rw [Sink.write_of_lt hfault, take, hshare]
      simp [Sink.write, hroom]
  | case3 w bytes hbytes hshare ih =>
    have hsplit : (w.take bytes).sink.write (bytes.drop (w.share bytes)) = w.sink.write bytes := by
      rw [take, Sink.write_write (share_le_room w bytes), List.take_append_drop]
    rw [hsplit] at ih
    exact ih

theorem exists_writeAll_eq (w : Writer) (pieces : List String) :
    ∃ w', w.writeAll pieces = (w', (w.sink.writeAll pieces).2) ∧
      w'.sink = (w.sink.writeAll pieces).1 := by
  induction pieces generalizing w with
  | nil => exact ⟨w, rfl, rfl⟩
  | cons piece rest ih =>
    obtain ⟨w', hw', hsink⟩ := exists_write_eq w piece.toUTF8.toList
    rw [writeAll, Sink.writeAll, hw']
    cases hfault : w.sink.write piece.toUTF8.toList with
    | mk s fault =>
      rw [hfault] at hsink
      cases fault with
      | none =>
        obtain rfl : w'.sink = s := hsink
        exact ih w'
      | some fault => exact ⟨w', rfl, hsink⟩

end Writer

namespace Report

/-- Of the text of a report as much has been taken as there is room for, and writing it has failed
exactly if that is not all of it. -/
structure CutAt (r : Report) (limit : ℕ) (taken : Array UInt8) (fault : Option WriteFault) :
    Prop where
  taken_eq : taken.toList = (utf8 r.render).take (min limit (utf8 r.render).length)
  fault_iff : fault = some .noRoom ↔ limit < (utf8 r.render).length
  success_iff : fault = none ↔ (utf8 r.render).length ≤ limit

theorem cutAt_writeTo (r : Report) (limit : ℕ) :
    r.CutAt limit (r.writeTo (.ofLimit limit)).1.taken (r.writeTo (.ofLimit limit)).2 := by
  rw [writeTo_eq]
  rcases Nat.lt_or_ge limit (utf8 r.render).length with h | h
  · rw [Sink.write_of_lt h]
    exact ⟨by simp [Sink.ofLimit, Nat.min_eq_left (Nat.le_of_lt h)], by simp [h], by simpa using h⟩
  · rw [Sink.write_of_le h]
    exact ⟨by simp [Sink.ofLimit, Nat.min_eq_right h], by simpa using h, by simp [h]⟩

/-- A writer with room for `limit` bytes, whatever its portions are, is left with the first `limit`
bytes of a report, or with all of it if it has no more; and it fails exactly if it has more. What
it holds after a failure is the beginning of what a writer with more room holds. -/
theorem cutAt_writeThrough (r : Report) (limit : ℕ) :
    (∀ portion, r.CutAt limit (r.writeThrough ⟨.ofLimit limit, portion, 0⟩).1.sink.taken
      (r.writeThrough ⟨.ofLimit limit, portion, 0⟩).2) ∧
    r.CutAt limit (r.writeTo (.ofLimit limit)).1.taken (r.writeTo (.ofLimit limit)).2 ∧
    ∀ more, limit ≤ more → ∀ portion portion',
      (r.writeThrough ⟨.ofLimit limit, portion, 0⟩).1.sink.taken.toList <+:
        (r.writeThrough ⟨.ofLimit more, portion', 0⟩).1.sink.taken.toList := by
  have hthrough (limit : ℕ) (portion : ℕ → ℕ) :
      r.CutAt limit (r.writeThrough ⟨.ofLimit limit, portion, 0⟩).1.sink.taken
        (r.writeThrough ⟨.ofLimit limit, portion, 0⟩).2 := by
    obtain ⟨w, hw, hsink⟩ := Writer.exists_writeAll_eq ⟨.ofLimit limit, portion, 0⟩ r.pieces
    rw [writeThrough, hw, hsink]
    exact cutAt_writeTo r limit
  refine ⟨hthrough limit, cutAt_writeTo r limit, ?_⟩
  intro more hmore portion portion'
  rw [(hthrough limit portion).taken_eq, (hthrough more portion').taken_eq]
  exact List.take_prefix_take_left (by omega)

/-- The room ends inside a letter of two bytes, of which one is taken. -/
theorem cutAt_inside_letter :
    utf8 (Report.alignment (align "é" "e")).render = [0x31, 0x0A, 0xC3, 0xA9, 0x0A, 0x65, 0x0A] ∧
      ((Report.alignment (align "é" "e")).writeThrough
        ⟨.ofLimit 3, fun _ => 0, 0⟩).1.sink.taken.toList = [0x31, 0x0A, 0xC3] ∧
      ((Report.alignment (align "é" "e")).writeThrough ⟨.ofLimit 3, fun _ => 0, 0⟩).2 =
        some .noRoom ∧
      3 ≤ 4 ∧
      ((Report.alignment (align "é" "e")).writeThrough
          ⟨.ofLimit 3, fun _ => 0, 0⟩).1.sink.taken.toList <+:
        ((Report.alignment (align "é" "e")).writeThrough
          ⟨.ofLimit 4, fun _ => 6, 0⟩).1.sink.taken.toList := by
  have hrender : (Report.alignment (align "é" "e")).render = "1\né\ne\n" := by decide +kernel
  have hbytes : utf8 (Report.alignment (align "é" "e")).render =
      [0x31, 0x0A, 0xC3, 0xA9, 0x0A, 0x65, 0x0A] := by
    rw [utf8_eq, hrender]
    rfl
  obtain ⟨hcut, -, hgrows⟩ := cutAt_writeThrough (.alignment (align "é" "e")) 3
  refine ⟨hbytes, ?_, ?_, by omega, hgrows 4 (by omega) _ _⟩
  · rw [(hcut _).taken_eq, hbytes]
    rfl
  · rw [(hcut _).fault_iff, hbytes]
    decide

end Report

end ClassicAlgorithms
