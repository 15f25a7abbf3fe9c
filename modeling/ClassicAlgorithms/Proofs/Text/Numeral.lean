import ClassicAlgorithms.Text.Numeral
import Mathlib.Data.Nat.Notation
import Mathlib.Tactic.SplitIfs

/-!
# How numbers are written

A number has a numeral for each choice of sign and leading zeros. These are all that is
read as this number, and each of them is, as long as the number is below the limit.
-/
namespace ClassicAlgorithms.Text

/-- The ways to write a number: an optional plus sign, any number of leading zeros, and its
decimal digits. -/
def Numeral (value : ℕ) (word : List Char) : Prop :=
  ∃ sign zeros, (sign = [] ∨ sign = ['+']) ∧
    word = sign ++ (List.replicate zeros '0' ++ Nat.toDigits 10 value)

theorem not_mem_toDigits {c : Char} (hc : c.isDigit = false) (n : ℕ) : c ∉ Nat.toDigits 10 n := by
  intro hmem
  have hdigit := Nat.isDigit_of_mem_toDigits (by decide) (Nat.le_refl 10) hmem
  rw [hc] at hdigit
  exact Bool.noConfusion hdigit

section
variable {limit start value : ℕ} {word digits : List Char}

/-- More digits never make a number smaller. -/
theorem le_ofDigitChars (digits : List Char) (start : ℕ) :
    start ≤ Nat.ofDigitChars 10 digits start := by
  rw [Nat.ofDigitChars_eq_ofDigitChars_zero]
  have hpos : 0 < 10 ^ digits.length := Nat.pow_pos (by decide)
  have hmul := Nat.le_mul_of_pos_left start hpos
  omega

theorem readDigits_eq_ok_iff :
    readDigits limit start digits = .ok value ↔
      (∀ c ∈ digits, c.isDigit = true) ∧ Nat.ofDigitChars 10 digits start = value ∧
        (digits = [] ∨ value < limit) := by
  induction digits generalizing start with
  | nil => simp [readDigits]
  | cons c rest ih =>
    have hnext : Nat.ofDigitChars 10 (c :: rest) start =
        Nat.ofDigitChars 10 rest (start * 10 + digitValue c) := by
      rw [Nat.ofDigitChars_cons, Nat.mul_comm]
      rfl
    have hle := le_ofDigitChars rest (start * 10 + digitValue c)
    rw [hnext, readDigits]
    by_cases hc : c.isDigit = true
    · by_cases hlt : start * 10 + digitValue c < limit
      · simp only [hc, hlt, if_true, ih, List.forall_mem_cons, true_and, reduceCtorEq, false_or]
        constructor
        · rintro ⟨hdigits, rfl, hend⟩
          refine ⟨hdigits, rfl, ?_⟩
          rcases hend with rfl | hend
          · simpa using hlt
          · exact hend
        · rintro ⟨hdigits, hvalue, hend⟩
          exact ⟨hdigits, hvalue, .inr hend⟩
      · simp only [hc, hlt, if_true, if_false, reduceCtorEq, false_iff, false_or]
        rintro ⟨-, rfl, hend⟩
        omega
    · simp [hc]

/-- A digit is the character of its value. -/
theorem digitChar_digitValue {c : Char} (hc : c.isDigit = true) :
    digitValue c < 10 ∧ (digitValue c).digitChar = c := by
  obtain ⟨hlow, hhigh⟩ := Char.isDigit_iff_toNat.mp hc
  have hzero : '0'.toNat = 48 := rfl
  have hnine : '9'.toNat = 57 := rfl
  have hvalue : digitValue c = c.toNat - 48 := rfl
  have hlt : digitValue c < 10 := by omega
  refine ⟨hlt, ?_⟩
  rw [← Char.toNat_inj, Nat.toNat_digitChar_of_lt_ten hlt]
  omega

/-- Digits behind a number that is not zero are appended to its decimal digits. -/
theorem toDigits_append (hdigits : ∀ c ∈ digits, c.isDigit = true) (hstart : 0 < start) :
    Nat.toDigits 10 start ++ digits = Nat.toDigits 10 (Nat.ofDigitChars 10 digits start) := by
  induction digits generalizing start with
  | nil => simp
  | cons c rest ih =>
    obtain ⟨hc, hrest⟩ := List.forall_mem_cons.mp hdigits
    obtain ⟨hlt, hchar⟩ := digitChar_digitValue hc
    have hfirst : Nat.toDigits 10 start ++ [c] = Nat.toDigits 10 (10 * start + digitValue c) := by
      rw [← Nat.toDigits_append_toDigits (by decide) hstart hlt, Nat.toDigits_of_lt_base hlt, hchar]
    calc Nat.toDigits 10 start ++ c :: rest
        = Nat.toDigits 10 start ++ [c] ++ rest := by simp
      _ = Nat.toDigits 10 (10 * start + digitValue c) ++ rest := by rw [hfirst]
      _ = Nat.toDigits 10 (Nat.ofDigitChars 10 rest (10 * start + digitValue c)) :=
        ih hrest (by omega)
      _ = Nat.toDigits 10 (Nat.ofDigitChars 10 (c :: rest) start) := by
        rw [Nat.ofDigitChars_cons]
        rfl

/-- Digits are leading zeros and the decimal digits of their number. -/
theorem exists_eq_replicate_append (hne : digits ≠ [])
    (hdigits : ∀ c ∈ digits, c.isDigit = true) :
    ∃ zeros, digits =
      List.replicate zeros '0' ++ Nat.toDigits 10 (Nat.ofDigitChars 10 digits 0) := by
  induction digits with
  | nil => exact absurd rfl hne
  | cons c rest ih =>
    obtain ⟨hc, hrest⟩ := List.forall_mem_cons.mp hdigits
    obtain ⟨hlt, hchar⟩ := digitChar_digitValue hc
    have hvalue : Nat.ofDigitChars 10 (c :: rest) 0 = Nat.ofDigitChars 10 rest (digitValue c) := by
      rw [Nat.ofDigitChars_cons, Nat.mul_zero, Nat.zero_add]
      rfl
    rw [hvalue]
    by_cases hzero : digitValue c = 0
    · have hc : c = '0' := by rw [← hchar, hzero]; rfl
      subst hc
      rw [hzero]
      by_cases hlast : rest = []
      · subst hlast
        exact ⟨0, by simp⟩
      · obtain ⟨zeros, hzeros⟩ := ih hlast hrest
        refine ⟨zeros + 1, ?_⟩
        rw [List.replicate_succ, List.cons_append, ← hzeros]
    · refine ⟨0, ?_⟩
      rw [← toDigits_append hrest (by omega), Nat.toDigits_of_lt_base hlt, hchar]
      rfl

/-- A digit is no sign. -/
theorem unsigned_of_digits (hdigits : ∀ c ∈ digits, c.isDigit = true) :
    unsigned digits = digits := by
  fun_cases unsigned digits with
  | case1 rest => exact absurd (hdigits '+' List.mem_cons_self) (by decide)
  | case2 digits hsign => rfl

theorem exists_eq_sign_append_unsigned (word : List Char) :
    ∃ sign, (sign = [] ∨ sign = ['+']) ∧ word = sign ++ unsigned word := by
  fun_cases unsigned word with
  | case1 digits => exact ⟨['+'], .inr rfl, rfl⟩
  | case2 digits hsign => exact ⟨[], .inl rfl, rfl⟩

theorem numeral_iff :
    Numeral value word ↔ unsigned word ≠ [] ∧ (∀ c ∈ unsigned word, c.isDigit = true) ∧
      Nat.ofDigitChars 10 (unsigned word) 0 = value := by
  constructor
  · rintro ⟨sign, zeros, hsign, rfl⟩
    have hdigits : ∀ c ∈ List.replicate zeros '0' ++ Nat.toDigits 10 value, c.isDigit = true := by
      intro c hc
      rcases List.mem_append.mp hc with hc | hc
      · rw [List.eq_of_mem_replicate hc]
        rfl
      · exact Nat.isDigit_of_mem_toDigits (by decide) (Nat.le_refl 10) hc
    have hunsigned : unsigned (sign ++ (List.replicate zeros '0' ++ Nat.toDigits 10 value)) =
        List.replicate zeros '0' ++ Nat.toDigits 10 value := by
      rcases hsign with rfl | rfl
      · exact unsigned_of_digits hdigits
      · rfl
    rw [hunsigned]
    refine ⟨by simp, hdigits, ?_⟩
    rw [Nat.ofDigitChars_append, Nat.ofDigitChars_replicate_zero, Nat.mul_zero,
      Nat.ofDigitChars_ten_toDigits]
  · rintro ⟨hne, hdigits, rfl⟩
    obtain ⟨sign, hsign, hword⟩ := exists_eq_sign_append_unsigned word
    obtain ⟨zeros, hzeros⟩ := exists_eq_replicate_append hne hdigits
    exact ⟨sign, zeros, hsign, by rw [← hzeros, ← hword]⟩

/-- What is read as a number are its numerals, if it is below the limit. -/
theorem readNumeral_eq_ok_iff :
    readNumeral limit word = .ok value ↔ Numeral value word ∧ value < limit := by
  rw [numeral_iff, readNumeral]
  cases hdigits : unsigned word with
  | nil => simp
  | cons c rest => simp [readDigits_eq_ok_iff, and_assoc]

end

end ClassicAlgorithms.Text
