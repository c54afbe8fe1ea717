import SettingsTree.Proofs.Json.Scalar

/-! # Integers that are read back

An integer of up to sixty-four bits is written with its digits, and these digits denote it. No such
text has a leading zero, a fraction or an exponent, so it is taken for nothing else.
-/

namespace SettingsTree.Number

open Text

/-- A number that its written form denotes. -/
def Exact (n : Number) : Prop := (split? n.chars).map ofParts? = some (some n)

theorem digitsValue_toDigits (n : Nat) : digitsValue (Nat.toDigits 10 n) = n := by
  have hvalue : digitsValue (Nat.toDigits 10 n) = Nat.ofDigitChars 10 (Nat.toDigits 10 n) 0 := by
    simp only [digitsValue, Nat.ofDigitChars, Nat.mul_comm]
  rw [hvalue, Nat.ofDigitChars_ten_toDigits]

/-- Only zero starts with a zero. -/
theorem head_toDigits_ne_zero {n : Nat} (h : n ≠ 0) :
    (Nat.toDigits 10 n).head? ≠ some '0' := by
  induction n using Nat.strongRecOn with
  | ind n ih =>
    by_cases hn : n < 10
    · have hdigit : ∀ m < 10, m ≠ 0 → some m.digitChar ≠ some '0' := by decide
      rw [Nat.toDigits_of_lt_base hn]
      exact hdigit n hn h
    · have hfront := ih (n / 10) (by omega) (by omega)
      obtain ⟨d, rest, hdigits⟩ :=
        List.exists_cons_of_ne_nil (Nat.toDigits_ne_nil (b := 10) (n := n / 10))
      rw [hdigits] at hfront
      rw [Nat.toDigits_of_base_le (by decide) (by omega), hdigits, List.cons_append]
      exact hfront

theorem not_leading_zero (n : Nat) :
    ¬((Nat.toDigits 10 n).head? = some '0' ∧ 1 < (Nat.toDigits 10 n).length) := by
  rintro ⟨hhead, hlength⟩
  by_cases h : n = 0
  · subst h
    simp at hlength
  · exact head_toDigits_ne_zero h hhead

theorem split?_digits {digits : List Char} (hall : ∀ c ∈ digits, isDigit c = true)
    (hne : digits ≠ []) (hzero : ¬(digits.head? = some '0' ∧ 1 < digits.length)) :
    split? digits = some ⟨false, digits, none, none⟩ ∧
      split? ('-' :: digits) = some ⟨true, digits, none, none⟩ := by
  have htake : digits.takeWhile isDigit = digits := List.takeWhile_eq_self_iff.2 hall
  have hdrop : digits.dropWhile isDigit = [] := List.dropWhile_eq_nil_iff.2 hall
  constructor
  · have hsign : ∀ rest, digits ≠ '-' :: rest := by
      rintro rest rfl
      exact absurd (hall '-' List.mem_cons_self) (by decide)
    unfold split?
    split
    · next rest => exact absurd rfl (hsign rest)
    · simp [htake, hdrop, hne, hzero, readTail?]
  · simp [split?, htake, hdrop, hne, hzero, readTail?]

theorem int_exact {value : Int} (low : -0x8000000000000000 ≤ value)
    (high : value < 0x10000000000000000) : (int value).Exact := by
  obtain ⟨hplain, hsigned⟩ := split?_digits (fun c => isDigit_of_mem_toDigits)
    Nat.toDigits_ne_nil (not_leading_zero value.natAbs)
  by_cases h : value < 0
  · have hvalue : -(value.natAbs : Int) = value := by omega
    have hrange : 0 < value.natAbs ∧ value.natAbs ≤ 0x8000000000000000 := by omega
    simp only [Exact, chars, h, if_true, hsigned, Option.map_some, ofParts?, digitsValue_toDigits,
      hrange.1, hrange.2, hvalue, decide_true, Bool.and_self]
  · have hvalue : (value.natAbs : Int) = value := by omega
    have hrange : value.natAbs < 0x10000000000000000 := by omega
    simp only [Exact, chars, h, if_false, hplain, Option.map_some, ofParts?, digitsValue_toDigits,
      hrange, hvalue, decide_true, Bool.and_self, if_true, Bool.false_eq_true]

end SettingsTree.Number
