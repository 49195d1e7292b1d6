import QueryEditor.Text.Digits

namespace QueryEditor.Text

theorem decimalValue_nil : decimalValue [] = 0 := rfl

theorem decimalValue_eq_ofDigitChars (digits : List Char) :
    decimalValue digits = Nat.ofDigitChars 10 digits 0 := rfl

theorem decimalValue_toDigits (n : Nat) : decimalValue (Nat.toDigits 10 n) = n := by
  rw [decimalValue_eq_ofDigitChars, Nat.ofDigitChars_ten_toDigits]

theorem decimalValue_append (left right : List Char) :
    decimalValue (left ++ right) =
      Nat.pow 10 right.length * decimalValue left + decimalValue right := by
  simp only [decimalValue_eq_ofDigitChars, Nat.ofDigitChars_append, Nat.pow_eq]
  exact Nat.ofDigitChars_eq_ofDigitChars_zero

theorem decimalValue_zeros (count : Nat) : decimalValue (List.replicate count '0') = 0 := by
  rw [decimalValue_eq_ofDigitChars, Nat.ofDigitChars_replicate_zero, Nat.mul_zero]

theorem decimalValue_append_zeros (digits : List Char) (count : Nat) :
    decimalValue (digits ++ List.replicate count '0') = Nat.pow 10 count * decimalValue digits := by
  rw [decimalValue_append, decimalValue_zeros, List.length_replicate, Nat.add_zero]

theorem decimalValue_zeros_append (count : Nat) (digits : List Char) :
    decimalValue (List.replicate count '0' ++ digits) = decimalValue digits := by
  rw [decimalValue_append, decimalValue_zeros, Nat.mul_zero, Nat.zero_add]

theorem isDigit_eq (c : Char) : isDigit c = c.isDigit := by
  simp only [isDigit, Char.isDigit, Char.le_def]

theorem toDigits_all_digits (n : Nat) : (Nat.toDigits 10 n).all isDigit = true := by
  rw [List.all_eq_true]
  intro c member
  rw [isDigit_eq]
  exact Nat.isDigit_of_mem_toDigits (by decide) (by decide) member

theorem zeros_all_digits (count : Nat) : (List.replicate count '0').all isDigit = true := by
  rw [List.all_replicate]
  split <;> rfl

theorem toDigits_times_ten (n : Nat) (positive : 0 < n) :
    Nat.toDigits 10 (10 * n) = Nat.toDigits 10 n ++ ['0'] := by
  have step := Nat.toDigits_append_toDigits (b := 10) (n := n) (d := 0) (by decide) positive (by decide)
  rw [Nat.add_zero, Nat.toDigits_zero] at step
  exact step.symm

theorem toDigits_head (n : Nat) (positive : 0 < n) : (Nat.toDigits 10 n).head? ≠ some '0' := by
  induction n using Nat.strongRecOn with
  | ind n shorter =>
    rw [Nat.toDigits_eq_if (by decide)]
    split
    case isTrue small =>
      have digit : n.digitChar ≠ '0' := by
        have cases : n = 1 ∨ n = 2 ∨ n = 3 ∨ n = 4 ∨ n = 5 ∨ n = 6 ∨ n = 7 ∨ n = 8 ∨ n = 9 := by omega
        rcases cases with rfl | rfl | rfl | rfl | rfl | rfl | rfl | rfl | rfl <;> decide
      simpa using digit
    case isFalse large =>
      have above := shorter (n / 10) (by omega) (by omega)
      cases whole : Nat.toDigits 10 (n / 10) with
      | nil => exact absurd whole Nat.toDigits_ne_nil
      | cons c rest =>
        rw [whole] at above
        simpa using above

end QueryEditor.Text
