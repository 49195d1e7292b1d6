import QueryEditor.Proofs.Binary64.Rounding
import QueryEditor.Proofs.Binary64.Numeral

namespace QueryEditor

open Text

namespace Binary64

/-- The digits that are written for a decimal number, without the zeros at the end, stand for it. -/
structure Spells (digits : List Char) (power : Int) (decimal : Decimal) : Prop where
  nonempty : digits ≠ []
  all : digits.all isDigit = true
  head : digits.head? ≠ some '0'
  value : ∀ negative, ofDecimal negative (decimalValue digits) (power - digits.length + 1) =
    ofDecimal negative decimal.digits decimal.exponent

theorem dropped_zeros (digits : List Char) :
    ∃ count, digits =
      (digits.reverse.dropWhile (· == '0')).reverse ++ List.replicate count '0' := by
  have whole : digits.reverse.takeWhile (· == '0') ++ digits.reverse.dropWhile (· == '0') =
      digits.reverse := List.takeWhile_append_dropWhile
  refine ⟨(digits.reverse.takeWhile (· == '0')).length, ?_⟩
  have zeros : digits.reverse.takeWhile (· == '0') =
      List.replicate (digits.reverse.takeWhile (· == '0')).length '0' := by
    rw [List.eq_replicate_iff]
    refine ⟨rfl, fun c member => ?_⟩
    have zero := List.all_takeWhile (l := digits.reverse) (p := (· == '0'))
    rw [List.all_eq_true] at zero
    exact eq_of_beq (zero c member)
  calc
    digits = digits.reverse.reverse := (List.reverse_reverse digits).symm
    _ = (digits.reverse.dropWhile (· == '0')).reverse ++
          (digits.reverse.takeWhile (· == '0')).reverse := by rw [← List.reverse_append, whole]
    _ = _ := by rw [zeros, List.reverse_replicate, List.length_replicate]

theorem significant_spells (decimal : Decimal) (positive : 0 < decimal.digits) :
    Spells decimal.significant.1 decimal.significant.2 decimal := by
  obtain ⟨count, whole⟩ := dropped_zeros (Nat.toDigits 10 decimal.digits)
  have kept : decimal.significant.1 =
    ((Nat.toDigits 10 decimal.digits).reverse.dropWhile (· == '0')).reverse := rfl
  rw [← kept] at whole
  have value : Nat.pow 10 count * decimalValue decimal.significant.1 = decimal.digits := by
    rw [← decimalValue_append_zeros, ← whole, decimalValue_toDigits]
  have nonempty : decimal.significant.1 ≠ [] := by
    intro empty
    rw [empty, decimalValue_nil, Nat.mul_zero] at value
    omega
  have all := toDigits_all_digits decimal.digits
  have head := toDigits_head decimal.digits positive
  have length := congrArg List.length whole
  rw [whole, List.all_append, Bool.and_eq_true] at all
  rw [whole] at head
  rw [List.length_append, List.length_replicate] at length
  refine ⟨nonempty, all.1, ?_, fun negative => ?_⟩
  · cases first : decimal.significant.1 with
    | nil => exact absurd first nonempty
    | cons c rest =>
      rw [first] at head
      simpa using head
  · have power : decimal.significant.2 - decimal.significant.1.length + 1 =
        decimal.exponent + count := by
      have leading : decimal.significant.2 =
        decimal.exponent + (Nat.toDigits 10 decimal.digits).length - 1 := rfl
      omega
    rw [power, ← ofDecimal_times_power, value]

def laidOut (negative : Bool) (digits : List Char) (power : Int) : Numeral :=
  if power < -4 || 16 ≤ power then
    ⟨negative, digits.take 1, if digits.length ≤ 1 then none else some (digits.drop 1), some power⟩
  else if power < 0 then
    ⟨negative, ['0'], some (zeros ((-power).toNat - 1) ++ digits), none⟩
  else
    let places := power.toNat + 1
    let fraction := digits.drop places
    ⟨negative, digits.take places ++ zeros (places - digits.length),
      some (if fraction.isEmpty then ['0'] else fraction), none⟩

theorem layout_spelled (negative : Bool) (digits : List Char) (power : Int) :
    Numeral.spelledSign negative ++ layout digits power = (laidOut negative digits power).spelled := by
  unfold layout laidOut Numeral.spelled
  split
  · by_cases single : digits.length ≤ 1 <;>
      simp [single, Numeral.spelledFraction, Numeral.spelledExponent]
  split
  · simp [Numeral.spelledFraction, Numeral.spelledExponent]
  · simp [Numeral.spelledFraction, Numeral.spelledExponent]

variable {digits : List Char} {power : Int} {decimal : Decimal}

theorem Spells.laidOut_regular (spells : Spells digits power decimal) (negative : Bool) :
    (laidOut negative digits power).Regular := by
  have taken : ∀ count, (digits.take count).all isDigit = true := fun count =>
    List.all_eq_true.mpr fun c member =>
      List.all_eq_true.mp spells.all c (List.mem_of_mem_take member)
  have dropped : ∀ count, (digits.drop count).all isDigit = true := fun count =>
    List.all_eq_true.mpr fun c member =>
      List.all_eq_true.mp spells.all c (List.mem_of_mem_drop member)
  unfold laidOut
  split
  · refine ⟨taken 1, by simp [spells.nonempty], ?_⟩
    intro places member
    split at member
    · cases member
    · cases member
      exact dropped 1
  split
  · refine ⟨rfl, by simp, ?_⟩
    intro places member
    cases member
    rw [List.all_append, zeros, zeros_all_digits, spells.all, Bool.and_self]
  · refine ⟨?_, by simp [spells.nonempty], ?_⟩
    · rw [List.all_append, taken, zeros, zeros_all_digits, Bool.and_self]
    · intro places member
      cases member
      split
      · rfl
      · exact dropped _

theorem Spells.laidOut_plain (spells : Spells digits power decimal) (negative : Bool) :
    (laidOut negative digits power).isPlain = true ∧ (laidOut negative digits power).isWhole = false := by
  obtain ⟨c, rest, rfl⟩ := List.exists_cons_of_ne_nil spells.nonempty
  have first : c ≠ '0' := by simpa using spells.head
  unfold laidOut
  split
  · cases rest <;> simp [Numeral.isPlain, Numeral.isWhole, first]
  split
  · simp [Numeral.isPlain, Numeral.isWhole]
  · by_cases none : rest.length ≤ power.toNat <;>
      simp [Numeral.isPlain, Numeral.isWhole, first, none]

theorem Spells.laidOut_value (spells : Spells digits power decimal) (negative : Bool) :
    (laidOut negative digits power).toBinary64 =
      ofDecimal negative (decimalValue digits) (power - digits.length + 1) := by
  have length : 0 < digits.length := List.length_pos_iff.mpr spells.nonempty
  unfold laidOut Numeral.toBinary64
  split
  · by_cases single : digits.length ≤ 1
    · have whole : digits.take 1 ++ [] = digits := by
        rw [List.append_nil, List.take_of_length_le single]
      have exponent : power - (([] : List Char).length : Int) = power - digits.length + 1 := by
        simp only [List.length_nil]
        omega
      simp only [single, ite_true, Option.getD_none, Option.getD_some, whole, exponent]
    · have exponent : power - ((digits.drop 1).length : Int) = power - digits.length + 1 := by
        rw [List.length_drop]
        omega
      simp only [single, ite_false, Option.getD_some, List.take_append_drop, exponent]
  split
  · have value : decimalValue (['0'] ++ (zeros ((-power).toNat - 1) ++ digits)) = decimalValue digits := by
      rw [zeros, ← List.append_assoc]
      exact decimalValue_zeros_append ((-power).toNat - 1 + 1) digits
    have exponent : (0 : Int) - ((zeros ((-power).toNat - 1) ++ digits).length : Int) =
        power - digits.length + 1 := by
      rw [zeros, List.length_append, List.length_replicate]
      omega
    simp only [Option.getD_some, Option.getD_none, value, exponent]
  · by_cases short : digits.length ≤ power.toNat + 1
    · have none : digits.drop (power.toNat + 1) = [] := List.drop_eq_nil_of_le short
      have whole : digits.take (power.toNat + 1) ++ zeros (power.toNat + 1 - digits.length) ++ ['0'] =
          digits ++ List.replicate (power.toNat + 1 - digits.length + 1) '0' := by
        rw [List.take_of_length_le short, zeros, List.append_assoc, List.replicate_succ']
      have exponent : (0 : Int) - ((['0'].length : Nat) : Int) +
          ((power.toNat + 1 - digits.length + 1 : Nat) : Int) = power - digits.length + 1 := by
        simp only [List.length_cons, List.length_nil]
        omega
      simp only [none, List.isEmpty_nil, ite_true, Option.getD_some, Option.getD_none, whole,
        decimalValue_append_zeros, ofDecimal_times_power, exponent]
    · have some : (digits.drop (power.toNat + 1)).isEmpty = false := by
        rw [List.isEmpty_eq_false_iff, ne_eq, List.drop_eq_nil_iff]
        exact short
      have whole : digits.take (power.toNat + 1) ++ zeros (power.toNat + 1 - digits.length) ++
          digits.drop (power.toNat + 1) = digits := by
        have full : power.toNat + 1 - digits.length = 0 := by omega
        rw [full, zeros, List.replicate_zero, List.append_nil, List.take_append_drop]
      have exponent : (0 : Int) - ((digits.drop (power.toNat + 1)).length : Int) =
          power - digits.length + 1 := by
        rw [List.length_drop]
        omega
      simp only [some, Bool.false_eq_true, ite_false, Option.getD_some, Option.getD_none, whole, exponent]

def written (negative : Bool) (rank : Fin rankCount) : Numeral :=
  if rank.val = 0 then ⟨negative, ['0'], some ['0'], none⟩
  else laidOut negative (shortest rank).significant.1 (shortest rank).significant.2

theorem text_spelled (negative : Bool) (rank : Fin rankCount) :
    (finite negative rank).text.toList = (written negative rank).spelled := by
  have signed : ∀ magnitude : List Char, (if negative then '-' :: magnitude else magnitude) =
      Numeral.spelledSign negative ++ magnitude := by
    cases negative <;> intro <;> rfl
  simp only [text, String.toList_ofList, signed, written]
  split
  · rfl
  · exact layout_spelled negative _ _

theorem shortest_digits_pos (rank : Fin rankCount) (positive : 0 < rank.val) :
    0 < (shortest rank).digits := by
  have readsBack := shortest_reads_back rank positive
  rw [Nat.pos_iff_ne_zero]
  intro zero
  rw [zero, ofDecimal_eq_ratio, if_pos (Or.inl rfl)] at readsBack
  cases readsBack
  exact Nat.lt_irrefl 0 positive

theorem written_spells (rank : Fin rankCount) (positive : 0 < rank.val) :
    Spells (shortest rank).significant.1 (shortest rank).significant.2 (shortest rank) :=
  significant_spells _ (shortest_digits_pos rank positive)

theorem written_regular (negative : Bool) (rank : Fin rankCount) : (written negative rank).Regular := by
  unfold written
  split
  · refine ⟨rfl, by simp, ?_⟩
    intro places member
    cases member
    rfl
  · exact (written_spells rank (by omega)).laidOut_regular negative

theorem written_plain (negative : Bool) (rank : Fin rankCount) :
    (written negative rank).isPlain = true ∧ (written negative rank).isWhole = false := by
  unfold written
  split
  · exact ⟨rfl, rfl⟩
  · exact (written_spells rank (by omega)).laidOut_plain negative

/-- The numeral written for a finite number stands for it. -/
theorem written_value (negative : Bool) (rank : Fin rankCount) :
    (written negative rank).toBinary64 = finite negative rank := by
  unfold written
  split
  case isTrue zero =>
    have same : rank = ⟨0, by decide⟩ := Fin.ext zero
    rw [same]
    rfl
  case isFalse nonzero =>
    have positive : 0 < rank.val := Nat.pos_of_ne_zero nonzero
    have spells := written_spells rank positive
    rw [spells.laidOut_value, spells.value]
    exact ofDecimal_negative _ _ (shortest_reads_back rank positive) negative

end Binary64

end QueryEditor
