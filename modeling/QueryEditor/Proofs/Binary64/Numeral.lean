import QueryEditor.Token.Lexer
import QueryEditor.Proofs.Text.Decimal
import QueryEditor.Proofs.Text.Runs

namespace QueryEditor

open Text

namespace Numeral

def spelledSign (negative : Bool) : List Char :=
  if negative then ['-'] else []

def spelledFraction : Option (List Char) → List Char
  | none => []
  | some places => '.' :: places

def spelledExponent : Option Int → List Char
  | none => []
  | some exponent => 'e' :: (toString exponent).toList

def spelled (n : Numeral) : List Char :=
  spelledSign n.negative ++ (n.whole ++ (spelledFraction n.fraction ++ spelledExponent n.exponent))

/-- All parts that should be digits are, and there is a digit in front of any point. -/
structure Regular (n : Numeral) : Prop where
  whole : n.whole.all isDigit = true
  wholeNonempty : n.whole ≠ []
  fraction : ∀ places ∈ n.fraction, places.all isDigit = true

theorem endsNumber_head {c : Char} {rest : List Char} (ends : Token.endsNumber (c :: rest) = true) :
    isNamePart c = false ∧ c ≠ '.' := by
  simpa [Token.endsNumber] using ends

theorem endsNumber_startsIn {rest : List Char} (ends : Token.endsNumber rest = true) :
    startsIn isDigit rest = false := by
  cases rest with
  | nil => rfl
  | cons c rest =>
    have outside := (endsNumber_head ends).1
    rw [isNamePart, Bool.or_eq_false_iff] at outside
    exact outside.2

theorem sign_spelledSign {text : List Char} (unsigned : startsIn isDigit text = true)
    (negative : Bool) : sign (spelledSign negative ++ text) = (negative, text) := by
  cases negative with
  | true => rfl
  | false =>
    cases text with
    | nil => cases unsigned
    | cons c text =>
      have digit : isDigit c = true := unsigned
      have plus : c ≠ '+' := by rintro rfl; exact absurd digit (by decide)
      have minus : c ≠ '-' := by rintro rfl; exact absurd digit (by decide)
      simp [spelledSign, sign, plus, minus]

theorem digits_run {run rest : List Char} (inside : run.all isDigit = true)
    (ends : startsIn isDigit rest = false) : digits (run ++ rest) = (run, rest) := by
  rw [digits, takeWhile_run inside ends, dropWhile_run inside ends]

theorem startsIn_digits {run rest : List Char} (inside : run.all isDigit = true)
    (nonempty : run ≠ []) : startsIn isDigit (run ++ rest) = true := by
  cases run with
  | nil => exact absurd rfl nonempty
  | cons c run =>
    rw [List.all_cons, Bool.and_eq_true] at inside
    exact inside.1

theorem toString_int_spelled (number : Int) :
    (toString number).toList =
      spelledSign (decide (number < 0)) ++ Nat.toDigits 10 number.natAbs := by
  rw [Int.toString_eq_repr, Int.repr_eq_if]
  by_cases negative : number < 0
  · have magnitude : (-number).toNat = number.natAbs := by omega
    rw [if_neg (by omega), String.toList_append, magnitude, Nat.toList_repr]
    simp [spelledSign, negative]
  · have magnitude : number.toNat = number.natAbs := by omega
    rw [if_pos (by omega), magnitude, Nat.toList_repr]
    simp [spelledSign, negative]

theorem exponentAfter_spelled (exponent : Option Int) {rest : List Char}
    (ends : Token.endsNumber rest = true) :
    exponentAfter (spelledExponent exponent ++ rest) = (exponent, rest) := by
  cases exponent with
  | none =>
    cases rest with
    | nil => rfl
    | cons mark rest =>
      have outside := (endsNumber_head ends).1
      have lower : mark ≠ 'e' := by rintro rfl; exact absurd outside (by decide)
      have upper : mark ≠ 'E' := by rintro rfl; exact absurd outside (by decide)
      simp [spelledExponent, exponentAfter, lower, upper]
  | some exponent =>
    have inside := toDigits_all_digits exponent.natAbs
    have nonempty : Nat.toDigits 10 exponent.natAbs ≠ [] := Nat.toDigits_ne_nil
    have signed : sign ((toString exponent).toList ++ rest) =
        (decide (exponent < 0), Nat.toDigits 10 exponent.natAbs ++ rest) := by
      rw [toString_int_spelled, List.append_assoc]
      exact sign_spelledSign (startsIn_digits inside nonempty) _
    have value : (if decide (exponent < 0) = true then -(exponent.natAbs : Int)
        else (exponent.natAbs : Int)) = exponent := by
      by_cases negative : exponent < 0
      · simp only [negative, decide_true, ite_true]
        omega
      · simp only [negative, decide_false, Bool.false_eq_true, ite_false]
        omega
    simp only [spelledExponent, List.cons_append, exponentAfter, signed,
      digits_run inside (endsNumber_startsIn ends), decimalValue_toDigits, value]
    simp [nonempty]

theorem startsIn_spelledExponent (exponent : Option Int) {rest : List Char}
    (ends : Token.endsNumber rest = true) :
    startsIn isDigit (spelledExponent exponent ++ rest) = false := by
  cases exponent with
  | none => exact endsNumber_startsIn ends
  | some => rfl

theorem fractionAfter_spelled {whole : List Char} (nonempty : whole ≠ [])
    (fraction : Option (List Char)) (inside : ∀ places ∈ fraction, places.all isDigit = true)
    (exponent : Option Int) {rest : List Char} (ends : Token.endsNumber rest = true) :
    fractionAfter whole (spelledFraction fraction ++ (spelledExponent exponent ++ rest)) =
      (fraction, spelledExponent exponent ++ rest) := by
  cases fraction with
  | none =>
    cases exponent with
    | some exponent => rfl
    | none =>
      cases rest with
      | nil => rfl
      | cons c rest =>
        have point := (endsNumber_head ends).2
        simp [spelledFraction, spelledExponent, fractionAfter, point]
  | some places =>
    simp only [spelledFraction, List.cons_append, fractionAfter,
      digits_run (inside places rfl) (startsIn_spelledExponent exponent ends)]
    simp [nonempty]

theorem longest?_spelled {n : Numeral} (regular : n.Regular) {rest : List Char}
    (ends : Token.endsNumber rest = true) : longest? (n.spelled ++ rest) = some (n, rest) := by
  have afterWhole : startsIn isDigit
      (spelledFraction n.fraction ++ (spelledExponent n.exponent ++ rest)) = false := by
    cases n.fraction with
    | none => exact startsIn_spelledExponent n.exponent ends
    | some => rfl
  simp only [spelled, List.append_assoc, longest?,
    sign_spelledSign (startsIn_digits regular.whole regular.wholeNonempty),
    digits_run regular.whole afterWhole,
    fractionAfter_spelled regular.wholeNonempty n.fraction regular.fraction n.exponent ends,
    exponentAfter_spelled n.exponent ends]
  simp [regular.wholeNonempty]

end Numeral

end QueryEditor
