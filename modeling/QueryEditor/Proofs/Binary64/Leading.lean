import QueryEditor.Binary64.Extent
import QueryEditor.Proofs.Binary64.Numeral

namespace QueryEditor

open Text

/-- The longest of the starts of a text that are of some form. -/
structure Text.LongestStart (form : List Char → Prop) (text start : List Char) : Prop where
  starts : start <+: text
  formed : form start
  longest : ∀ other, other <+: text → form other → other.length ≤ start.length

theorem Text.LongestStart.unique {form : List Char → Prop} {text start other : List Char}
    (first : LongestStart form text start) (second : LongestStart form text other) :
    start = other := by
  have within := first.longest other second.starts second.formed
  have around := second.longest start first.starts first.formed
  have starts := List.prefix_of_prefix_length_le first.starts second.starts around
  exact starts.eq_of_length (Nat.le_antisymm around within)

namespace Numeral

inductive SignText : List Char → Bool → Prop
  | none : SignText [] false
  | plus : SignText ['+'] false
  | minus : SignText ['-'] true

def signed (negative : Bool) (magnitude : Nat) : Int :=
  if negative then -magnitude else magnitude

inductive IntegerText : List Char → Int → Prop
  | mk {mark places : List Char} {negative : Bool} (sign : SignText mark negative)
      (nonempty : places ≠ []) (all : places.all isDigit = true) :
      IntegerText (mark ++ places) (signed negative (decimalValue places))

/-- The integer that a text starts with, which goes on for as long as there are digits. -/
def LeadingInteger (text : List Char) (number : Int) : Prop :=
  ∃ start, LongestStart (fun start => ∃ n, IntegerText start n) text start ∧ IntegerText start number

variable {text mark places : List Char} {negative : Bool} {number : Int}

theorem sign_behind (signs : SignText mark negative) (unsigned : startsIn isSign text = false) :
    sign (mark ++ text) = (negative, text) := by
  cases signs with
  | plus => rfl
  | minus => rfl
  | none =>
    rw [List.nil_append, sign.eq_def]
    split
    · cases unsigned
    · cases unsigned
    · rfl

theorem startsIn_isSign_of_isDigit (digit : startsIn isDigit text = true) :
    startsIn isSign text = false := by
  cases text with
  | nil => rfl
  | cons c rest =>
    have plus : c ≠ '+' := by rintro rfl; cases digit
    have minus : c ≠ '-' := by rintro rfl; cases digit
    simp [isSign, plus, minus]

theorem signText_sign (text : List Char) :
    ∃ mark, SignText mark (sign text).1 ∧ mark ++ (sign text).2 = text := by
  unfold sign
  split
  · exact ⟨['-'], .minus, rfl⟩
  · exact ⟨['+'], .plus, rfl⟩
  · exact ⟨[], .none, rfl⟩

theorem digits_append (all : places.all isDigit = true) (rest : List Char) :
    (digits (places ++ rest)).1 = places ++ (digits rest).1 :=
  List.takeWhile_append_of_pos (List.all_eq_true.mp all)

theorem digits_behind (all : places.all isDigit = true) (rest : List Char) :
    (digits (places ++ rest)).2 = (digits rest).2 :=
  List.dropWhile_append_of_pos (List.all_eq_true.mp all)

theorem digits_split (text : List Char) : (digits text).1 ++ (digits text).2 = text :=
  List.takeWhile_append_dropWhile

theorem digits_all (text : List Char) : (digits text).1.all isDigit = true :=
  List.all_takeWhile

theorem sign_digits (sign : SignText mark negative) (nonempty : places ≠ [])
    (all : places.all isDigit = true) (rest : List Char) :
    Numeral.sign (mark ++ places ++ rest) = (negative, places ++ rest) := by
  rw [List.append_assoc]
  exact sign_behind sign (startsIn_isSign_of_isDigit (startsIn_digits all nonempty))

theorem IntegerText.number_eq (integer : IntegerText text number) :
    number = signed (sign text).1 (decimalValue (sign text).2) := by
  obtain @⟨mark, places, negative, isSign, nonempty, all⟩ := integer
  have split := sign_digits isSign nonempty all []
  rw [List.append_nil, List.append_nil] at split
  rw [split]

theorem IntegerText.within {start : List Char} (integer : IntegerText start number)
    (starts : start <+: text) :
    ∃ mark places, start = mark ++ places ∧ places ≠ [] ∧ mark ++ (sign text).2 = text ∧
      places <+: (digits (sign text).2).1 := by
  obtain @⟨mark, places, negative, isSign, nonempty, all⟩ := integer
  obtain ⟨rest, rfl⟩ := starts
  rw [sign_digits isSign nonempty all, digits_append all]
  exact ⟨mark, places, rfl, nonempty, (List.append_assoc mark places rest).symm,
    List.prefix_append _ _⟩

theorem longestStart_integer (isSign : SignText mark (sign text).1)
    (whole : mark ++ (sign text).2 = text) (nonempty : (digits (sign text).2).1 ≠ []) :
    LongestStart (fun start => ∃ n, IntegerText start n) text (mark ++ (digits (sign text).2).1) where
  starts := by
    have starts : mark ++ (digits (sign text).2).1 <+: mark ++ (sign text).2 :=
      (List.prefix_append_right_inj mark).mpr (List.takeWhile_prefix isDigit)
    rwa [whole] at starts
  formed := ⟨_, .mk isSign nonempty (digits_all _)⟩
  longest := by
    rintro other starts ⟨n, integer⟩
    obtain ⟨mark', places, rfl, -, whole', inside⟩ := integer.within starts
    have lengths := congrArg List.length (whole.trans whole'.symm)
    have fewer := inside.length_le
    simp only [List.length_append] at lengths ⊢
    omega

theorem leadingInteger_iff : LeadingInteger text number ↔
    (digits (sign text).2).1 ≠ [] ∧
      number = signed (sign text).1 (decimalValue (digits (sign text).2).1) := by
  obtain ⟨mark, isSign, whole⟩ := signText_sign text
  constructor
  · rintro ⟨start, longest, integer⟩
    obtain ⟨_, places, -, some, -, inside⟩ := integer.within longest.starts
    have nonempty : (digits (sign text).2).1 ≠ [] := fun none =>
      some (List.prefix_nil.mp (none ▸ inside))
    have same := longest.unique (longestStart_integer isSign whole nonempty)
    have value := (IntegerText.mk isSign nonempty (digits_all _)).number_eq
    rw [← same] at value
    exact ⟨nonempty, integer.number_eq.trans value.symm⟩
  · rintro ⟨nonempty, rfl⟩
    exact ⟨_, longestStart_integer isSign whole nonempty, .mk isSign nonempty (digits_all _)⟩

theorem leadingInteger_spelled {n : Numeral} (regular : n.Regular) :
    LeadingInteger n.spelled n.toInt := by
  have after : startsIn isDigit (spelledFraction n.fraction ++ spelledExponent n.exponent) = false := by
    cases n.fraction with
    | none => cases n.exponent <;> rfl
    | some => rfl
  have signed : sign n.spelled = (n.negative,
      n.whole ++ (spelledFraction n.fraction ++ spelledExponent n.exponent)) :=
    sign_spelledSign (startsIn_digits regular.whole regular.wholeNonempty) n.negative
  rw [leadingInteger_iff, signed, digits_run regular.whole after]
  exact ⟨regular.wholeNonempty, rfl⟩

end Numeral

end QueryEditor
