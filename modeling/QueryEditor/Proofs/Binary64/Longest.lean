import QueryEditor.Proofs.Binary64.Leading
import QueryEditor.Proofs.Token.Spelling

namespace QueryEditor.Numeral

open Text

inductive MagnitudeText : List Char → List Char → Option (List Char) → Prop
  | whole {whole : List Char} (all : whole.all isDigit = true) (nonempty : whole ≠ []) :
      MagnitudeText whole whole none
  | pointed {whole places : List Char} (all : whole.all isDigit = true)
      (behind : places.all isDigit = true) (nonempty : whole ≠ [] ∨ places ≠ []) :
      MagnitudeText (whole ++ '.' :: places) whole (some places)

inductive ExponentText : List Char → Option Int → Prop
  | none : ExponentText [] none
  | marked {mark : Char} {text : List Char} {number : Int} (isMark : mark = 'e' ∨ mark = 'E')
      (integer : IntegerText text number) : ExponentText (mark :: text) (some number)

/-- The texts of the grammar, and the numeral that each spells. -/
inductive DecimalText : List Char → Numeral → Prop
  | mk {mark magnitude power whole : List Char} {negative : Bool} {fraction : Option (List Char)}
      {exponent : Option Int} (signs : SignText mark negative)
      (digits : MagnitudeText magnitude whole fraction) (scales : ExponentText power exponent) :
      DecimalText (mark ++ (magnitude ++ power)) ⟨negative, whole, fraction, exponent⟩

def IsDecimal (text : List Char) : Prop :=
  ∃ n, DecimalText text n

variable {text rest start mark magnitude power whole places : List Char} {negative : Bool}
  {fraction : Option (List Char)} {exponent : Option Int} {n : Numeral}

def magnitudeAfter (text : List Char) : (List Char × Option (List Char)) × List Char :=
  let (whole, afterWhole) := digits text
  let (fraction, after) := fractionAfter whole afterWhole
  ((whole, fraction), after)

theorem magnitudeAfter_eq (text : List Char) :
    magnitudeAfter text =
      (((digits text).1, (fractionAfter (digits text).1 (digits text).2).1),
        (fractionAfter (digits text).1 (digits text).2).2) := rfl

theorem longest?_eq (text : List Char) :
    longest? text =
      let found := magnitudeAfter (sign text).2
      if found.1.1.isEmpty && found.1.2.isNone then none
      else some (⟨(sign text).1, found.1.1, found.1.2, (exponentAfter found.2).1⟩,
        (exponentAfter found.2).2) := rfl

theorem isEmpty_and_isNone :
    (whole.isEmpty && fraction.isNone) = false ↔ whole ≠ [] ∨ fraction ≠ none := by
  rw [Bool.and_eq_false_iff, List.isEmpty_eq_false_iff, Option.isNone_eq_false_iff,
    Option.isSome_iff_ne_none]

theorem longest?_of_parts {unsigned scaled after : List Char} (signed : sign text = (negative, unsigned))
    (found : magnitudeAfter unsigned = ((whole, fraction), scaled))
    (nonempty : whole ≠ [] ∨ fraction ≠ none) (scales : exponentAfter scaled = (exponent, after)) :
    longest? text = some (⟨negative, whole, fraction, exponent⟩, after) := by
  have goesOn := isEmpty_and_isNone.mpr nonempty
  simp only [longest?_eq, signed, found, goesOn, scales]
  rfl

theorem MagnitudeText.unsigned (digits : MagnitudeText magnitude whole fraction) (rest : List Char) :
    startsIn isSign (magnitude ++ rest) = false := by
  cases digits with
  | whole all nonempty => exact startsIn_isSign_of_isDigit (startsIn_digits all nonempty)
  | pointed all behind nonempty =>
    cases whole with
    | nil => rfl
    | cons c whole =>
      rw [List.append_assoc]
      exact startsIn_isSign_of_isDigit (startsIn_digits all (List.cons_ne_nil c whole))

theorem MagnitudeText.nonempty (digits : MagnitudeText magnitude whole fraction) :
    whole ≠ [] ∨ fraction ≠ none := by
  cases digits with
  | whole all nonempty => exact .inl nonempty
  | pointed => exact .inr (Option.some_ne_none _)

theorem fractionAfter_point (whole rest : List Char) (nonempty : whole ≠ [] ∨ (digits rest).1 ≠ []) :
    fractionAfter whole ('.' :: rest) = (some (digits rest).1, (digits rest).2) := by
  have kept : (whole.isEmpty && (digits rest).1.isEmpty) = false := by
    rwa [Bool.and_eq_false_iff, List.isEmpty_eq_false_iff, List.isEmpty_eq_false_iff]
  simp [fractionAfter, kept]

theorem fractionAfter_other (other : startsIn isPoint rest = false) :
    fractionAfter whole rest = (none, rest) := by
  rw [fractionAfter.eq_def]
  split
  · cases other
  · rfl

theorem magnitudeAfter_exact (digits : MagnitudeText magnitude whole fraction)
    (ends : startsIn isDigit rest = false) (noPoint : startsIn isPoint rest = false) :
    magnitudeAfter (magnitude ++ rest) = ((whole, fraction), rest) := by
  cases digits with
  | whole all nonempty => simp only [magnitudeAfter, digits_run all ends, fractionAfter_other noPoint]
  | @pointed _ places all behind nonempty =>
    have run : Numeral.digits (places ++ rest) = (places, rest) := digits_run behind ends
    have point := fractionAfter_point whole (places ++ rest) (by rwa [run])
    have stops : startsIn isDigit ('.' :: (places ++ rest)) = false := rfl
    simp only [magnitudeAfter, List.append_assoc, List.cons_append, digits_run all stops, point, run]

theorem magnitudeAfter_takes (digits : MagnitudeText magnitude whole fraction) (rest : List Char) :
    ∃ whole' fraction' after, magnitudeAfter (magnitude ++ rest) = ((whole', fraction'), after) ∧
      (whole' ≠ [] ∨ fraction' ≠ none) ∧ after.length ≤ rest.length := by
  have run := digits_length rest
  cases digits with
  | whole all nonempty =>
    have taken := digits_append all rest
    have left := digits_behind all rest
    have point := fractionAfter_length (Numeral.digits (magnitude ++ rest)).1
      (Numeral.digits (magnitude ++ rest)).2
    refine ⟨_, _, _, magnitudeAfter_eq _, .inl ?_, ?_⟩
    · rw [taken]
      exact List.append_ne_nil_of_left_ne_nil nonempty _
    · rw [left] at point ⊢
      omega
  | @pointed _ places all behind nonempty =>
    have taken := digits_append behind rest
    have left := digits_behind behind rest
    have point := fractionAfter_point whole (places ++ rest) (by
      rw [taken]
      exact nonempty.imp id fun some => List.append_ne_nil_of_left_ne_nil some _)
    have stops : startsIn isDigit ('.' :: (places ++ rest)) = false := rfl
    refine ⟨whole, some (Numeral.digits (places ++ rest)).1, (Numeral.digits rest).2, ?_,
      .inr (Option.some_ne_none _), by omega⟩
    simp only [magnitudeAfter, List.append_assoc, List.cons_append, digits_run all stops, point, left]

theorem exponentAfter_takes (scales : ExponentText power exponent) (rest : List Char) :
    ∃ exponent' after, exponentAfter (power ++ rest) = (exponent', after) ∧
      after.length ≤ rest.length ∧ (rest = [] → exponent' = exponent) := by
  cases scales with
  | none =>
    refine ⟨_, _, rfl, exponentAfter_length rest, ?_⟩
    rintro rfl
    rfl
  | @marked mark text number isMark integer =>
    obtain @⟨sign, places, negative, signs, nonempty, all⟩ := integer
    have unsigned := sign_digits signs nonempty all rest
    have taken := digits_append all rest
    have left := digits_behind all rest
    have run := digits_length rest
    have kept : (places ++ (digits rest).1).isEmpty = false :=
      List.isEmpty_eq_false_iff.mpr (List.append_ne_nil_of_left_ne_nil nonempty _)
    have marks : (decide (mark = 'e') || decide (mark = 'E')) = true := by simpa using isMark
    refine ⟨some (signed negative (decimalValue (places ++ (digits rest).1))), (digits rest).2, ?_,
      by omega, ?_⟩
    · simp only [List.cons_append, exponentAfter, marks, unsigned, taken, left, kept]
      rfl
    · rintro rfl
      rw [show (digits []).1 = [] from rfl, List.append_nil]

theorem ExponentText.ends (scales : ExponentText power exponent) :
    startsIn isDigit power = false ∧ startsIn isPoint power = false := by
  cases scales with
  | none => exact ⟨rfl, rfl⟩
  | marked isMark integer => rcases isMark with rfl | rfl <;> exact ⟨rfl, rfl⟩

theorem longest?_takes (decimal : DecimalText start n) (rest : List Char) :
    ∃ m after, longest? (start ++ rest) = some (m, after) ∧ after.length ≤ rest.length := by
  obtain @⟨mark, magnitude, power, whole, negative, fraction, exponent, signs, digits, scales⟩ := decimal
  cases scales with
  | none =>
    have unsigned := sign_behind signs (digits.unsigned rest)
    obtain ⟨whole', fraction', scaled, taken, nonempty, fewer⟩ := magnitudeAfter_takes digits rest
    obtain ⟨exponent', after, read, least, -⟩ := exponentAfter_takes .none scaled
    rw [List.append_nil, List.append_assoc, longest?_of_parts unsigned taken nonempty read]
    exact ⟨_, _, rfl, Nat.le_trans least fewer⟩
  | @marked c text number isMark integer =>
    have scales : ExponentText (c :: text) (some number) := .marked isMark integer
    have unsigned := sign_behind signs (digits.unsigned (c :: text ++ rest))
    have ends : startsIn isDigit (c :: text ++ rest) = false := scales.ends.1
    have taken := magnitudeAfter_exact digits ends scales.ends.2
    obtain ⟨exponent', after, read, fewer, -⟩ := exponentAfter_takes scales rest
    rw [List.append_assoc, List.append_assoc, longest?_of_parts unsigned taken digits.nonempty read]
    exact ⟨_, _, rfl, fewer⟩

theorem longest?_decimal (decimal : DecimalText start n) : longest? start = some (n, []) := by
  obtain @⟨mark, magnitude, power, whole, negative, fraction, exponent, signs, digits, scales⟩ := decimal
  have unsigned := sign_behind signs (digits.unsigned power)
  have taken := magnitudeAfter_exact digits scales.ends.1 scales.ends.2
  obtain ⟨exponent', after, read, fewer, same⟩ := exponentAfter_takes scales []
  rw [same rfl, List.append_nil, List.eq_nil_of_length_eq_zero (Nat.le_zero.mp fewer)] at read
  exact longest?_of_parts unsigned taken digits.nonempty read

theorem fractionAfter_cases (whole rest : List Char) :
    (∃ places after, fractionAfter whole rest = (some places, after) ∧
      places.all isDigit = true ∧ (whole ≠ [] ∨ places ≠ []) ∧ '.' :: places ++ after = rest) ∨
    fractionAfter whole rest = (none, rest) := by
  unfold fractionAfter
  split
  case h_1 rest =>
    dsimp only
    split
    case isTrue => exact .inr rfl
    case isFalse some =>
      rw [Bool.not_eq_true, Bool.and_eq_false_iff, List.isEmpty_eq_false_iff,
        List.isEmpty_eq_false_iff] at some
      exact .inl ⟨_, _, rfl, digits_all rest, some, congrArg ('.' :: ·) (digits_split rest)⟩
  case h_2 => exact .inr rfl

theorem magnitudeText_magnitudeAfter (text : List Char)
    (nonempty : (magnitudeAfter text).1.1 ≠ [] ∨ (magnitudeAfter text).1.2 ≠ none) :
    ∃ magnitude, MagnitudeText magnitude (magnitudeAfter text).1.1 (magnitudeAfter text).1.2 ∧
      magnitude ++ (magnitudeAfter text).2 = text := by
  have all := digits_all text
  have parts := digits_split text
  rw [magnitudeAfter_eq] at nonempty ⊢
  obtain ⟨places, left, read, behind, digit, spelled⟩ | read :=
    fractionAfter_cases (digits text).1 (digits text).2
  · rw [read]
    rw [← spelled, ← List.append_assoc] at parts
    exact ⟨_, .pointed all behind digit, parts⟩
  · rw [read] at nonempty ⊢
    have digit := nonempty.resolve_right fun some => some rfl
    exact ⟨_, .whole all digit, parts⟩

theorem exponentText_exponentAfter (text : List Char) :
    ∃ power, ExponentText power (exponentAfter text).1 ∧ power ++ (exponentAfter text).2 = text := by
  unfold exponentAfter
  split
  · exact ⟨[], .none, rfl⟩
  case h_2 mark rest =>
    dsimp only
    split
    case isTrue marks =>
      obtain ⟨signs, isSigns, whole⟩ := signText_sign rest
      have parts := digits_split (sign rest).2
      split
      case isTrue => exact ⟨[], .none, rfl⟩
      case isFalse some =>
        have isMark : mark = 'e' ∨ mark = 'E' := by simpa using marks
        have nonempty : (digits (sign rest).2).1 ≠ [] := by simpa using some
        refine ⟨_, .marked isMark (.mk isSigns nonempty (digits_all _)), ?_⟩
        rw [List.cons_append, List.append_assoc, parts, whole]
    case isFalse => exact ⟨[], .none, rfl⟩

theorem longest?_spells (found : longest? text = some (n, rest)) :
    ∃ start, DecimalText start n ∧ start ++ rest = text := by
  obtain ⟨mark, signs, signed⟩ := signText_sign text
  rw [longest?_eq] at found
  dsimp only at found
  split at found
  case isTrue => cases found
  case isFalse some =>
    rw [Bool.not_eq_true, isEmpty_and_isNone] at some
    obtain ⟨magnitude, digits, behindSign⟩ := magnitudeText_magnitudeAfter _ some
    obtain ⟨power, scales, behindDigits⟩ := exponentText_exponentAfter (magnitudeAfter (sign text).2).2
    cases found
    refine ⟨_, .mk signs digits scales, ?_⟩
    rw [List.append_assoc, List.append_assoc, behindDigits, behindSign, signed]

/-- The numeral that is read is spelled by the longest of the starts in the grammar. -/
theorem longest?_longest (found : longest? text = some (n, rest)) :
    ∃ start, start ++ rest = text ∧ DecimalText start n ∧ LongestStart IsDecimal text start := by
  obtain ⟨start, decimal, whole⟩ := longest?_spells found
  refine ⟨start, whole, decimal, ⟨rest, whole⟩, ⟨n, decimal⟩, ?_⟩
  rintro other ⟨behind, rfl⟩ ⟨m, formed⟩
  obtain ⟨_, after, read, fewer⟩ := longest?_takes formed behind
  rw [read] at found
  cases found
  have lengths := congrArg List.length whole
  rw [List.length_append, List.length_append] at lengths
  omega

theorem longest?_eq_none_iff :
    longest? text = none ↔ ∀ start, start <+: text → ¬ IsDecimal start := by
  constructor
  · rintro none start ⟨rest, rfl⟩ ⟨n, decimal⟩
    obtain ⟨m, after, read, -⟩ := longest?_takes decimal rest
    rw [none] at read
    cases read
  · intro never
    cases found : longest? text with
    | none => rfl
    | some answer =>
      obtain ⟨start, decimal, whole⟩ := longest?_spells found
      exact absurd ⟨_, decimal⟩ (never start ⟨_, whole⟩)

def LeadingNumber (text : List Char) (number : Binary64) : Prop :=
  ∃ start n, LongestStart IsDecimal text start ∧ DecimalText start n ∧ n.toBinary64 = number

theorem leadingNumber_iff {number : Binary64} :
    LeadingNumber text number ↔ (longest? text).map (·.1.toBinary64) = some number := by
  constructor
  · rintro ⟨start, n, longest, decimal, rfl⟩
    cases found : longest? text with
    | none => exact absurd ⟨n, decimal⟩ (longest?_eq_none_iff.mp found start longest.starts)
    | some answer =>
      obtain ⟨m, rest⟩ := answer
      obtain ⟨other, -, spells, also⟩ := longest?_longest found
      have same := also.unique longest
      subst same
      have read := longest?_decimal spells
      rw [longest?_decimal decimal] at read
      cases read
      rfl
  · intro read
    obtain ⟨⟨n, rest⟩, found, rfl⟩ := Option.map_eq_some_iff.mp read
    obtain ⟨start, -, decimal, longest⟩ := longest?_longest found
    exact ⟨start, n, longest, decimal, rfl⟩

theorem MagnitudeText.head (digits : MagnitudeText magnitude whole fraction) :
    ∃ c others, magnitude = c :: others ∧ (isDigit c = true ∨ c = '.') := by
  cases digits with
  | whole all nonempty =>
    obtain ⟨c, others, rfl⟩ := List.exists_cons_of_ne_nil nonempty
    rw [List.all_cons, Bool.and_eq_true] at all
    exact ⟨c, others, rfl, .inl all.1⟩
  | pointed all behind nonempty =>
    cases whole with
    | nil => exact ⟨_, _, rfl, .inr rfl⟩
    | cons c whole =>
      rw [List.all_cons, Bool.and_eq_true] at all
      exact ⟨c, _, rfl, .inl all.1⟩

theorem toLower_of_isDigit {c : Char} (digit : isDigit c = true) : c.toLower = c := by
  have bounds := Token.isDigit_toNat digit
  have below : ¬ (c.val ≥ 'A'.val ∧ c.val ≤ 'Z'.val) := by
    rintro ⟨above, -⟩
    have code : 65 ≤ c.toNat := UInt32.le_iff_toNat_le.mp above
    omega
  exact dif_neg below

theorem ofText?_decimal (decimal : DecimalText start n) :
    Binary64.ofText? start = some n.toBinary64 := by
  have read := longest?_decimal decimal
  obtain @⟨mark, magnitude, power, whole, negative, fraction, exponent, signs, digits, scales⟩ := decimal
  have unsigned := sign_behind signs (digits.unsigned power)
  obtain ⟨c, others, rfl, first⟩ := digits.head
  have lower : c.toLower ≠ 'i' ∧ c.toLower ≠ 'n' := by
    rcases first with digit | rfl
    · rw [toLower_of_isDigit digit]
      constructor <;> (rintro rfl; cases digit)
    · decide
  have word : ∀ d letters, d = 'i' ∨ d = 'n' →
      String.ofList ((c :: others ++ power).map Char.toLower) ≠ String.ofList (d :: letters) := by
    intro d letters letter same
    have head := (List.cons.inj (String.ofList_injective same)).1
    rcases letter with rfl | rfl
    · exact lower.1 head
    · exact lower.2 head
  simp only [Binary64.ofText?, unsigned]
  split
  case h_1 same => exact absurd same (word _ _ (.inl rfl))
  case h_2 same => exact absurd same (word _ _ (.inl rfl))
  case h_3 same => exact absurd same (word _ _ (.inr rfl))
  case h_4 => rw [read]

end QueryEditor.Numeral
