import QueryEditor.Proofs.Binary64.Longest
import QueryEditor.Proofs.Text.Bytes

namespace QueryEditor.Numeral

open Text

variable {text rest : List Char} {offset : Nat}

theorem isDigit_ascii : IsAscii isDigit := by
  intro c digit
  have bounds := Token.isDigit_toNat digit
  omega

theorem isSign_ascii : IsAscii isSign := by
  intro c sign
  simp only [isSign, Bool.or_eq_true, beq_iff_eq] at sign
  rcases sign with rfl | rfl <;> decide

theorem isPoint_ascii : IsAscii isPoint := by
  intro c point
  simp only [isPoint, beq_iff_eq] at point
  subst c
  decide

theorem isExponentMark_ascii : IsAscii isExponentMark := by
  intro c mark
  simp only [isExponentMark, Bool.or_eq_true, beq_iff_eq] at mark
  rcases mark with rfl | rfl <;> decide

theorem restAt_next {c : Char} (small : c.toNat < 128) (here : RestAt text offset (c :: rest)) :
    RestAt text (offset + 1) rest := by
  have next := here.advance [c]
  rwa [bytes, List.flatMap_singleton, utf8EncodeChar_small small] at next

theorem restAt_digits (here : RestAt text offset rest) :
    RestAt text (offset + (digits rest).1.length) (digits rest).2 := by
  have split := digits_split rest
  have whole := length_bytes isDigit_ascii (digits_all rest)
  rw [← split] at here
  rw [← whole]
  exact here.advance (digits rest).1

theorem digitsFrom_bytes (here : RestAt text offset rest) :
    digitsFrom (bytes text) offset = .ok (digits rest).1.length := by
  obtain ⟨front, -, both⟩ := here.cut
  rw [digitsFrom, both]
  exact congrArg Except.ok (takeWhile_bytes isDigit_ascii rest)

theorem signEnd_bytes (here : RestAt text offset rest) :
    RestAt text (signEnd (bytes text) offset) (sign rest).2 := by
  rw [signEnd, here.byteAt isSign_ascii]
  cases signed : startsIn isSign rest with
  | false =>
    rw [show sign rest = (false, rest) from sign_behind .none signed]
    exact here
  | true =>
    obtain ⟨mark, others, rfl, isMark⟩ := exists_cons_of_startsIn signed
    simp only [isSign, Bool.or_eq_true, beq_iff_eq] at isMark
    rcases isMark with rfl | rfl
    · exact restAt_next (by decide) here
    · exact restAt_next (by decide) here

theorem fractionEnd_bytes (whole : List Char) (here : RestAt text offset rest) :
    ∃ stop, fractionEnd (bytes text) whole.length offset =
        .ok (((fractionAfter whole rest).1.getD []).length, stop) ∧
      RestAt text stop (fractionAfter whole rest).2 := by
  rw [fractionEnd, here.byteAt isPoint_ascii]
  cases pointed : startsIn isPoint rest with
  | false =>
    rw [fractionAfter_other pointed]
    exact ⟨offset, rfl, here⟩
  | true =>
    obtain ⟨point, others, rfl, isPoint⟩ := exists_cons_of_startsIn pointed
    rw [show point = '.' from beq_iff_eq.mp isPoint] at here ⊢
    have next := restAt_next (by decide) here
    rw [digitsFrom_bytes next]
    by_cases neither : whole = [] ∧ (digits others).1 = []
    · have left : fractionAfter whole ('.' :: others) = (none, '.' :: others) := by
        simp [fractionAfter, neither]
      rw [left, neither.1, neither.2]
      exact ⟨offset, rfl, here⟩
    · have digit : whole ≠ [] ∨ (digits others).1 ≠ [] := Classical.not_and_iff_not_or_not.mp neither
      have goesOn : (decide (whole.length = 0) && decide ((digits others).1.length = 0)) = false := by
        simpa only [List.length_eq_zero_iff, Bool.and_eq_false_iff, decide_eq_false_iff_not] using digit
      rw [fractionAfter_point whole others digit]
      refine ⟨offset + 1 + (digits others).1.length, ?_, restAt_digits next⟩
      simp only [ite_true, bind, Except.bind, pure, Except.pure, goesOn]
      rfl

theorem exponentEnd_bytes (here : RestAt text offset rest) :
    ∃ stop, exponentEnd (bytes text) offset = .ok stop ∧
      RestAt text stop (exponentAfter rest).2 := by
  rw [exponentEnd, here.byteAt isExponentMark_ascii]
  cases marked : startsIn isExponentMark rest with
  | false =>
    have left : exponentAfter rest = (none, rest) := by
      cases rest with
      | nil => rfl
      | cons c others =>
        simp only [startsIn_cons, isExponentMark, Bool.or_eq_false_iff, beq_eq_false_iff_ne] at marked
        simp [exponentAfter, marked]
    rw [left]
    exact ⟨offset, rfl, here⟩
  | true =>
    obtain ⟨mark, others, rfl, isMark⟩ := exists_cons_of_startsIn marked
    have marks : (decide (mark = 'e') || decide (mark = 'E')) = true := by
      simpa [isExponentMark] using isMark
    have unsigned := signEnd_bytes (restAt_next (isExponentMark_ascii mark isMark) here)
    dsimp only
    rw [Nat.min_eq_left unsigned.offset_le, digitsFrom_bytes unsigned]
    by_cases none : (digits (sign others).2).1 = []
    · have left : (exponentAfter (mark :: others)).2 = mark :: others := by
        simp [exponentAfter, marks, none]
      rw [left, none]
      exact ⟨offset, rfl, here⟩
    · have taken : (exponentAfter (mark :: others)).2 = (digits (sign others).2).2 := by
        simp [exponentAfter, marks, none]
      rw [taken]
      refine ⟨_, ?_, restAt_digits unsigned⟩
      simp [bind, Except.bind, pure, Except.pure, none]

theorem isEmpty_and_isNone_eq (whole rest : List Char) :
    (whole.isEmpty && (fractionAfter whole rest).1.isNone) =
      (decide (whole.length = 0) && decide (((fractionAfter whole rest).1.getD []).length = 0)) := by
  obtain ⟨places, after, read, -, digit, -⟩ | read := fractionAfter_cases whole rest
  · rw [read]
    rcases digit with some | some <;> simp [some]
  · rw [read]
    cases whole <;> rfl

/-- The end that is found is the end of the numeral that is read off the text. -/
theorem extent_bytes (text : List Char) :
    (longest? text = none ∧ extent (bytes text) = .ok none) ∨
    ∃ n rest stop, longest? text = some (n, rest) ∧ extent (bytes text) = .ok (some stop) ∧
      RestAt text stop rest := by
  have unsigned := signEnd_bytes (.start text)
  have behind := restAt_digits unsigned
  obtain ⟨offset, found, here⟩ := fractionEnd_bytes (digits (sign text).2).1 behind
  obtain ⟨stop, scaled, there⟩ := exponentEnd_bytes here
  have same := isEmpty_and_isNone_eq (digits (sign text).2).1 (digits (sign text).2).2
  rw [longest?_eq, magnitudeAfter_eq]
  simp only [extent, digitsFrom_bytes unsigned, bind, Except.bind, found, scaled, ← same]
  split
  case isTrue => exact .inl ⟨rfl, rfl⟩
  case isFalse => exact .inr ⟨_, _, stop, rfl, rfl, there⟩

end QueryEditor.Numeral
