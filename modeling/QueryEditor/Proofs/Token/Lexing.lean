import Mathlib.Data.List.TakeDrop
import QueryEditor.Token.Lexer
import QueryEditor.Proofs.Text.Runs

namespace QueryEditor

open Text

namespace Numeral

theorem sign_length (text : List Char) : (sign text).2.length ≤ text.length := by
  unfold sign
  split <;> simp

theorem digits_length (text : List Char) :
    (digits text).1.length + (digits text).2.length = text.length := by
  rw [digits, ← List.length_append, List.takeWhile_append_dropWhile]

theorem fractionAfter_length (whole text : List Char) :
    (fractionAfter whole text).2.length + (if (fractionAfter whole text).1.isSome then 1 else 0) ≤
      text.length := by
  unfold fractionAfter
  split
  case h_1 rest =>
    have length := digits_length rest
    dsimp only
    split
    · simp
    · simp only [Option.isSome_some, ite_true, List.length_cons]
      omega
  case h_2 => simp

theorem exponentAfter_length (text : List Char) : (exponentAfter text).2.length ≤ text.length := by
  unfold exponentAfter
  split
  · simp
  case h_2 mark rest =>
    have signed := sign_length rest
    have length := digits_length (sign rest).2
    dsimp only
    split
    · split
      · simp
      · simp only [List.length_cons]
        omega
    · simp

theorem longest?_shorter {text : List Char} {n : Numeral} {rest : List Char}
    (found : longest? text = some (n, rest)) : rest.length < text.length := by
  unfold longest? at found
  dsimp only at found
  have signed := sign_length text
  have whole := digits_length (sign text).2
  have fraction := fractionAfter_length (digits (sign text).2).1 (digits (sign text).2).2
  have exponent := exponentAfter_length
    (fractionAfter (digits (sign text).2).1 (digits (sign text).2).2).2
  split at found
  · cases found
  case isFalse some =>
    obtain ⟨-, rfl⟩ := Prod.mk.inj (Option.some.inj found)
    rw [Bool.and_eq_true, List.isEmpty_iff, Option.isNone_iff_eq_none] at some
    by_cases empty : (digits (sign text).2).1 = []
    · have present : (fractionAfter (digits (sign text).2).1 (digits (sign text).2).2).1.isSome = true := by
        rw [Option.isSome_iff_ne_none]
        exact fun none => some ⟨empty, none⟩
      rw [present, if_pos rfl] at fraction
      omega
    · have positive := List.length_pos_iff.mpr empty
      omega

end Numeral

theorem BlockText.raw?_shorter {text raw rest : List Char} (found : raw? text = some (raw, rest)) :
    rest.length < text.length := by
  fun_induction raw? text generalizing raw with
  | case1 => cases found
  | case2 text ih =>
    obtain ⟨⟨inner, after⟩, inside, same⟩ := Option.map_eq_some_iff.mp found
    cases same
    have shorter := ih inside
    simp only [List.length_cons]
    omega
  | case3 text =>
    cases found
    simp only [List.length_cons]
    omega
  | case4 c text _ _ ih =>
    obtain ⟨⟨inner, after⟩, inside, same⟩ := Option.map_eq_some_iff.mp found
    cases same
    have shorter := ih inside
    simp only [List.length_cons]
    omega

namespace Token

theorem number?_shorter {text rest : List Char} {token : Token}
    (found : number? text = some (token, rest)) : rest.length < text.length := by
  unfold number? at found
  obtain ⟨⟨numeral, after⟩, longest, same⟩ := Option.bind_eq_some_iff.mp found
  dsimp only at same
  split at same
  · cases same
    exact Numeral.longest?_shorter longest
  · cases same

theorem codeUnit?_shorter {text rest : List Char} {unit : Nat}
    (found : codeUnit? text = some (unit, rest)) : rest.length < text.length := by
  unfold codeUnit? at found
  split at found
  · obtain ⟨number, _, same⟩ := Option.map_eq_some_iff.mp found
    cases same
    simp only [List.length_cons]
    omega
  · cases found

theorem codePoint?_shorter {text rest : List Char} {c : Char}
    (found : codePoint? text = some (c, rest)) : rest.length < text.length := by
  unfold codePoint? at found
  obtain ⟨⟨unit, after⟩, first, found⟩ := Option.bind_eq_some_iff.mp found
  have shorter := codeUnit?_shorter first
  dsimp only at found
  split at found
  · split at found
    · obtain ⟨⟨trailing, behind⟩, second, found⟩ := Option.bind_eq_some_iff.mp found
      have stillShorter := codeUnit?_shorter second
      dsimp only at found
      split at found
      · obtain ⟨c, _, same⟩ := Option.bind_eq_some_iff.mp found
        cases same
        simp only [List.length_cons] at shorter
        omega
      · cases found
    · cases found
  · obtain ⟨c, _, same⟩ := Option.bind_eq_some_iff.mp found
    cases same
    exact shorter

theorem unicodeEscape?_shorter {text rest : List Char} {c : Char}
    (found : unicodeEscape? text = some (c, rest)) : rest.length < text.length := by
  unfold unicodeEscape? at found
  split at found
  case h_1 inside =>
    rw [List.span_eq_takeWhile_dropWhile] at found
    have bound : (inside.dropWhile (· != '\x7d')).length ≤ inside.length :=
      (List.dropWhile_sublist _).length_le
    split at found
    · cases found
    · cases found
    case h_3 digits behind closed =>
      obtain ⟨number, _, found⟩ := Option.bind_eq_some_iff.mp found
      obtain ⟨c, _, same⟩ := Option.bind_eq_some_iff.mp found
      cases same
      have whole := congrArg (List.length ∘ Prod.snd) closed
      simp only [Function.comp, List.length_cons] at whole ⊢
      omega
  case h_2 => exact codePoint?_shorter found

theorem escape?_shorter {text rest : List Char} {c : Char}
    (found : escape? text = some (c, rest)) : rest.length < text.length := by
  unfold escape? at found
  split at found
  · have shorter := unicodeEscape?_shorter found
    simp only [List.length_cons]
    omega
  · obtain ⟨_, _, same⟩ := Option.map_eq_some_iff.mp found
    cases same
    simp
  · cases found

theorem quotedRest?_shorter {steps : Nat} {text content rest : List Char}
    (found : quotedRest? steps text = some (content, rest)) : rest.length < text.length := by
  induction steps generalizing text content with
  | zero => cases found
  | succ steps ih =>
    cases text with
    | nil => cases found
    | cons c text =>
      rw [List.length_cons]
      by_cases quote : c = '"'
      · subst quote
        cases found
        omega
      by_cases backslash : c = '\\'
      · subst backslash
        obtain ⟨⟨c, afterEscape⟩, escaped, found⟩ := Option.bind_eq_some_iff.mp found
        obtain ⟨⟨others, behind⟩, inside, same⟩ := Option.bind_eq_some_iff.mp found
        cases same
        have first := escape?_shorter escaped
        have second := ih inside
        omega
      · rw [quotedRest?.eq_5 steps c text quote backslash] at found
        split at found
        · cases found
        · obtain ⟨⟨others, behind⟩, inside, same⟩ := Option.map_eq_some_iff.mp found
          cases same
          have shorter := ih inside
          omega

theorem quoted?_shorter {text content rest : List Char}
    (found : quoted? text = some (content, rest)) : rest.length < text.length := by
  unfold quoted? at found
  split at found
  · cases found
  · split at found
    · obtain ⟨⟨others, behind⟩, inside, same⟩ := Option.map_eq_some_iff.mp found
      cases same
      have shorter := quotedRest?_shorter inside
      simp only [List.length_cons]
      omega
    · exact quotedRest?_shorter found

theorem first?_shorter {text rest : List Char} {token : Token}
    (found : first? text = some (token, rest)) : rest.length < text.length := by
  unfold first? at found
  split at found
  · cases found
  · split at found
    · cases found
      simp only [List.length_cons]
      omega
    · cases found
  · obtain ⟨⟨raw, after⟩, inside, same⟩ := Option.map_eq_some_iff.mp found
    cases same
    have shorter := BlockText.raw?_shorter inside
    simp only [List.length_cons]
    omega
  · obtain ⟨⟨content, after⟩, inside, same⟩ := Option.map_eq_some_iff.mp found
    cases same
    have shorter := quoted?_shorter inside
    simp only [List.length_cons]
    omega
  · split at found
    · cases found
      simp
    · split at found
      · cases found
        rw [List.length_cons, Nat.lt_succ_iff]
        exact (List.dropWhile_sublist isNamePart).length_le
      · split at found
        · exact number?_shorter found
        · cases found

end Token

end QueryEditor
