import Mathlib.Data.List.TakeWhile
import QueryEditor.Proofs.Token.Scanning

namespace QueryEditor

open Text

abbrev closing : List Char :=
  [')', ' ', '\x7d']

def leaving {α : Type} (answer : α × List Char) : α × List Char :=
  (answer.1, answer.2 ++ closing)

theorem cons_of_closing {c : Char} {text rest : List Char} (other : c ≠ ')')
    (same : text ++ closing = c :: rest) : ∃ others, text = c :: others ∧ others ++ closing = rest := by
  cases text with
  | nil => exact absurd (List.cons.inj same).1.symm other
  | cons d others =>
    obtain ⟨rfl, rfl⟩ := List.cons.inj same
    exact ⟨others, rfl, rfl⟩

theorem pair_closing {c d : Char} {text : List Char} (others : c ≠ ')' ∧ d ≠ ')')
    (never : ∀ rest, text = c :: d :: rest → False) (rest : List Char)
    (same : text ++ closing = c :: d :: rest) : False := by
  obtain ⟨second, rfl, behind⟩ := cons_of_closing others.1 same
  obtain ⟨third, rfl, -⟩ := cons_of_closing others.2 behind
  exact never _ rfl

namespace Numeral

theorem sign_closing (text : List Char) : sign (text ++ closing) = leaving (sign text) := by
  unfold sign
  split
  case h_1 same =>
    obtain ⟨others, rfl, rfl⟩ := cons_of_closing (by decide) same
    rfl
  case h_2 same =>
    obtain ⟨others, rfl, rfl⟩ := cons_of_closing (by decide) same
    rfl
  case h_3 minus plus =>
    split
    · exact absurd rfl (minus _)
    · exact absurd rfl (plus _)
    · rfl

theorem digits_closing (text : List Char) : digits (text ++ closing) = leaving (digits text) := by
  rw [digits, takeWhile_stopped rfl, dropWhile_stopped rfl]
  rfl

theorem fractionAfter_closing (whole text : List Char) :
    fractionAfter whole (text ++ closing) = leaving (fractionAfter whole text) := by
  rw [fractionAfter.eq_def whole (text ++ closing)]
  split
  case h_1 same =>
    obtain ⟨others, rfl, rfl⟩ := cons_of_closing (by decide) same
    rw [fractionAfter, digits_closing]
    unfold leaving
    dsimp only
    split <;> rfl
  case h_2 noPoint =>
    rw [fractionAfter.eq_def]
    split
    · exact absurd rfl (noPoint _)
    · rfl

theorem exponentAfter_closing (text : List Char) :
    exponentAfter (text ++ closing) = leaving (exponentAfter text) := by
  cases text with
  | nil => rfl
  | cons mark rest =>
    rw [List.cons_append, exponentAfter, exponentAfter]
    simp only [sign_closing, digits_closing, leaving]
    split
    · split <;> rfl
    · rfl

theorem longest?_closing (text : List Char) : longest? (text ++ closing) = (longest? text).map leaving := by
  unfold longest?
  simp only [sign_closing, digits_closing, fractionAfter_closing, exponentAfter_closing, leaving]
  split <;> rfl

end Numeral

namespace Token

theorem endsNumber_closing (text : List Char) : endsNumber (text ++ closing) = endsNumber text := by
  cases text <;> rfl

theorem number?_closing (text : List Char) : number? (text ++ closing) = (number? text).map leaving := by
  rw [number?, number?, Numeral.longest?_closing]
  cases Numeral.longest? text with
  | none => rfl
  | some answer =>
    obtain ⟨numeral, rest⟩ := answer
    have ends := endsNumber_closing rest
    simp only [leaving, Option.map_some, Option.bind_eq_bind, Option.bind_some, ends]
    split <;> rfl

theorem hexadecimal?_closing {text : List Char} (member : ')' ∈ text) : hexadecimal? text = none := by
  have from' : ∀ total, text.foldlM (fun total c => (hexValue? c).map (16 * total + ·)) total = none := by
    induction text with
    | nil => cases member
    | cons c rest ih =>
      intro total
      rw [List.foldlM_cons]
      rcases List.mem_cons.mp member with rfl | member
      · rfl
      · cases hexValue? c with
        | none => rfl
        | some value => exact ih member _
  exact from' 0

theorem codeUnit?_closing (text : List Char) :
    codeUnit? (text ++ closing) = (codeUnit? text).map leaving := by
  have short : ∀ a b c d : Char, ∀ rest, ')' ∈ [a, b, c, d] → codeUnit? (a :: b :: c :: d :: rest) = none := by
    intro a b c d rest member
    rw [codeUnit?, hexadecimal?_closing member]
    rfl
  rcases text with _ | ⟨a, _ | ⟨b, _ | ⟨c, _ | ⟨d, rest⟩⟩⟩⟩
  · rfl
  · exact short a ')' ' ' '\x7d' [] (by simp)
  · exact short a b ')' ' ' _ (by simp)
  · exact short a b c ')' _ (by simp)
  · have behind : a :: b :: c :: d :: rest ++ closing = a :: b :: c :: d :: (rest ++ closing) := rfl
    rw [behind, codeUnit?, codeUnit?]
    cases hexadecimal? [a, b, c, d] <;> rfl

theorem codePoint?_closing (text : List Char) :
    codePoint? (text ++ closing) = (codePoint? text).map leaving := by
  rw [codePoint?, codePoint?, codeUnit?_closing]
  cases codeUnit? text with
  | none => rfl
  | some answer =>
    obtain ⟨unit, rest⟩ := answer
    simp only [leaving, Option.map_some, Option.bind_eq_bind, Option.bind_some]
    split
    · split
      case h_1 second same =>
        obtain ⟨half, rfl, behind⟩ := cons_of_closing (by decide) same
        obtain ⟨second, rfl, rfl⟩ := cons_of_closing (by decide) behind
        rw [codeUnit?_closing]
        change _ = ((codeUnit? second).bind _).map leaving
        cases codeUnit? second with
        | none => rfl
        | some answer =>
          obtain ⟨trailing, after⟩ := answer
          simp only [leaving, Option.map_some, Option.bind_some]
          split
          · cases scalar? (paired unit trailing) <;> rfl
          · rfl
      case h_2 noHalf =>
        split
        · exact absurd rfl (noHalf _)
        · rfl
    · cases scalar? unit <;> rfl

theorem unicodeEscape?_braced (inside : List Char) :
    unicodeEscape? ('\x7b' :: (inside ++ closing)) = (unicodeEscape? ('\x7b' :: inside)).map leaving := by
  rw [unicodeEscape?, unicodeEscape?, List.span_eq_takeWhile_dropWhile, List.span_eq_takeWhile_dropWhile,
    List.takeWhile_append, List.dropWhile_append]
  have both := congrArg List.length (List.takeWhile_append_dropWhile (p := (· != '\x7d')) (l := inside))
  rw [List.length_append] at both
  -- Either the braces are closed in the text, or a closing mark stands where digits should.
  cases rest : inside.dropWhile (· != '\x7d') with
  | nil =>
    have whole : inside.takeWhile (· != '\x7d') = inside := by
      rw [rest] at both
      exact (List.takeWhile_prefix _).eq_of_length both
    have digits : hexadecimal? (inside ++ [')', ' ']) = none := hexadecimal?_closing (by simp)
    obtain ⟨first, others, spelled⟩ : ∃ first others, inside ++ [')', ' '] = first :: others := by
      cases inside <;> exact ⟨_, _, rfl⟩
    have inMarks : List.takeWhile (· != '\x7d') closing = [')', ' '] := rfl
    have behindMarks : List.dropWhile (· != '\x7d') closing = ['\x7d'] := rfl
    rw [whole, if_pos rfl, List.isEmpty_nil, if_pos rfl, inMarks, behindMarks, spelled]
    rw [spelled] at digits
    dsimp only
    rw [digits]
    cases inside <;> rfl
  | cons c after =>
    rw [rest, List.length_cons] at both
    rw [if_neg (by omega), if_neg (by simp)]
    cases inside.takeWhile (· != '\x7d') with
    | nil => rfl
    | cons first others =>
      dsimp only [List.cons_append]
      cases hexadecimal? (first :: others) with
      | none => rfl
      | some code =>
        simp only [Option.bind_eq_bind, Option.bind_some]
        cases scalar? code <;> rfl

theorem unicodeEscape?_closing (text : List Char) :
    unicodeEscape? (text ++ closing) = (unicodeEscape? text).map leaving := by
  by_cases braced : ∃ inside, text = '\x7b' :: inside
  · obtain ⟨inside, rfl⟩ := braced
    exact unicodeEscape?_braced inside
  · have never : ∀ inside, text = '\x7b' :: inside → False := fun inside same => braced ⟨inside, same⟩
    have neverBehind : ∀ inside, text ++ closing = '\x7b' :: inside → False := by
      intro inside same
      obtain ⟨others, rfl, -⟩ := cons_of_closing (by decide) same
      exact never others rfl
    rw [unicodeEscape?.eq_2 _ neverBehind, unicodeEscape?.eq_2 _ never]
    exact codePoint?_closing text

theorem escape?_closing (text : List Char) :
    escape? (text ++ closing) = (escape? text).map leaving := by
  cases text with
  | nil => rfl
  | cons c rest =>
    by_cases unicode : c = 'u'
    · subst unicode
      exact unicodeEscape?_closing rest
    · rw [List.cons_append, escape?.eq_2 c _ unicode, escape?.eq_2 c _ unicode]
      cases simpleEscape? c <;> rfl

theorem quotedRest?_steps {steps more : Nat} {text : List Char} (enough : text.length < steps)
    (enoughMore : text.length < more) : quotedRest? steps text = quotedRest? more text := by
  induction steps generalizing more text with
  | zero => exact absurd enough (Nat.not_lt_zero _)
  | succ steps ih =>
    obtain ⟨more, rfl⟩ : ∃ fewer, more = fewer + 1 := ⟨more - 1, by omega⟩
    cases text with
    | nil => rfl
    | cons c rest =>
      rw [List.length_cons, Nat.add_lt_add_iff_right] at enough enoughMore
      by_cases quote : c = '"'
      · subst quote
        rfl
      by_cases backslash : c = '\\'
      · subst backslash
        rw [quotedRest?, quotedRest?]
        cases read : escape? rest with
        | none => rfl
        | some answer =>
          obtain ⟨c, after⟩ := answer
          have shorter := escape?_shorter read
          have same : quotedRest? steps after = quotedRest? more after :=
            ih (Nat.lt_trans shorter enough) (Nat.lt_trans shorter enoughMore)
          simp only [Option.bind_eq_bind, Option.bind_some, same]
      · rw [quotedRest?.eq_5 steps c rest quote backslash, quotedRest?.eq_5 more c rest quote backslash,
          ih enough enoughMore]

theorem quotedRest?_marks (steps : Nat) : quotedRest? steps closing = none := by
  match steps with
  | 0 => rfl
  | 1 => rfl
  | 2 => rfl
  | steps + 3 => cases steps <;> rfl

theorem quotedRest?_closing (steps : Nat) (text : List Char) :
    quotedRest? steps (text ++ closing) = (quotedRest? steps text).map leaving := by
  induction steps generalizing text with
  | zero => rfl
  | succ steps ih =>
    cases text with
    | nil => exact quotedRest?_marks _
    | cons c rest =>
      by_cases quote : c = '"'
      · subst quote
        rfl
      by_cases backslash : c = '\\'
      · subst backslash
        rw [List.cons_append, quotedRest?, quotedRest?, escape?_closing]
        cases escape? rest with
        | none => rfl
        | some answer =>
          obtain ⟨c, after⟩ := answer
          simp only [leaving, Option.map_some, Option.bind_eq_bind, Option.bind_some, ih]
          cases quotedRest? steps after <;> rfl
      · rw [List.cons_append, quotedRest?.eq_5 steps c _ quote backslash,
          quotedRest?.eq_5 steps c _ quote backslash, ih]
        split
        · rfl
        · cases quotedRest? steps rest <;> rfl

theorem quoted?_closing (text : List Char) : quoted? (text ++ closing) = (quoted? text).map leaving := by
  cases text with
  | nil => rfl
  | cons c rest =>
    have inside : ∀ text : List Char, quotedRest? ((text ++ closing).length + 1) (text ++ closing) =
        (quotedRest? (text.length + 1) text).map leaving := by
      intro text
      have longer : text.length < (text ++ closing).length + 1 := by
        rw [List.length_append]
        omega
      rw [quotedRest?_closing, quotedRest?_steps longer (Nat.lt_succ_self _)]
    rw [List.cons_append, quoted?, quoted?]
    split
    · rw [inside]
      cases quotedRest? (rest.length + 1) rest <;> rfl
    · exact inside (c :: rest)

end Token

theorem BlockText.raw?_closing (text : List Char) : raw? (text ++ closing) = (raw? text).map leaving := by
  fun_induction raw? text with
  | case1 => rfl
  | case2 text ih =>
    simp only [List.cons_append, raw?, ih]
    cases raw? text <;> rfl
  | case3 text => rfl
  | case4 c text notEscaped notClosed ih =>
    have plain : raw? (c :: (text ++ closing)) =
        (raw? (text ++ closing)).map (Prod.map (c :: ·) id) := by
      refine raw?.eq_4 c (text ++ closing) (fun rest backslash same => ?_) fun rest quote same => ?_
      · obtain ⟨second, rfl, behind⟩ := cons_of_closing (by decide) same
        refine pair_closing (by decide) (fun others same => ?_) _ behind
        exact notEscaped others backslash (congrArg _ same)
      · exact pair_closing (by decide) (fun rest => notClosed rest quote) _ same
    rw [List.cons_append, plain, ih]
    cases raw? text <;> rfl

namespace Token

theorem first?_closing {text : List Char} (nonempty : text ≠ []) :
    first? (text ++ closing) = (first? text).map leaving := by
  obtain ⟨c, rest, rfl⟩ := List.exists_cons_of_ne_nil nonempty
  by_cases point : c = '.'
  · subst point
    by_cases ellipsis : ∃ after, rest = '.' :: '.' :: after
    · obtain ⟨after, rfl⟩ := ellipsis
      rfl
    · have never : ∀ after, rest = '.' :: '.' :: after → False := fun after same => ellipsis ⟨after, same⟩
      rw [List.cons_append, first?.eq_3 _ (pair_closing (by decide) never), first?.eq_3 _ never]
      rfl
  by_cases quote : c = '"'
  · subst quote
    by_cases block : ∃ raw, rest = '"' :: '"' :: raw
    · obtain ⟨raw, rfl⟩ := block
      simp only [List.cons_append]
      rw [first?, first?, BlockText.raw?_closing]
      cases BlockText.raw? raw <;> rfl
    · have never : ∀ raw, rest = '"' :: '"' :: raw → False := fun raw same => block ⟨raw, same⟩
      rw [List.cons_append, first?.eq_5 _ (pair_closing (by decide) never), first?.eq_5 _ never,
        quoted?_closing]
      cases quoted? rest <;> rfl
  · have notBlock : ∀ text raw, c = '"' → text = '"' :: '"' :: raw → False :=
      fun _ _ same => absurd same quote
    rw [List.cons_append, first?.eq_6 c _ point (notBlock _) quote, first?.eq_6 c _ point (notBlock _) quote]
    cases Symbol.ofChar? c with
    | some mark => rfl
    | none =>
      dsimp only
      rw [takeWhile_stopped rfl, dropWhile_stopped rfl]
      split
      · rfl
      split
      · exact number?_closing (c :: rest)
      · rfl

end Token

namespace Lexeme

inductive EndsInComment : List Char → Prop
  | last {comment : List Char} (oneLine : comment.any Token.isLineEnd = false) :
      EndsInComment ('#' :: comment)
  | ignored {c : Char} {rest : List Char} (ignored : Token.isIgnored c = true)
      (ends : EndsInComment rest) : EndsInComment (c :: rest)
  | comment {rest : List Char} (ends : EndsInComment (rest.dropWhile (!Token.isLineEnd ·))) :
      EndsInComment ('#' :: rest)
  | token {text rest : List Char} {token : Token} (first : Token.first? text = some (token, rest))
      (ends : EndsInComment rest) : EndsInComment text

theorem not_endsInComment_nil : ¬ EndsInComment [] := by
  intro ends
  cases ends with
  | token first _ => cases first

theorem endsInComment_ignored {c : Char} (ignored : Token.isIgnored c = true) (rest : List Char) :
    EndsInComment (c :: rest) ↔ EndsInComment rest := by
  refine ⟨fun ends => ?_, .ignored ignored⟩
  cases ends with
  | last _ => exact absurd ignored (by decide)
  | ignored _ ends => exact ends
  | comment _ => exact absurd ignored (by decide)
  | token first _ =>
    rw [first?_separator (.inl ignored)] at first
    cases first

theorem endsInComment_comment (rest : List Char) :
    EndsInComment ('#' :: rest) ↔ rest.any Token.isLineEnd = false ∨
      EndsInComment (rest.dropWhile (!Token.isLineEnd ·)) := by
  constructor
  · intro ends
    cases ends with
    | last oneLine => exact .inl oneLine
    | ignored ignored _ => exact absurd ignored (by decide)
    | comment ends => exact .inr ends
    | token first _ =>
      rw [first?_separator (.inr rfl)] at first
      cases first
  · rintro (oneLine | ends)
    · exact .last oneLine
    · exact .comment ends

theorem endsInComment_token {text rest : List Char} {token : Token}
    (first : Token.first? text = some (token, rest)) : EndsInComment text ↔ EndsInComment rest := by
  refine ⟨fun ends => ?_, .token first⟩
  cases ends with
  | last _ =>
    rw [first?_separator (.inr rfl)] at first
    cases first
  | ignored ignored _ =>
    rw [first?_separator (.inl ignored)] at first
    cases first
  | comment _ =>
    rw [first?_separator (.inr rfl)] at first
    cases first
  | token other ends =>
    rw [first] at other
    cases other
    exact ends

theorem lex_comment (afterComma : Bool) (rest : List Char) :
    lex afterComma ('#' :: rest) = lex afterComma (rest.dropWhile (!Token.isLineEnd ·)) := by
  have shorter : (rest.dropWhile (!Token.isLineEnd ·)).length ≤ rest.length :=
    (List.dropWhile_sublist _).length_le
  rw [lex, List.length_cons, scan?, if_neg (by decide), if_pos rfl, lex,
    scan?_steps shorter (Nat.le_refl _)]

def marks (afterComma : Bool) : List Lexeme :=
  [⟨.symbol .closeParen, afterComma⟩, ⟨.symbol .closeBrace, false⟩]

/-- Closing marks behind a text are read behind its tokens. A text that ends inside a comment takes them
into it. -/
structure Closes (text : List Char) : Prop where
  swallowed : EndsInComment text → ∀ afterComma, lex afterComma (text ++ closing) = lex afterComma text
  kept : ¬ EndsInComment text → ∀ afterComma, ∃ afterLastComma,
    lex afterComma (text ++ closing) = (lex afterComma text).map (· ++ marks afterLastComma)

theorem closes_nil : Closes [] where
  swallowed ends := absurd ends not_endsInComment_nil
  kept _ afterComma := ⟨afterComma, by cases afterComma <;> rfl⟩

theorem Closes.of_rest {text rest : List Char} (closes : Closes rest)
    (ends : EndsInComment text ↔ EndsInComment rest)
    (onward : ∀ afterComma, ∃ after, lex afterComma text = lex after rest ∧
      lex afterComma (text ++ closing) = lex after (rest ++ closing)) : Closes text := by
  constructor
  · intro inside afterComma
    obtain ⟨after, own, marked⟩ := onward afterComma
    rw [own, marked, closes.swallowed (ends.mp inside)]
  · intro outside afterComma
    obtain ⟨after, own, marked⟩ := onward afterComma
    rw [own, marked]
    exact closes.kept (outside ∘ ends.mpr) after

theorem Closes.ignored {c : Char} {rest : List Char} (closes : Closes rest)
    (ignored : Token.isIgnored c = true) : Closes (c :: rest) := by
  refine closes.of_rest (endsInComment_ignored ignored rest) fun afterComma => ⟨afterComma || c == ',', ?_⟩
  exact ⟨lex_ignored ignored _ _, lex_ignored ignored _ _⟩

theorem dropWhile_oneLine {comment : List Char} (oneLine : comment.any Token.isLineEnd = false) :
    comment.dropWhile (!Token.isLineEnd ·) = [] := by
  rw [List.dropWhile_eq_nil_iff]
  simpa using oneLine

theorem closes_lastComment {rest : List Char} (oneLine : rest.any Token.isLineEnd = false) :
    Closes ('#' :: rest) where
  swallowed _ afterComma := by
    have noneBehind : (rest ++ closing).any Token.isLineEnd = false := by
      rw [List.any_append, oneLine]
      rfl
    rw [List.cons_append, lex_comment, lex_comment, dropWhile_oneLine noneBehind, dropWhile_oneLine oneLine]
  kept outside := absurd (.last oneLine) outside

theorem Closes.comment {rest : List Char} (closes : Closes (rest.dropWhile (!Token.isLineEnd ·)))
    (further : ¬ rest.any Token.isLineEnd = false) : Closes ('#' :: rest) := by
  have nextLine : ¬ (rest.dropWhile (!Token.isLineEnd ·)).isEmpty = true := by
    rw [List.isEmpty_iff, List.dropWhile_eq_nil_iff]
    simpa using further
  refine closes.of_rest ?_ fun afterComma => ⟨afterComma, lex_comment _ _, ?_⟩
  · rw [endsInComment_comment, or_iff_right further]
  · rw [List.cons_append, lex_comment, List.dropWhile_append, if_neg nextLine]

theorem Closes.token {text rest : List Char} {token : Token} (closes : Closes rest)
    (found : Token.first? text = some (token, rest)) : Closes text := by
  have nonempty : text ≠ [] := by
    rintro rfl
    cases found
  have marked : Token.first? (text ++ closing) = some (token, rest ++ closing) := by
    rw [Token.first?_closing nonempty, found]
    rfl
  constructor
  · intro inside afterComma
    rw [endsInComment_token found] at inside
    rw [lex_token marked, lex_token found, closes.swallowed inside]
  · intro outside afterComma
    rw [endsInComment_token found] at outside
    obtain ⟨afterLastComma, behind⟩ := closes.kept outside false
    refine ⟨afterLastComma, ?_⟩
    rw [lex_token marked, lex_token found, behind]
    cases lex false rest <;> simp [prepend?]

theorem closes_unread {c : Char} {rest : List Char} (separator : ¬ (Token.isIgnored c = true ∨ c = '#'))
    (unread : Token.first? (c :: rest) = none) : Closes (c :: rest) := by
  have marked : Token.first? (c :: (rest ++ closing)) = none := by
    rw [← List.cons_append, Token.first?_closing (List.cons_ne_nil c rest), unread]
    rfl
  have neither : ∀ afterComma, lex afterComma (c :: (rest ++ closing)) = none ∧
      lex afterComma (c :: rest) = none := by
    intro afterComma
    rw [lex_first? c _ afterComma separator, lex_first? c _ afterComma separator, marked, unread]
    exact ⟨rfl, rfl⟩
  constructor
  · intro _ afterComma
    rw [List.cons_append, (neither afterComma).1, (neither afterComma).2]
  · intro _ afterComma
    refine ⟨false, ?_⟩
    rw [List.cons_append, (neither afterComma).1, (neither afterComma).2]
    rfl

theorem closes (text : List Char) : Closes text := by
  induction length : text.length using Nat.strongRecOn generalizing text with
  | ind n ih =>
    subst length
    cases text with
    | nil => exact closes_nil
    | cons c rest =>
      by_cases ignored : Token.isIgnored c = true
      · exact (ih rest.length (Nat.lt_succ_self _) rest rfl).ignored ignored
      by_cases comment : c = '#'
      · subst comment
        by_cases oneLine : rest.any Token.isLineEnd = false
        · exact closes_lastComment oneLine
        · have shorter : (rest.dropWhile (!Token.isLineEnd ·)).length < ('#' :: rest).length :=
            Nat.lt_succ_of_le (List.dropWhile_sublist _).length_le
          exact (ih _ shorter _ rfl).comment oneLine
      cases found : Token.first? (c :: rest) with
      | none => exact closes_unread (by simp [ignored, comment]) found
      | some answer =>
        exact (ih answer.2.length (Token.first?_shorter found) answer.2 rfl).token found

end Lexeme

end QueryEditor
