import QueryEditor.Proofs.Document.Consumed
import QueryEditor.Proofs.Document.RoundTrip
import QueryEditor.Proofs.Document.Spelled
import QueryEditor.Proofs.Token.Closing

namespace QueryEditor

open Text Lexeme Reader

namespace Grammar

def innerDepth : Nat :=
  maxDepth - 1

/-- What stands behind the value of the first argument of the first field of a query, up to the end of
the text. -/
structure Remainder where
  arguments : List Slot
  directives : List Directive
  children : List Selection
  selections : List Selection
  definitions : List Definition

def remainder? (tokens : List Lexeme) : Option Remainder := do
  let (slots, rest) ← closedBy .closeParen (slot (value false innerDepth)) tokens
  let (directives, rest) ← directives false innerDepth rest
  let (children, rest) ← whenever (startsWith .openBrace) [] (selectionSet innerDepth) rest
  let (selections, rest) ←
    closedBy .closeBrace (selectionOver innerDepth (selectionSet innerDepth)) rest
  let (definitions, _) ← many (!·.isEmpty) executable rest
  some { arguments := slots.filterMap id, directives, children, selections, definitions }

def Remainder.document (remainder : Remainder) (value : Value) : Document where
  definitions := .operation { kind := .query, selections := .field {
      name := "f"
      arguments := ⟨"v", value⟩ :: remainder.arguments
      directives := remainder.directives
      children := remainder.children } :: remainder.selections } :: remainder.definitions

theorem Remainder.firstArgument?_document (remainder : Remainder) (value : Value) :
    (remainder.document value).firstArgument? = some value := rfl

def opening : List Lexeme :=
  [.symbol .openBrace, .name "f", .symbol .openParen, .name "v", .symbol .colon].map (⟨·, false⟩)

section Opening

variable (tokens : List Lexeme)

theorem arguments_opened (levels : Nat) :
    arguments false levels
        (⟨.symbol .openParen, false⟩ :: ⟨.name "v", false⟩ :: ⟨.symbol .colon, false⟩ :: tokens) =
      (value false levels tokens).bind fun (v, rest) =>
        (closedBy .closeParen (slot (value false levels)) rest).map fun (slots, after) =>
          (⟨"v", v⟩ :: slots.filterMap id, after) := by
  rw [arguments, whenever_present rfl]
  simp only [symbol_cons, Option.bind_eq_bind, Option.bind_some]
  rw [someClosedBy_goesOn (consumes_slot consumes_value) rfl, slot]
  cases value false levels tokens with
  | none => rfl
  | some answer =>
    obtain ⟨v, rest⟩ := answer
    cases inside : closedBy .closeParen (slot (value false levels)) rest <;> simp [inside]

theorem executable_selections {tokens : List Lexeme} (starts : startsWith .openBrace tokens = true) :
    executable tokens = (selectionSet maxDepth tokens).map fun (selections, rest) =>
      (.operation { kind := .query, selections }, rest) := by
  rw [executable, definition, if_pos (by simp [starts]), operation, if_pos starts]
  cases selectionSet maxDepth tokens <;> rfl

theorem selectionSet_opened : selectionSet maxDepth (opening ++ tokens) =
    (selectionOver.field innerDepth (selectionSet innerDepth) none "f"
        (⟨.symbol .openParen, false⟩ :: ⟨.name "v", false⟩ :: ⟨.symbol .colon, false⟩ :: tokens)).bind
      fun (first, rest) =>
        (closedBy .closeBrace (selectionOver innerDepth (selectionSet innerDepth)) rest).map
          fun (others, after) => (first :: others, after) :=
  someClosedBy_goesOn (consumes_selectionOver consumes_selectionSet) rfl

theorem many_opened :
    (many (!·.isEmpty) executable (opening ++ tokens)).map (·.1) =
      (value false innerDepth tokens).bind fun (v, rest) =>
        (remainder? rest).map fun remainder => (remainder.document v).definitions := by
  rw [many_goesOn consumes_executable _ rfl, executable_selections rfl, selectionSet_opened,
    selectionOver.field, arguments_opened]
  simp only [remainder?, Option.bind_eq_bind, Option.map_eq_bind, Option.bind_assoc, Option.bind_some,
    Function.comp_def]
  rfl

end Opening

end Grammar

namespace Document

theorem ofText?_around (text : String) :
    ofText? ("\x7b f(v: " ++ text ++ ") \x7d") =
      (ofText? (text ++ ") \x7d")).map (Grammar.opening ++ ·) := by
  have around : ("\x7b f(v: " ++ text ++ ") \x7d").toList = '\x7b' :: ' ' :: ("f".toList ++
      '(' :: ("v".toList ++ ':' :: ' ' :: (text ++ ") \x7d").toList)) := by
    simp
  rw [ofText?_eq_lex, ofText?_eq_lex, around, lex_symbol rfl, lex_space,
    reads_name (by decide) false _ rfl, lex_symbol rfl, reads_name (by decide) false _ rfl,
    lex_symbol rfl, lex_space]
  simp only [prepend?_prepend?]
  rfl

/-- The documents that are read from a text around a value. -/
theorem parse_around {text : String} {doc : Document} :
    parse ("\x7b f(v: " ++ text ++ ") \x7d") = .ok doc ↔
      ∃ tokens v rest remainder, ofText? (text ++ ") \x7d") = some tokens ∧
        Grammar.value false Grammar.innerDepth tokens = some (v, rest) ∧
        Grammar.remainder? rest = some remainder ∧ doc = remainder.document v := by
  have someText : allBlank ("\x7b f(v: " ++ text ++ ") \x7d") = false := by
    rw [allBlank, String.toList_append, String.toList_append, List.append_assoc]
    rfl
  rw [parse_ok, ofText?_around]
  simp only [someText, true_and, Option.map_eq_some_iff, exists_exists_and_eq_and,
    Grammar.definitions_eq_some]
  constructor
  · rintro ⟨tokens, lexed, nonempty, left, taken⟩
    have read := Grammar.many_opened tokens
    rw [taken] at read
    obtain ⟨⟨v, rest⟩, value, found⟩ := Option.bind_eq_some_iff.mp read.symm
    obtain ⟨remainder, behind, same⟩ := Option.map_eq_some_iff.mp found
    obtain ⟨definitions⟩ := doc
    exact ⟨tokens, v, rest, remainder, lexed, value, behind, congrArg Document.mk same.symm⟩
  · rintro ⟨tokens, v, rest, remainder, lexed, value, behind, rfl⟩
    have read := Grammar.many_opened tokens
    rw [value, Option.bind_some] at read
    dsimp only at read
    rw [behind, Option.map_some] at read
    obtain ⟨⟨definitions, left⟩, taken, same⟩ := Option.map_eq_some_iff.mp read
    dsimp only at same
    subst same
    exact ⟨tokens, lexed, List.cons_ne_nil _ _, left, taken⟩

end Document

namespace Value

theorem parse_iff_read (text : String) (v : Value) :
    parse text = .ok v ↔ ∃ tokens rest, ofText? (text ++ ") \x7d") = some tokens ∧
      Grammar.value false Grammar.innerDepth tokens = some (v, rest) ∧
      (Grammar.remainder? rest).isSome = true := by
  have asArgument : parse text = .ok v ↔ allBlank text = false ∧
      ∃ doc, Document.parse ("\x7b f(v: " ++ text ++ ") \x7d") = .ok doc ∧
        doc.firstArgument? = some v := by
    rw [parse]
    cases allBlank text with
    | true => simp
    | false =>
      cases Document.parse ("\x7b f(v: " ++ text ++ ") \x7d") with
      | error e => simp [bind, Except.bind]
      | ok doc => cases found : doc.firstArgument? <;> simp [bind, Except.bind, found]
  rw [asArgument]
  constructor
  · rintro ⟨-, doc, parsed, found⟩
    obtain ⟨tokens, v', rest, remainder, lexed, value, behind, rfl⟩ := Document.parse_around.mp parsed
    cases (remainder.firstArgument?_document v').symm.trans found
    exact ⟨tokens, rest, lexed, value, by rw [behind]; rfl⟩
  · rintro ⟨tokens, rest, lexed, value, behind⟩
    obtain ⟨remainder, behind⟩ := Option.isSome_iff_exists.mp behind
    refine ⟨?_, remainder.document v, Document.parse_around.mpr
      ⟨tokens, v, rest, remainder, lexed, value, behind, rfl⟩, remainder.firstArgument?_document v⟩
    -- In a blank text, the first token is the one that closes the arguments.
    rw [Bool.eq_false_iff]
    intro blank
    rw [ofText?_eq_lex, String.toList_append] at lexed
    obtain ⟨afterComma, closing⟩ := lex_behind_blank blank lexed
    have marks : lex afterComma ") \x7d".toList =
        some [⟨.symbol .closeParen, afterComma⟩, ⟨.symbol .closeBrace, false⟩] := by
      cases afterComma <;> decide +kernel
    rw [marks] at closing
    cases closing
    cases value

theorem all_finite (v : Value) :
    v.all .finite = (v.all .names && (v.all .enums && v.all .floats)) := by
  rw [← all_and, ← all_and]
  refine all_congr ?_ ?_ v
  · funext v
    cases v <;> simp [Check.grammatical, Check.names, Check.enums, Check.floats]
  · funext name
    simp [Check.grammatical, Check.names, Check.enums, Check.floats]

theorem ofText?_print {v : Value} (names : v.all .names = true) :
    ofText? (v.print ++ ") \x7d") = prepend? (v.all .readable) (v.lexemes false)
      (some [⟨.symbol .closeParen, false⟩, ⟨.symbol .closeBrace, false⟩]) := by
  rw [ofText?_eq_lex, String.toList_append, reads_print names false _ (by decide)]
  rfl

/-- Exactly these values are read back from their text: those with names throughout and no enum value called
like a literal, with finite floats, and nested no deeper than the query around leaves room for. -/
theorem print_read_back_iff (v : Value) :
    parse v.print = .ok v ↔ v.all .names = true ∧ v.all .enums = true ∧ v.all .floats = true ∧
      v.depth < Grammar.maxDepth := by
  rw [parse_iff_read]
  constructor
  · rintro ⟨tokens, rest, lexed, read, -⟩
    have proper := scan?_proper lexed
    obtain ⟨⟨good, -, depth⟩, -⟩ := (Grammar.gives_value false Grammar.innerDepth).of proper read
    have names := all_mono (Check.grammatical_names _) good
    have readable := lexed
    rw [ofText?_print names] at readable
    have settled : tokens.all isSettled = true := by
      unfold prepend? at readable
      split at readable
      · cases readable
        simp [lexemes_settled, isSettled]
      · cases readable
    obtain ⟨⟨finite, -, -⟩, -⟩ := (Grammar.gives_value false Grammar.innerDepth).of
      (proper_of_settled proper settled) read
    rw [all_finite] at finite
    simp only [Bool.and_eq_true] at finite
    exact ⟨finite.1, finite.2.1, finite.2.2, Nat.lt_of_le_of_lt depth (by decide)⟩
  · rintro ⟨names, enums, floats, depth⟩
    have finite : v.all .finite = true := by
      rw [all_finite, names, enums, floats]
      rfl
    have readable : v.all .readable = true := all_mono Check.floats_readable floats
    have lexed := ofText?_print names
    rw [readable] at lexed
    have inner : v.depth ≤ Grammar.innerDepth := Nat.le_sub_one_of_lt depth
    have read := (Grammar.value_takes finite (absurd · Bool.false_ne_true) inner).reads
      false [⟨.symbol .closeParen, false⟩, ⟨.symbol .closeBrace, false⟩] rfl
    exact ⟨_, _, lexed, read, rfl⟩

theorem ofText?_closing (text : String) :
    (EndsInComment text.toList → ofText? (text ++ ") \x7d") = ofText? text) ∧
    (¬ EndsInComment text.toList → ∃ afterComma,
      ofText? (text ++ ") \x7d") = (ofText? text).map (· ++ marks afterComma)) := by
  rw [ofText?_eq_lex, ofText?_eq_lex, String.toList_append]
  exact ⟨fun ends => (closes _).swallowed ends false, fun never => (closes _).kept never false⟩

theorem spelled_within {front rest tokens : List Lexeme} {v : Value} (spelled : Spelled front v)
    {afterComma : Bool} (whole : front ++ rest = tokens ++ marks afterComma) :
    ∃ behind, tokens = front ++ behind ∧ rest = behind ++ marks afterComma := by
  rcases List.append_eq_append_iff.mp whole with within | ⟨excess, longer, run⟩
  · exact within
  · cases excess with
    | nil =>
      rw [List.append_nil] at longer
      exact ⟨[], by rw [List.append_nil, longer], run.symm⟩
    | cons first others =>
      have paren := spelled.not_closeParen first (by simp [longer])
      rw [← (List.cons.inj run).1] at paren
      exact absurd rfl paren

/-- A text is read as a value exactly if it starts with a spelling of the value, nested no deeper than the
query around leaves room for, and what comes behind the value, with the closing marks as far as the text
leaves them, is the rest of a document. -/
theorem parse_iff_spelled (text : String) (v : Value) :
    parse text = .ok v ↔ ∃ front behind last, ofText? text = some (front ++ behind) ∧
      ofText? (text ++ ") \x7d") = some (front ++ behind ++ last) ∧ Spelled front v ∧
      v.depth < Grammar.maxDepth ∧ (Grammar.remainder? (behind ++ last)).isSome = true := by
  obtain ⟨swallowed, kept⟩ := ofText?_closing text
  rw [parse_iff_read]
  constructor
  · rintro ⟨tokens, rest, lexed, read, remainder⟩
    obtain ⟨front, rfl, spelled, depth⟩ := Grammar.value_eq_some.mp read
    have inside : v.depth < Grammar.maxDepth := Nat.lt_of_le_pred (by decide) depth
    by_cases ends : EndsInComment text.toList
    · refine ⟨front, rest, [], (swallowed ends).symm.trans lexed, ?_, spelled, inside, ?_⟩
      · rw [List.append_nil]
        exact lexed
      · rw [List.append_nil]
        exact remainder
    · obtain ⟨afterComma, marked⟩ := kept ends
      rw [lexed] at marked
      obtain ⟨tokens, own, whole⟩ := Option.map_eq_some_iff.mp marked.symm
      obtain ⟨behind, rfl, rfl⟩ := spelled_within spelled whole.symm
      rw [← List.append_assoc] at lexed
      exact ⟨front, behind, marks afterComma, own, lexed, spelled, inside, remainder⟩
  · rintro ⟨front, behind, last, -, lexed, spelled, depth, remainder⟩
    rw [List.append_assoc] at lexed
    exact ⟨_, _, lexed, Grammar.value_of_spelled spelled (Nat.le_pred_of_lt depth) _, remainder⟩

theorem parse_whole {text : String} {v : Value} {tokens : List Lexeme} (lexed : ofText? text = some tokens)
    (spelled : Spelled tokens v) (depth : v.depth < Grammar.maxDepth) :
    parse text = .ok v ↔ ¬ EndsInComment text.toList := by
  obtain ⟨swallowed, kept⟩ := ofText?_closing text
  rw [parse_iff_spelled]
  constructor
  · rintro ⟨front, behind, last, own, marked, shorter, -, remainder⟩ ends
    rw [lexed] at own
    cases own
    rw [swallowed ends, lexed] at marked
    have noMarks : last = [] := by simpa using marked
    -- The value is read whole, so that nothing is left behind it to close the query.
    have readShorter := Grammar.value_of_spelled shorter (Nat.le_refl _) behind
    have readWhole := Grammar.value_of_spelled spelled (Nat.le_refl _) []
    rw [List.append_nil, readShorter] at readWhole
    cases readWhole
    rw [noMarks] at remainder
    cases remainder
  · intro ends
    obtain ⟨afterComma, marked⟩ := kept ends
    rw [lexed, Option.map_some] at marked
    refine ⟨tokens, [], marks afterComma, ?_, ?_, spelled, depth, ?_⟩
    · rw [List.append_nil]
      exact lexed
    · rw [List.append_nil]
      exact marked
    · cases afterComma <;> rfl

/-- What decides whether a text is read as a value, and that the tokens of a value alone are, where no
comment takes the closing marks. -/
theorem parse_literal (text : String) (v : Value) :
    (parse text = .ok v ↔ ∃ front behind last, ofText? text = some (front ++ behind) ∧
      ofText? (text ++ ") \x7d") = some (front ++ behind ++ last) ∧ Spelled front v ∧
      v.depth < Grammar.maxDepth ∧ (Grammar.remainder? (behind ++ last)).isSome = true) ∧
    (∀ tokens ∈ ofText? text, tokens.map (·.token) = v.tokens → v.all .enums = true →
      v.depth < Grammar.maxDepth → (parse text = .ok v ↔ ¬ EndsInComment text.toList)) :=
  ⟨parse_iff_spelled text v, fun _ lexed same enums depth =>
    parse_whole lexed (spelled_of_tokens enums same) depth⟩

/-- A list with a comment in it, and a value with another argument behind it. -/
theorem parse_literal_continued :
    parse "[$a # a\n, 1]" = .ok (.list [.variable "a", .int 1]) ∧ parse "1 b: 2" = .ok (.int 1) := by
  constructor
  · obtain ⟨tokens, lexed⟩ : ∃ tokens, ofText? "[$a # a\n, 1]" = some tokens :=
      Option.isSome_iff_exists.mp (by decide +kernel)
    have same : (ofText? "[$a # a\n, 1]").map (·.map (·.token)) =
        some (Value.list [.variable "a", .int 1]).tokens := by decide +kernel
    rw [lexed] at same
    refine ((parse_literal _ _).2 tokens lexed (Option.some.inj same) rfl (by decide)).mpr fun ends => ?_
    exact absurd ((ofText?_closing _).1 ends) (by decide +kernel)
  · refine (parse_literal _ _).1.mpr
      ⟨[⟨.int 1, false⟩], [⟨.name "b", false⟩, ⟨.symbol .colon, false⟩, ⟨.int 2, false⟩], marks false, ?_, ?_,
        .int 1 false, by decide, ?_⟩
    all_goals decide +kernel

/-- Texts are accepted that go on behind a value, with other arguments or out of the parentheses, and so are
names without a value. A value in front of a comment is rejected. -/
theorem trailing_text_accepted :
    parse "1 b: 2" = .ok (.int 1) ∧ (∀ tokens ∈ ofText? "1 b: 2", ∀ v, ¬ Spelled tokens v) ∧
    parse "1) \x7b g \x7d h(x: 2" = .ok (.int 1) ∧ parse "\x7ba\x7d" = .ok (.object []) ∧
    parse "1 # one" = .error .malformed ∧
    (ofText? "1 # one").map (·.map (·.token)) = some (Value.int 1).tokens := by
  refine ⟨by decide +kernel, fun tokens lexed v spelled => ?_, by decide +kernel, by decide +kernel,
    by decide +kernel, by decide +kernel⟩
  have read : ofText? "1 b: 2" = some [⟨.int 1, false⟩, ⟨.name "b", false⟩, ⟨.symbol .colon, false⟩,
      ⟨.int 2, false⟩] := by decide +kernel
  cases read.symm.trans lexed
  cases spelled

end Value

end QueryEditor
