import QueryEditor.Proofs.Document.Image
import QueryEditor.Proofs.Document.Reading

namespace QueryEditor

open Text Lexeme

theorem Token.first?_blank {c : Char} (blank : isBlank c = true) (rest : List Char) :
    first? (c :: rest) = none := by
  have code : c.toNat < 0x21 ∨ 0x84 < c.toNat := by
    simp only [isBlank, Bool.or_eq_true, Bool.and_eq_true, decide_eq_true_eq, beq_iff_eq] at blank
    omega
  have noName : ¬ isNameStart c = true := fun start => by
    have := isNameStart_toNat start
    omega
  have noDigit : isDigit c = false := by
    rw [Bool.eq_false_iff]
    intro digit
    have := isDigit_toNat digit
    omega
  have other : ∀ d : Char, (0x21 ≤ d.toNat ∧ d.toNat ≤ 0x84) → c ≠ d := by
    rintro d bounds rfl
    omega
  have noMark : Symbol.ofChar? c = none := by
    unfold Symbol.ofChar?
    split <;> first | rfl | exact absurd rfl (other _ (by decide))
  rw [first?_plain (other '.' (by decide)) (other '"' (by decide)) noMark, if_neg noName,
    if_neg (by simp [noDigit, other '-' (by decide)])]

theorem Lexeme.lex_behind_blank {text more : List Char} (blank : text.all isBlank = true)
    {afterComma : Bool} {lexemes : List Lexeme} (lexed : lex afterComma (text ++ more) = some lexemes) :
    ∃ afterComma, lex afterComma more = some lexemes := by
  induction text generalizing afterComma with
  | nil => exact ⟨afterComma, lexed⟩
  | cons c rest ih =>
    rw [List.all_cons, Bool.and_eq_true] at blank
    rw [List.cons_append] at lexed
    by_cases ignored : Token.isIgnored c = true
    · rw [lex_ignored ignored] at lexed
      exact ih blank.2 lexed
    · have noComment : c ≠ '#' := by
        rintro rfl
        exact absurd blank.1 (by decide)
      rw [lex_first? c _ afterComma (by simp [ignored, noComment]),
        Token.first?_blank blank.1] at lexed
      cases lexed

theorem Lexeme.lex_blank {text : List Char} (blank : text.all isBlank = true) {afterComma : Bool}
    {lexemes : List Lexeme} (lexed : lex afterComma text = some lexemes) : lexemes = [] := by
  rw [← List.append_nil text] at lexed
  obtain ⟨_, nothing⟩ := lex_behind_blank blank lexed
  exact (Option.some.inj nothing).symm

/-- No float in the token is infinite. -/
def Lexeme.isSettled (lexeme : Lexeme) : Bool :=
  match lexeme.token with
  | .float number => number.isFinite
  | _ => true

theorem Lexeme.proper_of_settled {lexemes : List Lexeme}
    (proper : lexemes.all (isProper fun _ => true) = true) (settled : lexemes.all isSettled = true) :
    lexemes.all (isProper Binary64.isFinite) = true := by
  rw [List.all_eq_true] at proper settled ⊢
  intro lexeme member
  have name := proper lexeme member
  have float := settled lexeme member
  obtain ⟨token, _⟩ := lexeme
  cases token with
  | name text => exact name
  | float number => exact float
  | _ => rfl

theorem Lexeme.series_settled {α : Type} {lexemes : Bool → α → List Lexeme} {items : List α}
    (each : ∀ a ∈ items, ∀ afterComma, (lexemes afterComma a).all isSettled = true)
    (afterComma : Bool) : (series lexemes afterComma items).all isSettled = true := by
  induction items generalizing afterComma with
  | nil => rfl
  | cons a others ih =>
    rw [series, List.all_append, each a List.mem_cons_self,
      ih fun b member => each b (List.mem_cons_of_mem a member)]
    rfl

theorem Lexeme.flatMap_settled {α : Type} {lexemes : α → List Lexeme} {items : List α}
    (each : ∀ a ∈ items, (lexemes a).all isSettled = true) :
    (items.flatMap lexemes).all isSettled = true := by
  induction items with
  | nil => rfl
  | cons a others ih =>
    rw [List.flatMap_cons, List.all_append, each a List.mem_cons_self,
      ih fun b member => each b (List.mem_cons_of_mem a member)]
    rfl

namespace Value

theorem lexemesOfSlot_settled {slot : Slot}
    (value : ∀ afterComma, (slot.value.lexemes afterComma).all isSettled = true) (afterComma : Bool) :
    (lexemesOfSlot afterComma slot).all isSettled = true := by
  simp [lexemesOfSlot, isSettled, value false]

theorem lexemes_settled (v : Value) (afterComma : Bool) :
    (v.lexemes afterComma).all isSettled = true := by
  induction v using Value.inductionOn generalizing afterComma with
  | float number => cases finite : number.isFinite <;> simp [lexemes, isSettled, finite]
  | list items ih =>
    have inside := series_settled ih false
    simp [lexemes, lexemesOfItems_eq, inside, isSettled]
  | object fields ih =>
    have inside := series_settled (fun slot member => lexemesOfSlot_settled (ih slot member)) false
    simp [lexemes, lexemesOfSlots_eq, inside, isSettled]
  | _ => simp [lexemes, isSettled]

end Value

theorem lexemesOfArguments_settled (arguments : List Slot) :
    (lexemesOfArguments arguments).all isSettled = true := by
  have inside : (series Value.lexemesOfSlot false arguments).all isSettled = true :=
    series_settled (fun slot _ => Value.lexemesOfSlot_settled slot.value.lexemes_settled) false
  unfold lexemesOfArguments
  split
  · rfl
  · simp [inside, isSettled]

theorem lexemesOfDirectives_settled (directives : List Directive) :
    (lexemesOfDirectives directives).all isSettled = true :=
  flatMap_settled fun d _ => by
    simp [Directive.lexemes, isSettled, lexemesOfArguments_settled]

namespace Selection

theorem lexemesOfSet_settled {selections : List Selection}
    (each : ∀ s ∈ selections, s.lexemes.all isSettled = true) :
    (lexemesOfSet selections).all isSettled = true := by
  have inside := flatMap_settled each
  unfold lexemesOfSet lexemesOfBraces
  split
  · rfl
  · simp [inside, isSettled]

theorem lexemes_settled (s : Selection) : s.lexemes.all isSettled = true := by
  induction s using Selection.inductionOn with
  | field node ih =>
    rw [lexemes_field]
    cases node.aliasName <;>
      simp [isSettled, lexemesOfArguments_settled, lexemesOfDirectives_settled, lexemesOfSet_settled ih]
  | spread node => simp [lexemes, isSettled, lexemesOfDirectives_settled]
  | inline node ih =>
    rw [lexemes_inline]
    cases node.condition <;>
      simp [isSettled, lexemesOfDirectives_settled, lexemesOfSet_settled ih]

end Selection

theorem TypeRef.lexemes_settled (type : TypeRef) : type.lexemes.all isSettled = true := by
  induction type with
  | named name => rfl
  | list item ih => simp [lexemes, isSettled, ih]
  | nonNull type ih => simp [lexemes, isSettled, ih]

theorem VariableDefinition.lexemes_settled (d : VariableDefinition) (afterComma : Bool) :
    (d.lexemes afterComma).all isSettled = true := by
  unfold lexemes
  cases d.default? <;> simp [isSettled, TypeRef.lexemes_settled, Value.lexemes_settled]

theorem Definition.lexemes_settled (d : Definition) : d.lexemes.all isSettled = true := by
  have set : ∀ selections, (Selection.lexemesOfSet selections).all isSettled = true :=
    fun selections => Selection.lexemesOfSet_settled fun s _ => s.lexemes_settled
  cases d with
  | operation op =>
    have declared : (Operation.lexemesOfDeclarations op.declarations).all isSettled = true := by
      have inside : (series VariableDefinition.lexemes false op.declarations).all isSettled = true :=
        series_settled (fun d _ => VariableDefinition.lexemes_settled d) false
      unfold Operation.lexemesOfDeclarations
      split
      · rfl
      · simp [inside, isSettled]
    unfold lexemes Operation.lexemes
    dsimp only
    split
    · exact set _
    · cases op.name <;> simp [isSettled, declared, lexemesOfDirectives_settled, set]
  | fragment frag => simp [lexemes, Fragment.lexemes, isSettled, lexemesOfDirectives_settled, set]

namespace Document

variable {doc : Document}

theorem parse_print (wellFormed : doc.WellFormed) : parse doc.print = .ok doc := by
  obtain ⟨nonempty, good, depth⟩ := (wellFormed_iff doc).mp wellFormed
  have read := Grammar.definitions_read nonempty good depth
  have readable : doc.all .readable = true := all_mono Check.floats_readable wellFormed.floats
  have lexed := lex_print wellFormed.names
  rw [if_pos readable] at lexed
  refine parse_ok.mpr ⟨?_, doc.lexemes, lexed, read⟩
  rw [Bool.eq_false_iff]
  intro blank
  rw [ofText?_eq_lex] at lexed
  rw [lex_blank blank lexed] at read
  cases read

/-- A document is well formed if the text that it was read from holds no float beyond all finite ones. -/
theorem wellFormed_of_settled {text : String} (parsed : parse text = .ok doc)
    (settled : ∀ lexemes ∈ ofText? text, lexemes.all isSettled = true) : doc.WellFormed := by
  obtain ⟨nonempty, _, depth⟩ := parse_grammatical parsed
  obtain ⟨_, lexemes, lexed, read⟩ := parse_ok.mp parsed
  have finite := proper_of_settled (scan?_proper lexed) (settled lexemes lexed)
  obtain ⟨_, each⟩ := Grammar.definitions_given finite read
  exact (wellFormed_iff doc).mpr ⟨nonempty, List.all_eq_true.mpr fun d member => (each d member).1,
    depth⟩

theorem wellFormed_of_parse_print (parsed : parse doc.print = .ok doc) : doc.WellFormed := by
  obtain ⟨_, good, _⟩ := parse_grammatical parsed
  have names : doc.all .names = true := all_mono (Check.grammatical_names _) good
  refine wellFormed_of_settled parsed fun lexemes lexed => ?_
  rw [lex_print names] at lexed
  split at lexed
  · cases lexed
    exact flatMap_settled fun d _ => d.lexemes_settled
  · cases lexed

/-- Exactly the well-formed documents are read back from their text. -/
theorem parse_print_iff (doc : Document) : parse doc.print = .ok doc ↔ doc.WellFormed :=
  ⟨wellFormed_of_parse_print, parse_print⟩

/-- A document that was read is read back from its print exactly if its floats are finite. They are if
those in the text are. -/
theorem parsed_parse_print {text : String} (parsed : parse text = .ok doc) :
    (parse doc.print = .ok doc ↔ doc.all .floats = true) ∧
    ((∀ lexemes ∈ ofText? text, lexemes.all isSettled = true) → parse doc.print = .ok doc) := by
  constructor
  · constructor
    · intro again
      exact (wellFormed_of_parse_print again).floats
    · intro floats
      obtain ⟨nonempty, good, depth⟩ := parse_grammatical parsed
      have finite : doc.all (.grammatical Binary64.isFinite) = true := by
        rw [← Check.grammatical_and_floats, all_and, good, floats]
        rfl
      exact parse_print ((wellFormed_iff doc).mpr ⟨nonempty, finite, depth⟩)
  · intro settled
    exact parse_print (wellFormed_of_settled parsed settled)

def unusualLiterals : String :=
  "\x7b f(a: 9223372036854775808, b: [-0.0, 1e308], c: \"\\u0041\") \x7d"

theorem parsed_parse_print_unusual : ∃ doc, parse unusualLiterals = .ok doc ∧
    doc.all .floats = true ∧ parse doc.print = .ok doc := by
  have read : (parse unusualLiterals).isOk = true := by decide +kernel
  cases parsed : parse unusualLiterals with
  | error e =>
    rw [parsed] at read
    cases read
  | ok doc =>
    have again : parse doc.print = .ok doc := (parsed_parse_print parsed).2 (by decide +kernel)
    exact ⟨doc, rfl, (parsed_parse_print parsed).1.mp again, again⟩

/-- A number beyond all finite floats is printed as a word, or as no token at all. -/
theorem overflowing_literal_lost : ∃ large small other,
    parse "\x7b f(a: 1e999) \x7d" = .ok large ∧ parse large.print = .ok other ∧ other ≠ large ∧
    parse "\x7b f(a: -1e999) \x7d" = .ok small ∧ parse small.print = .error .malformed := by
  let single (value : Value) : Document :=
    ⟨[.operation { kind := .query, selections := [.field { name := "f", arguments := [⟨"a", value⟩] }] }]⟩
  refine ⟨single (.float (.infinite false)), single (.float (.infinite true)), single (.enum "inf"), ?_⟩
  decide +kernel

end Document

end QueryEditor
