import QueryEditor.Text.Blank
import QueryEditor.Proofs.Token.Spelling

namespace QueryEditor

open Text

theorem Text.joined_cons (separator first second : String) (others : List String) :
    joined separator (first :: second :: others) =
      first ++ separator ++ joined separator (second :: others) := rfl

namespace Lexeme

theorem scan?_steps {steps more : Nat} {text : List Char} (enough : text.length ≤ steps)
    (enoughMore : text.length ≤ more) (afterComma : Bool) :
    scan? steps afterComma text = scan? more afterComma text := by
  induction steps generalizing more text afterComma with
  | zero =>
    rw [Nat.le_zero, List.length_eq_zero_iff] at enough
    subst enough
    simp [scan?]
  | succ steps ih =>
    cases text with
    | nil => simp [scan?]
    | cons c rest =>
      obtain ⟨more, rfl⟩ : ∃ fewer, more = fewer + 1 :=
        ⟨more - 1, by rw [List.length_cons] at enoughMore; omega⟩
      rw [List.length_cons, Nat.add_le_add_iff_right] at enough enoughMore
      have dropped : (rest.dropWhile (!Token.isLineEnd ·)).length ≤ rest.length :=
        (List.dropWhile_sublist _).length_le
      rw [scan?, scan?, ih enough enoughMore,
        ih (Nat.le_trans dropped enough) (Nat.le_trans dropped enoughMore)]
      split
      · rfl
      split
      · rfl
      cases found : Token.first? (c :: rest) with
      | none => rfl
      | some result =>
        obtain ⟨token, after⟩ := result
        have shorter := Token.first?_shorter found
        rw [List.length_cons, Nat.lt_succ_iff] at shorter
        simp only [Option.bind_eq_bind, Option.bind_some]
        rw [ih (Nat.le_trans shorter enough) (Nat.le_trans shorter enoughMore)]

def lex (afterComma : Bool) (text : List Char) : Option (List Lexeme) :=
  scan? text.length afterComma text

theorem ofText?_eq_lex (text : String) : ofText? text = lex false text.toList := rfl

@[simp] theorem lex_nil (afterComma : Bool) : lex afterComma [] = some [] := rfl

theorem lex_ignored {c : Char} (ignored : Token.isIgnored c = true) (afterComma : Bool)
    (rest : List Char) : lex afterComma (c :: rest) = lex (afterComma || c == ',') rest := by
  rw [lex, List.length_cons, scan?, if_pos ignored]
  rfl

@[simp] theorem lex_space (afterComma : Bool) (rest : List Char) :
    lex afterComma (' ' :: rest) = lex afterComma rest := by
  rw [lex_ignored rfl]
  simp

@[simp] theorem lex_newline (afterComma : Bool) (rest : List Char) :
    lex afterComma ('\n' :: rest) = lex afterComma rest := by
  rw [lex_ignored rfl]
  simp

@[simp] theorem lex_comma (afterComma : Bool) (rest : List Char) :
    lex afterComma (',' :: rest) = lex true rest := by
  rw [lex_ignored rfl]
  simp

@[simp] theorem lex_spaces (count : Nat) (afterComma : Bool) (rest : List Char) :
    lex afterComma (List.replicate count ' ' ++ rest) = lex afterComma rest := by
  induction count with
  | zero => rfl
  | succ count ih => rw [List.replicate_succ, List.cons_append, lex_space, ih]

theorem first?_separator {c : Char} (separator : Token.isIgnored c = true ∨ c = '#')
    (rest : List Char) : Token.first? (c :: rest) = none := by
  simp only [Token.isIgnored, Bool.or_eq_true, beq_iff_eq] at separator
  rcases separator with (((((rfl | rfl) | rfl) | rfl) | rfl) | rfl) | rfl <;> rfl

theorem lex_first? (c : Char) (rest : List Char) (afterComma : Bool)
    (separator : ¬ (Token.isIgnored c = true ∨ c = '#')) :
    lex afterComma (c :: rest) = (Token.first? (c :: rest)).bind fun found =>
      (lex false found.2).map (⟨found.1, afterComma⟩ :: ·) := by
  rw [not_or, Bool.not_eq_true] at separator
  rw [lex, List.length_cons, scan?, if_neg (by simp [separator.1]), if_neg separator.2]
  cases found : Token.first? (c :: rest) with
  | none => rfl
  | some result =>
    obtain ⟨token, after⟩ := result
    have shorter := Token.first?_shorter found
    rw [List.length_cons, Nat.lt_succ_iff] at shorter
    simp only [Option.bind_eq_bind, Option.bind_some]
    rw [scan?_steps shorter (Nat.le_refl _), ← lex]
    cases lex false after <;> rfl

def prepend? (readable : Bool) (front : List Lexeme) (rest : Option (List Lexeme)) :
    Option (List Lexeme) :=
  if readable then rest.map (front ++ ·) else none

@[simp] theorem prepend?_nil (rest : Option (List Lexeme)) : prepend? true [] rest = rest := by
  cases rest <;> rfl

@[simp] theorem prepend?_prepend? (first second : Bool) (front middle : List Lexeme)
    (rest : Option (List Lexeme)) :
    prepend? first front (prepend? second middle rest) =
      prepend? (first && second) (front ++ middle) rest := by
  cases first <;> cases second <;> cases rest <;> simp [prepend?]

theorem lex_token {text rest : List Char} {token : Token}
    (found : Token.first? text = some (token, rest)) (afterComma : Bool) :
    lex afterComma text = prepend? true [⟨token, afterComma⟩] (lex false rest) := by
  cases text with
  | nil => cases found
  | cons c text =>
    have separator : ¬ (Token.isIgnored c = true ∨ c = '#') := by
      intro separator
      rw [first?_separator separator] at found
      cases found
    rw [lex_first? c text afterComma separator, found]
    rfl

theorem lex_symbol {c : Char} {mark : Symbol} (spelled : Symbol.ofChar? c = some mark)
    (afterComma : Bool) (rest : List Char) :
    lex afterComma (c :: rest) = prepend? true [⟨.symbol mark, afterComma⟩] (lex false rest) := by
  apply lex_token
  have point : c ≠ '.' := by rintro rfl; cases spelled
  have quote : c ≠ '"' := by rintro rfl; cases spelled
  rw [Token.first?.eq_6 c rest point (fun _ same => absurd same quote) quote, spelled]

theorem lex_ellipsis (afterComma : Bool) (rest : List Char) :
    lex afterComma ('.' :: '.' :: '.' :: rest) =
      prepend? true [⟨.symbol .ellipsis, afterComma⟩] (lex false rest) :=
  lex_token rfl afterComma

/-- The text is read as these tokens, whatever follows, unless that goes on with the last of them.
The first token knows whether there is a comma in front of the text. -/
def Reads (text : String) (readable : Bool) (lexemes : Bool → List Lexeme) : Prop :=
  ∀ afterComma rest, startsIn Token.goesOn rest = false →
    lex afterComma (text.toList ++ rest) = prepend? readable (lexemes afterComma) (lex false rest)

/-- The text is read as these tokens where there is no comma in front of it. -/
def Spells (text : String) (readable : Bool) (lexemes : List Lexeme) : Prop :=
  ∀ rest, startsIn Token.goesOn rest = false →
    lex false (text.toList ++ rest) = prepend? readable lexemes (lex false rest)

theorem Reads.spells {text : String} {readable : Bool} {lexemes : Bool → List Lexeme}
    (reads : Reads text readable lexemes) : Spells text readable (lexemes false) :=
  reads false

theorem reads_name {name : String} (valid : isName name = true) :
    Reads name true fun afterComma => [⟨.name name, afterComma⟩] :=
  fun afterComma _ stops => lex_token (Token.first?_name valid stops) afterComma

theorem reads_int (number : Int64) :
    Reads (toString number.toInt) true fun afterComma => [⟨.int number, afterComma⟩] :=
  fun afterComma _ stops => lex_token (Token.first?_int number stops) afterComma

theorem reads_quoted (content : String) :
    Reads (quoted content) true fun afterComma => [⟨.string content, afterComma⟩] :=
  fun afterComma _ stops => lex_token (Token.first?_quoted content stops) afterComma

theorem lex_marked {c : Char} {mark : Symbol} (spelled : Symbol.ofChar? c = some mark)
    {name : String} (valid : isName name = true) (afterComma : Bool) {rest : List Char}
    (stops : startsIn Token.goesOn rest = false) :
    lex afterComma (c :: (name.toList ++ rest)) =
      prepend? true [⟨.symbol mark, afterComma⟩, ⟨.name name, false⟩] (lex false rest) := by
  rw [lex_symbol spelled, reads_name valid false rest stops, prepend?_prepend?]
  rfl

theorem Spells.empty {readable : Bool} {lexemes : List Lexeme} (spells : Spells "" readable lexemes) :
    readable = true ∧ lexemes = [] := by
  have read : some [] = prepend? readable lexemes (some []) := spells [] rfl
  cases readable with
  | true =>
    have same : [] = lexemes ++ [] := Option.some.inj read
    rw [List.append_nil] at same
    exact ⟨rfl, same.symm⟩
  | false => cases read

theorem spells_nothing : Spells "" true [] := by
  intro rest _
  rw [prepend?_nil]
  rfl

structure Separates (separator : String) : Prop where
  ignored : ∀ rest, lex false (separator.toList ++ rest) = lex false rest
  stops : ∀ rest, startsIn Token.goesOn (separator.toList ++ rest) = false

theorem separates_space : Separates " " :=
  ⟨fun rest => by simp, fun rest => by simp [Token.goesOn]; decide⟩

theorem separates_newlines : Separates "

" :=
  ⟨fun rest => by simp, fun rest => by simp [Token.goesOn]; decide⟩

section Joined

variable {α : Type} {print : α → String} {readable : α → Bool}

theorem spells_joined {separator : String} (separates : Separates separator)
    {lexemes : α → List Lexeme} {items : List α}
    (each : ∀ a ∈ items, Spells (print a) (readable a) (lexemes a)) :
    Spells (joined separator (items.map print)) (items.all readable) (items.flatMap lexemes) := by
  induction items with
  | nil => exact spells_nothing
  | cons a others ih =>
    have first := each a List.mem_cons_self
    have rest := ih fun b member => each b (List.mem_cons_of_mem a member)
    cases others with
    | nil => simpa [joined] using first
    | cons b others =>
      intro after stops
      rw [List.map_cons, List.map_cons, joined_cons, ← List.map_cons, String.toList_append,
        String.toList_append, List.append_assoc, List.append_assoc, first _ (separates.stops _),
        separates.ignored, rest after stops, prepend?_prepend?]
      rfl

def series (lexemes : Bool → α → List Lexeme) : (afterComma : Bool) → List α → List Lexeme
  | _, [] => []
  | afterComma, a :: rest => lexemes afterComma a ++ series lexemes true rest

theorem reads_series {lexemes : Bool → α → List Lexeme} {items : List α} (nonempty : items ≠ [])
    (each : ∀ a ∈ items, Reads (print a) (readable a) (lexemes · a)) :
    Reads (joined ", " (items.map print)) (items.all readable) (series lexemes · items) := by
  induction items with
  | nil => exact absurd rfl nonempty
  | cons a others ih =>
    have first := each a List.mem_cons_self
    cases others with
    | nil => simpa [joined, series] using first
    | cons b others =>
      have rest := ih (List.cons_ne_nil b others)
        fun b member => each b (List.mem_cons_of_mem a member)
      intro afterComma after stops
      have read := rest true after stops
      have comma : startsIn Token.goesOn (", ".toList ++
          ((joined ", " (List.map print (b :: others))).toList ++ after)) = false := by
        simp [Token.goesOn]
        decide
      rw [List.map_cons, List.map_cons, joined_cons, ← List.map_cons, String.toList_append,
        String.toList_append, List.append_assoc, List.append_assoc, first afterComma _ comma]
      have separated : lex false (", ".toList ++
          ((joined ", " (List.map print (b :: others))).toList ++ after)) =
          lex true ((joined ", " (List.map print (b :: others))).toList ++ after) := by
        simp
      dsimp only at read ⊢
      rw [separated, read, prepend?_prepend?]
      rfl

theorem spells_series {lexemes : Bool → α → List Lexeme} {items : List α}
    (each : ∀ a ∈ items, Reads (print a) (readable a) (lexemes · a)) :
    Spells (joined ", " (items.map print)) (items.all readable) (series lexemes false items) := by
  by_cases nonempty : items = []
  · subst nonempty
    exact spells_nothing
  · exact (reads_series nonempty each).spells

end Joined

theorem reads_enclosed (opening closing : String) {c d : Char} {left right : Symbol}
    (opens : opening.toList = [c] ∧ Symbol.ofChar? c = some left)
    (closes : closing.toList = [d] ∧ Symbol.ofChar? d = some right)
    (stops : Token.goesOn d = false) {text : String} {readable : Bool} {lexemes : List Lexeme}
    (spells : Spells text readable lexemes) :
    Reads (opening ++ text ++ closing) readable fun afterComma =>
      ⟨.symbol left, afterComma⟩ :: (lexemes ++ [⟨.symbol right, false⟩]) := by
  intro afterComma rest _
  rw [String.toList_append, String.toList_append, opens.1, closes.1, List.append_assoc,
    List.append_assoc, List.singleton_append, List.singleton_append, lex_symbol opens.2,
    spells (d :: rest) stops, lex_symbol closes.2]
  simp

end Lexeme

end QueryEditor
