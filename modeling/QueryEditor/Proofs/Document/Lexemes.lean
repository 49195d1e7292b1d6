import QueryEditor.Document.Printer
import QueryEditor.Proofs.Document.WellFormed
import QueryEditor.Proofs.Token.Scanning

namespace QueryEditor

open Text Lexeme

@[simps]
def Check.readable : Check where
  value
    | .float (.infinite true) => false
    | _ => true

theorem Check.floats_readable : floats.Implies readable := by
  refine .values fun v finite => ?_
  cases v with
  | float number =>
    cases number with
    | finite => rfl
    | infinite => cases finite
    | notANumber => cases finite
  | _ => rfl

namespace Value

mutual

def lexemes (afterComma : Bool) : Value → List Lexeme
  | .null => [⟨.name "null", afterComma⟩]
  | .boolean truth => [⟨.name (if truth then "true" else "false"), afterComma⟩]
  | .int number => [⟨.int number, afterComma⟩]
  | .float number =>
    [⟨if number.isFinite then .float number else .name number.text, afterComma⟩]
  | .string content => [⟨.string content, afterComma⟩]
  | .enum name => [⟨.name name, afterComma⟩]
  | .variable name => [⟨.symbol .dollar, afterComma⟩, ⟨.name name, false⟩]
  | .list items =>
    ⟨.symbol .openBracket, afterComma⟩ ::
      (lexemesOfItems false items ++ [⟨.symbol .closeBracket, false⟩])
  | .object fields =>
    ⟨.symbol .openBrace, afterComma⟩ ::
      (lexemesOfSlots false fields ++ [⟨.symbol .closeBrace, false⟩])

def lexemesOfItems (afterComma : Bool) : List Value → List Lexeme
  | [] => []
  | item :: rest => lexemes afterComma item ++ lexemesOfItems true rest

def lexemesOfSlots (afterComma : Bool) : List Slot → List Lexeme
  | [] => []
  | ⟨name, value⟩ :: rest =>
    ⟨.name name, afterComma⟩ :: ⟨.symbol .colon, false⟩ :: lexemes false value ++
      lexemesOfSlots true rest

end

def lexemesOfSlot (afterComma : Bool) (slot : Slot) : List Lexeme :=
  ⟨.name slot.name, afterComma⟩ :: ⟨.symbol .colon, false⟩ :: slot.value.lexemes false

def printSlot (slot : Slot) : String :=
  slot.name ++ ": " ++ slot.value.print

theorem lexemesOfItems_eq (afterComma : Bool) (items : List Value) :
    lexemesOfItems afterComma items = series lexemes afterComma items := by
  induction items generalizing afterComma with
  | nil => rfl
  | cons item rest ih => rw [lexemesOfItems, series, ih]

theorem lexemesOfSlots_eq (afterComma : Bool) (fields : List Slot) :
    lexemesOfSlots afterComma fields = series lexemesOfSlot afterComma fields := by
  induction fields generalizing afterComma with
  | nil => rfl
  | cons slot rest ih => rw [lexemesOfSlots, series, ih]; rfl

theorem printItems_eq (items : List Value) : printItems items = items.map print := by
  induction items with
  | nil => rfl
  | cons item rest ih => rw [printItems, ih, List.map_cons]

theorem printSlots_eq (fields : List Slot) : printSlots fields = fields.map printSlot := by
  induction fields with
  | nil => rfl
  | cons slot rest ih => rw [printSlots, ih, List.map_cons]; rfl

theorem allSlots_readable (fields : List Slot) :
    allSlots .readable fields = fields.all (·.value.all .readable) := by
  induction fields with
  | nil => rfl
  | cons slot rest ih =>
    rw [allSlots, ih, List.all_cons]
    rfl

theorem reads_float (number : Binary64) :
    Reads number.text ((float number).all .readable) ((float number).lexemes ·) := by
  cases number with
  | finite negative rank =>
    intro afterComma rest stops
    exact lex_token (Token.first?_float rfl stops) afterComma
  | infinite negative =>
    cases negative with
    | false => exact reads_name (show isName "inf" = true by decide)
    | true =>
      intro afterComma rest _
      have text : (Binary64.text (.infinite true)).toList ++ rest =
          '-' :: 'i' :: 'n' :: 'f' :: rest := by
        simp [Binary64.text]
      rw [text, lex_first? '-' _ afterComma (by decide), Token.first?_minus_inf]
      rfl
  | notANumber => exact reads_name (show isName "NaN" = true by decide)

theorem reads_slot {slot : Slot} (name : isName slot.name = true)
    (value : Reads slot.value.print (slot.value.all .readable) (slot.value.lexemes ·)) :
    Reads (printSlot slot) (slot.value.all .readable) (lexemesOfSlot · slot) := by
  intro afterComma rest stops
  have text : (printSlot slot).toList ++ rest =
      slot.name.toList ++ ':' :: ' ' :: (slot.value.print.toList ++ rest) := by
    simp [printSlot]
  rw [text, reads_name name afterComma _ (by simp [Token.goesOn]; decide), lex_symbol rfl, lex_space,
    value false rest stops]
  simp [lexemesOfSlot]

theorem reads_print {value : Value} (names : value.all .names = true) :
    Reads value.print (value.all .readable) (value.lexemes ·) := by
  induction value using Value.inductionOn with
  | null => exact reads_name (show isName "null" = true by decide)
  | boolean truth =>
    cases truth
    · exact reads_name (show isName "false" = true by decide)
    · exact reads_name (show isName "true" = true by decide)
  | int number => exact reads_int number
  | float number => exact reads_float number
  | string content => exact reads_quoted content
  | enum name => exact reads_name names
  | «variable» name =>
    intro afterComma rest stops
    have text : (Value.variable name).print.toList ++ rest = '$' :: (name.toList ++ rest) := by
      simp [print]
    rw [text]
    exact lex_marked rfl names afterComma stops
  | list items ih =>
    rw [all, Bool.and_eq_true, allItems_iff] at names
    have inside := spells_series fun item member => ih item member (names.2 item member)
    have whole := reads_enclosed "[" "]" ⟨by simp; rfl, rfl⟩
      ⟨by simp; rfl, rfl⟩ rfl inside
    rw [← printItems_eq, ← allItems_eq, ← lexemesOfItems_eq] at whole
    exact whole
  | object fields ih =>
    rw [all, Bool.and_eq_true, allSlots_iff] at names
    have inside := spells_series fun slot member =>
      reads_slot (names.2 slot member).1 (ih slot member (names.2 slot member).2)
    have whole := reads_enclosed "\x7b" "\x7d" ⟨by simp; rfl, rfl⟩
      ⟨by simp; rfl, rfl⟩ rfl inside
    rw [← printSlots_eq, ← allSlots_readable, ← lexemesOfSlots_eq] at whole
    exact whole

end Value

def lexemesOfArguments (arguments : List Slot) : List Lexeme :=
  if arguments.isEmpty then []
  else ⟨.symbol .openParen, false⟩ ::
    (series Value.lexemesOfSlot false arguments ++ [⟨.symbol .closeParen, false⟩])

theorem spells_arguments {arguments : List Slot} (names : Value.allSlots .names arguments = true) :
    Spells (printArguments arguments) (Value.allSlots .readable arguments)
      (lexemesOfArguments arguments) := by
  cases arguments with
  | nil => exact spells_nothing
  | cons first others =>
    rw [Value.allSlots_iff] at names
    have inside := spells_series fun slot member =>
      Value.reads_slot (names slot member).1 (Value.reads_print (names slot member).2)
    have whole := reads_enclosed "(" ")" ⟨by simp; rfl, rfl⟩
      ⟨by simp; rfl, rfl⟩ rfl inside
    rw [← Value.printSlots_eq, ← Value.allSlots_readable] at whole
    exact whole.spells

namespace Directive

def lexemes (directive : Directive) : List Lexeme :=
  ⟨.symbol .atSign, false⟩ :: ⟨.name directive.name, false⟩ ::
    lexemesOfArguments directive.arguments

theorem printArguments_stops {arguments : List Slot} {rest : List Char}
    (stops : startsIn Token.goesOn rest = false) :
    startsIn Token.goesOn ((printArguments arguments).toList ++ rest) = false := by
  cases arguments with
  | nil => exact stops
  | cons first others => simp [printArguments, Token.goesOn]; decide

theorem spells_print {directive : Directive} (names : directive.all .names = true) :
    Spells directive.print (directive.all .readable) directive.lexemes := by
  intro rest stops
  rw [all, Bool.and_eq_true] at names
  have text : directive.print.toList ++ rest =
      '@' :: (directive.name.toList ++ ((printArguments directive.arguments).toList ++ rest)) := by
    simp [print]
  rw [text, lex_marked rfl names.1 false (printArguments_stops stops),
    spells_arguments names.2 rest stops, prepend?_prepend?]
  rfl

end Directive

def lexemesOfDirectives (directives : List Directive) : List Lexeme :=
  directives.flatMap Directive.lexemes

theorem spells_directives {directives : List Directive}
    (names : directives.all (Directive.all .names) = true) :
    Spells (printDirectives directives) (directives.all (Directive.all .readable))
      (lexemesOfDirectives directives) := by
  rw [List.all_eq_true] at names
  exact spells_joined separates_space fun directive member => Directive.spells_print (names _ member)

namespace Selection

def lexemesOfBraces (isEmpty : Bool) (inside : List Lexeme) : List Lexeme :=
  if isEmpty then []
  else ⟨.symbol .openBrace, false⟩ :: (inside ++ [⟨.symbol .closeBrace, false⟩])

mutual

def lexemes : Selection → List Lexeme
  | field ⟨aliasName, name, arguments, directives, children⟩ =>
    aliasName.elim [] (fun label => [⟨.name label, false⟩, ⟨.symbol .colon, false⟩]) ++
      (⟨.name name, false⟩ :: lexemesOfArguments arguments ++
        (lexemesOfDirectives directives ++ lexemesOfBraces children.isEmpty (lexemesOfAll children)))
  | spread node =>
    ⟨.symbol .ellipsis, false⟩ :: ⟨.name node.fragment, false⟩ :: lexemesOfDirectives node.directives
  | inline ⟨condition, directives, children⟩ =>
    ⟨.symbol .ellipsis, false⟩ ::
      (condition.elim [] (fun type => [⟨.name "on", false⟩, ⟨.name type, false⟩]) ++
        (lexemesOfDirectives directives ++ lexemesOfBraces children.isEmpty (lexemesOfAll children)))

def lexemesOfAll : List Selection → List Lexeme
  | [] => []
  | selection :: rest => lexemes selection ++ lexemesOfAll rest

end

def lexemesOfSet (selections : List Selection) : List Lexeme :=
  lexemesOfBraces selections.isEmpty (selections.flatMap lexemes)

theorem lexemesOfAll_eq (selections : List Selection) :
    lexemesOfAll selections = selections.flatMap lexemes := by
  induction selections with
  | nil => rfl
  | cons selection rest ih => rw [lexemesOfAll, ih, List.flatMap_cons]

theorem lexemes_field (node : FieldSelection) :
    (field node).lexemes =
      node.aliasName.elim [] (fun label => [⟨.name label, false⟩, ⟨.symbol .colon, false⟩]) ++
        (⟨.name node.name, false⟩ :: lexemesOfArguments node.arguments ++
          (lexemesOfDirectives node.directives ++ lexemesOfSet node.children)) := by
  rw [lexemesOfSet, ← lexemesOfAll_eq]
  rfl

theorem lexemes_inline (node : InlineFragment) :
    (inline node).lexemes = ⟨.symbol .ellipsis, false⟩ ::
      (node.condition.elim [] (fun type => [⟨.name "on", false⟩, ⟨.name type, false⟩]) ++
        (lexemesOfDirectives node.directives ++ lexemesOfSet node.children)) := by
  rw [lexemesOfSet, ← lexemesOfAll_eq]
  rfl

end Selection

theorem spells_spaced_nil : Spells (spaced []) true [] :=
  spells_nothing

/-- Parts that are empty leave no tokens behind, so leaving them out makes no difference. -/
theorem spells_spaced {part : String} {parts : List String} {readable others : Bool}
    {lexemes further : List Lexeme} (first : Spells part readable lexemes)
    (rest : Spells (spaced parts) others further) :
    Spells (spaced (part :: parts)) (readable && others) (lexemes ++ further) := by
  by_cases empty : part = ""
  · subst empty
    obtain ⟨rfl, rfl⟩ := first.empty
    exact rest
  have kept : (part :: parts).filter (· != "") = part :: parts.filter (· != "") := by
    rw [List.filter_cons, if_pos (by simpa using empty)]
  unfold spaced at rest ⊢
  rw [kept]
  generalize parts.filter (· != "") = nonempty at rest ⊢
  cases nonempty with
  | nil =>
    obtain ⟨rfl, rfl⟩ := rest.empty
    rw [Bool.and_true, List.append_nil]
    exact first
  | cons next after =>
    intro text stops
    rw [joined_cons, String.toList_append, String.toList_append, List.append_assoc,
      List.append_assoc, first _ (separates_space.stops _), separates_space.ignored,
      rest text stops, prepend?_prepend?]

theorem lex_indentation (depth : Nat) (rest : List Char) :
    lex false ((indentation depth).toList ++ rest) = lex false rest := by
  rw [indentation, String.toList_ofList, lex_spaces]

namespace Selection

variable {children : List Selection}

theorem lex_printLines
    (each : ∀ child ∈ children, ∀ depth, Spells (print depth child) (child.all .readable) child.lexemes)
    (depth : Nat) (rest : List Char) :
    lex false ((printLines depth children).toList ++ rest) =
      prepend? (children.all (all .readable)) (children.flatMap lexemes) (lex false rest) := by
  induction children with
  | nil =>
    rw [List.all_nil, List.flatMap_nil, prepend?_nil]
    rfl
  | cons child others ih =>
    have first := each child List.mem_cons_self depth
    have after := ih fun next member => each next (List.mem_cons_of_mem child member)
    have text : (printLines depth (child :: others)).toList ++ rest = (indentation depth).toList ++
        ((print depth child).toList ++ '\n' :: ((printLines depth others).toList ++ rest)) := by
      simp [printLines]
    rw [text, lex_indentation, first _ (by simp [Token.goesOn]; decide), lex_newline, after,
      prepend?_prepend?]
    rfl

theorem printLines_ne_empty (depth : Nat) (first : Selection) (others : List Selection) :
    printLines depth (first :: others) ≠ "" := by
  intro empty
  have length := congrArg String.length empty
  simp only [printLines, String.length_append] at length
  have line : "\n".length = 1 := rfl
  have none : "".length = 0 := rfl
  omega

theorem spells_braced
    (each : ∀ child ∈ children, ∀ depth, Spells (print depth child) (child.all .readable) child.lexemes)
    (depth : Nat) :
    Spells (braced depth (printLines (depth + 1) children)) (children.all (all .readable))
      (lexemesOfSet children) := by
  cases children with
  | nil => exact spells_nothing
  | cons first others =>
    intro rest _
    have text : (braced depth (printLines (depth + 1) (first :: others))).toList ++ rest =
        '\x7b' :: '\n' :: ((printLines (depth + 1) (first :: others)).toList ++
          ((indentation depth).toList ++ '\x7d' :: rest)) := by
      rw [braced, if_neg (printLines_ne_empty _ _ _)]
      simp
    rw [text, lex_symbol rfl, lex_newline, lex_printLines each, lex_indentation, lex_symbol rfl]
    simp [lexemesOfSet, lexemesOfBraces]

theorem spells_name {name : String} (valid : isName name = true) {arguments : List Slot}
    (names : Value.allSlots .names arguments = true) :
    Spells (name ++ printArguments arguments) (Value.allSlots .readable arguments)
      (⟨.name name, false⟩ :: lexemesOfArguments arguments) := by
  intro rest stops
  rw [String.toList_append, List.append_assoc,
    reads_name valid false _ (Directive.printArguments_stops stops),
    spells_arguments names rest stops, prepend?_prepend?]
  rfl

theorem spells_condition {condition : Option String} (names : condition.all isName = true) :
    Spells (condition.elim "" ("on " ++ ·)) true
      (condition.elim [] (fun type => [⟨.name "on", false⟩, ⟨.name type, false⟩])) := by
  cases condition with
  | none => exact spells_nothing
  | some type =>
    intro rest stops
    have text : ("on " ++ type).toList ++ rest = "on".toList ++ ' ' :: (type.toList ++ rest) := by
      simp
    rw [Option.elim_some, Option.elim_some, text,
      reads_name (by decide) false _ (by simp [Token.goesOn]; decide), lex_space,
      reads_name names false rest stops]
    simp

theorem spells_aliased {aliasName text : String} {readable : Bool} {lexemes : List Lexeme}
    (valid : isName aliasName = true) (spells : Spells text readable lexemes) :
    Spells (aliasName ++ ": " ++ text) readable
      (⟨.name aliasName, false⟩ :: ⟨.symbol .colon, false⟩ :: lexemes) := by
  intro rest stops
  have whole : (aliasName ++ ": " ++ text).toList ++ rest =
      aliasName.toList ++ ':' :: ' ' :: (text.toList ++ rest) := by
    simp
  rw [whole, reads_name valid false _ (by simp [Token.goesOn]; decide), lex_symbol rfl, lex_space,
    spells rest stops]
  simp

theorem spells_ellipsis : Spells "..." true [⟨.symbol .ellipsis, false⟩] := by
  intro rest _
  have whole : "...".toList ++ rest = '.' :: '.' :: '.' :: rest := by simp
  rw [whole, lex_ellipsis]

theorem spells_spread {fragment : String} (valid : isName fragment = true) :
    Spells ("..." ++ fragment) true [⟨.symbol .ellipsis, false⟩, ⟨.name fragment, false⟩] := by
  intro rest stops
  have whole : ("..." ++ fragment).toList ++ rest =
      '.' :: '.' :: '.' :: (fragment.toList ++ rest) := by
    simp
  rw [whole, lex_ellipsis, reads_name valid false rest stops]
  simp

/-- The text of a selection is read as its tokens, at whatever depth it is printed. -/
theorem spells_print {selection : Selection} (names : selection.all .names = true) (depth : Nat) :
    Spells (print depth selection) (selection.all .readable) selection.lexemes := by
  induction selection using Selection.inductionOn generalizing depth with
  | field node ih =>
    obtain ⟨aliasName, name, arguments, directives, children⟩ := node
    rw [all_field] at names ⊢
    simp only [Bool.and_eq_true, Check.names] at names
    obtain ⟨⟨⟨⟨label, name'⟩, arguments'⟩, directives'⟩, children'⟩ := names
    rw [List.all_eq_true] at children'
    have called := spells_name name' arguments'
    have behind := spells_spaced (spells_directives directives') (spells_spaced
      (spells_braced (fun child member => ih child member (children' child member)) depth)
      spells_spaced_nil)
    cases aliasName with
    | none => simpa [print, lexemes_field, Bool.and_assoc] using spells_spaced called behind
    | some aliasName =>
      have whole := spells_spaced (spells_aliased label called) behind
      simpa [print, lexemes_field, Bool.and_assoc, String.append_assoc] using whole
  | spread node =>
    rw [all_spread, Bool.and_eq_true] at names
    have whole := spells_spaced (spells_spread names.1)
      (spells_spaced (spells_directives names.2) spells_spaced_nil)
    simpa [print, lexemes, all_spread] using whole
  | inline node ih =>
    obtain ⟨condition, directives, children⟩ := node
    rw [all_inline] at names ⊢
    simp only [Bool.and_eq_true, Check.names] at names
    obtain ⟨⟨condition', directives'⟩, children'⟩ := names
    rw [List.all_eq_true] at children'
    have behind := spells_spaced (spells_directives directives') (spells_spaced
      (spells_braced (fun child member => ih child member (children' child member)) depth)
      spells_spaced_nil)
    have whole := spells_spaced spells_ellipsis (spells_spaced (spells_condition condition') behind)
    cases condition with
    | none => simpa [print, lexemes_inline] using whole
    | some type => simpa [print, lexemes_inline] using whole

theorem spells_printSet {selections : List Selection} (names : selections.all (all .names) = true) :
    Spells (printSet selections) (selections.all (all .readable)) (lexemesOfSet selections) := by
  rw [List.all_eq_true] at names
  exact spells_braced (fun selection member => spells_print (names selection member)) 0

end Selection

namespace TypeRef

def lexemes : TypeRef → List Lexeme
  | named name => [⟨.name name, false⟩]
  | list item =>
    ⟨.symbol .openBracket, false⟩ :: (item.lexemes ++ [⟨.symbol .closeBracket, false⟩])
  | nonNull type => type.lexemes ++ [⟨.symbol .bang, false⟩]

theorem spells_print {type : TypeRef} (name : isName type.innermost = true) :
    Spells type.print true type.lexemes := by
  induction type with
  | named name' => exact (reads_name name).spells
  | list item ih =>
    exact (reads_enclosed "[" "]" ⟨by simp; rfl, rfl⟩ ⟨by simp; rfl, rfl⟩
      rfl (ih name)).spells
  | nonNull type ih =>
    intro rest _
    have text : (nonNull type).print.toList ++ rest = type.print.toList ++ '!' :: rest := by
      simp [print]
    rw [text, ih name ('!' :: rest) rfl, lex_symbol rfl, prepend?_prepend?]
    rfl

end TypeRef

namespace VariableDefinition

def lexemes (afterComma : Bool) (declared : VariableDefinition) : List Lexeme :=
  ⟨.symbol .dollar, afterComma⟩ :: ⟨.name declared.name, false⟩ :: ⟨.symbol .colon, false⟩ ::
    (declared.type.lexemes ++
      declared.default?.elim [] fun value => ⟨.symbol .equals, false⟩ :: value.lexemes false)

theorem reads_print {declared : VariableDefinition} (names : declared.all .names = true) :
    Reads declared.print (declared.all .readable) (declared.lexemes ·) := by
  obtain ⟨name, type, default?⟩ := declared
  simp only [all, Bool.and_eq_true, Check.names] at names
  obtain ⟨⟨name', type'⟩, default'⟩ := names
  intro afterComma rest stops
  have declares : ∀ after, startsIn Token.goesOn after = false →
      lex afterComma ('$' :: (name.toList ++ ':' :: ' ' :: (type.print.toList ++ after))) =
        prepend? true (⟨.symbol .dollar, afterComma⟩ :: ⟨.name name, false⟩ ::
          ⟨.symbol .colon, false⟩ :: type.lexemes) (lex false after) := by
    intro after stops
    rw [lex_marked rfl name' afterComma (by simp [Token.goesOn]; decide), lex_symbol rfl, lex_space,
      TypeRef.spells_print type' after stops]
    simp
  cases default? with
  | none =>
    have text : (print ⟨name, type, none⟩).toList ++ rest =
        '$' :: (name.toList ++ ':' :: ' ' :: (type.print.toList ++ rest)) := by
      simp [print]
    rw [text, declares rest stops]
    simp [lexemes, all]
  | some value =>
    have text : (print ⟨name, type, some value⟩).toList ++ rest =
        '$' :: (name.toList ++ ':' :: ' ' :: (type.print.toList ++
          ' ' :: '=' :: ' ' :: (value.print.toList ++ rest))) := by
      simp [print]
    rw [text, declares _ (by simp [Token.goesOn]; decide), lex_space, lex_symbol rfl, lex_space,
      Value.reads_print default' false rest stops]
    simp [lexemes, all]

end VariableDefinition

namespace Operation

def lexemesOfDeclarations (declarations : List VariableDefinition) : List Lexeme :=
  if declarations.isEmpty then []
  else ⟨.symbol .openParen, false⟩ ::
    (series VariableDefinition.lexemes false declarations ++ [⟨.symbol .closeParen, false⟩])

def lexemes (operation : Operation) : List Lexeme :=
  if operation.isShorthand then Selection.lexemesOfSet operation.selections
  else ⟨.name operation.kind.keyword, false⟩ ::
    (operation.name.elim [] (fun name => [⟨.name name, false⟩]) ++
      (lexemesOfDeclarations operation.declarations ++
        (lexemesOfDirectives operation.directives ++ Selection.lexemesOfSet operation.selections)))

theorem spells_declarations {declarations : List VariableDefinition}
    (names : declarations.all (VariableDefinition.all .names) = true) :
    Spells (if declarations.isEmpty then ""
        else "(" ++ joined ", " (declarations.map VariableDefinition.print) ++ ")")
      (declarations.all (VariableDefinition.all .readable)) (lexemesOfDeclarations declarations) := by
  cases declarations with
  | nil => exact spells_nothing
  | cons first others =>
    rw [List.all_eq_true] at names
    have inside := spells_series fun declared member =>
      VariableDefinition.reads_print (names declared member)
    exact (reads_enclosed "(" ")" ⟨by simp; rfl, rfl⟩ ⟨by simp; rfl, rfl⟩
      rfl inside).spells

theorem isName_keyword (kind : OperationKind) : isName kind.keyword = true := by
  cases kind <;> decide

theorem spells_name {op : Operation} (name' : op.name.all isName = true)
    (declarations' : op.declarations.all (VariableDefinition.all .names) = true) :
    Spells (op.name.getD "" ++ (if op.declarations.isEmpty then ""
        else "(" ++ joined ", " (op.declarations.map VariableDefinition.print) ++ ")"))
      (op.declarations.all (VariableDefinition.all .readable))
      (op.name.elim [] (fun name => [⟨.name name, false⟩]) ++
        lexemesOfDeclarations op.declarations) := by
  have declared := spells_declarations declarations'
  cases name : op.name with
  | none => simpa using declared
  | some given =>
    intro rest stops
    rw [name] at name'
    rw [String.toList_append, List.append_assoc, Option.getD_some, reads_name name' false,
      declared rest stops, prepend?_prepend?]
    · rfl
    · cases op.declarations with
      | nil => exact stops
      | cons first others => simp [Token.goesOn]; decide

theorem spells_print {op : Operation} (names : (Definition.operation op).all .names = true) :
    Spells op.print ((Definition.operation op).all .readable) op.lexemes := by
  simp only [Definition.all, Bool.and_eq_true, Check.names] at names
  obtain ⟨⟨⟨name', declarations'⟩, directives'⟩, selections'⟩ := names
  have set := Selection.spells_printSet selections'
  by_cases shorthand : op.isShorthand = true
  · have bare : op.declarations = [] ∧ op.directives = [] := by
      simp only [isShorthand, Bool.and_eq_true, List.isEmpty_iff] at shorthand
      exact ⟨shorthand.1.2, shorthand.2⟩
    simpa [print, lexemes, shorthand, Definition.all, bare] using set
  · have keyword := (reads_name (isName_keyword op.kind)).spells
    have whole := spells_spaced keyword (spells_spaced (spells_name name' declarations')
      (spells_spaced (spells_directives directives') (spells_spaced set spells_spaced_nil)))
    simpa [print, lexemes, shorthand, Definition.all, Bool.and_assoc] using whole

end Operation

namespace Fragment

def lexemes (fragment : Fragment) : List Lexeme :=
  ⟨.name "fragment", false⟩ :: ⟨.name fragment.name, false⟩ :: ⟨.name "on", false⟩ ::
    ⟨.name fragment.condition, false⟩ ::
      (lexemesOfDirectives fragment.directives ++ Selection.lexemesOfSet fragment.selections)

theorem spells_head {frag : Fragment} (name' : isName frag.name = true)
    (condition' : isName frag.condition = true) :
    Spells ("fragment " ++ frag.name ++ " on " ++ frag.condition) true
      [⟨.name "fragment", false⟩, ⟨.name frag.name, false⟩, ⟨.name "on", false⟩,
        ⟨.name frag.condition, false⟩] := by
  intro rest stops
  have whole : ("fragment " ++ frag.name ++ " on " ++ frag.condition).toList ++ rest =
      "fragment".toList ++ ' ' :: (frag.name.toList ++ ' ' :: ("on".toList ++
        ' ' :: (frag.condition.toList ++ rest))) := by
    simp
  rw [whole, reads_name (by decide) false _ (by simp [Token.goesOn]; decide), lex_space,
    reads_name name' false _ (by simp [Token.goesOn]; decide), lex_space,
    reads_name (by decide) false _ (by simp [Token.goesOn]; decide), lex_space,
    reads_name condition' false rest stops]
  simp

theorem spells_print {frag : Fragment} (names : (Definition.fragment frag).all .names = true) :
    Spells frag.print ((Definition.fragment frag).all .readable) frag.lexemes := by
  simp only [Definition.all, Bool.and_eq_true, Check.names] at names
  obtain ⟨⟨⟨name', condition'⟩, directives'⟩, selections'⟩ := names
  have whole := spells_spaced (spells_head name' condition') (spells_spaced
    (spells_directives directives')
    (spells_spaced (Selection.spells_printSet selections') spells_spaced_nil))
  simpa [print, lexemes, Definition.all] using whole

end Fragment

namespace Definition

def lexemes : Definition → List Lexeme
  | operation op => op.lexemes
  | fragment frag => frag.lexemes

theorem spells_print {definition : Definition} (names : definition.all .names = true) :
    Spells definition.print (definition.all .readable) definition.lexemes := by
  cases definition with
  | operation op => exact op.spells_print names
  | fragment frag => exact frag.spells_print names

end Definition

namespace Document

def lexemes (doc : Document) : List Lexeme :=
  doc.definitions.flatMap Definition.lexemes

/-- A printed document is read as its tokens, unless there is a float in it whose text starts no
token. -/
theorem lex_print {doc : Document} (names : doc.all .names = true) :
    ofText? doc.print = if doc.all .readable then some doc.lexemes else none := by
  rw [all, List.all_eq_true] at names
  have whole := spells_joined separates_newlines fun definition member =>
    Definition.spells_print (names definition member)
  have read := whole ['\n'] (by decide)
  rw [ofText?_eq_lex, print, String.toList_append]
  have line : "\n".toList = ['\n'] := rfl
  rw [line, read, lex_newline, lex_nil, prepend?, all, lexemes]
  simp

end Document

end QueryEditor
