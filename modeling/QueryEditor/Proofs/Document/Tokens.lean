import QueryEditor.Proofs.Document.Lexemes

namespace QueryEditor

open Lexeme

/-- What a token is printed as. A float beyond all finite ones is printed as a word. -/
def Token.printed : Token → Token
  | .float number => if number.isFinite then .float number else .name number.text
  | token => token

namespace Value

mutual

def tokens : Value → List Token
  | .null => [.name "null"]
  | .boolean truth => [.name (if truth then "true" else "false")]
  | .int number => [.int number]
  | .float number => [.float number]
  | .string content => [.string content]
  | .enum name => [.name name]
  | .variable name => [.symbol .dollar, .name name]
  | .list items => .symbol .openBracket :: tokensOfItems items ++ [.symbol .closeBracket]
  | .object fields => .symbol .openBrace :: tokensOfSlots fields ++ [.symbol .closeBrace]

def tokensOfItems : List Value → List Token
  | [] => []
  | item :: rest => tokens item ++ tokensOfItems rest

def tokensOfSlots : List Slot → List Token
  | [] => []
  | ⟨name, value⟩ :: rest => .name name :: .symbol .colon :: tokens value ++ tokensOfSlots rest

end

def tokensOfSlot (slot : Slot) : List Token :=
  .name slot.name :: .symbol .colon :: slot.value.tokens

theorem tokensOfItems_eq (items : List Value) : tokensOfItems items = items.flatMap tokens := by
  induction items with
  | nil => rfl
  | cons item rest ih => rw [tokensOfItems, ih, List.flatMap_cons]

theorem tokensOfSlots_eq (fields : List Slot) : tokensOfSlots fields = fields.flatMap tokensOfSlot := by
  induction fields with
  | nil => rfl
  | cons slot rest ih => rw [tokensOfSlots, ih, List.flatMap_cons]; rfl

end Value

def tokensOfArguments (arguments : List Slot) : List Token :=
  if arguments.isEmpty then []
  else .symbol .openParen :: arguments.flatMap Value.tokensOfSlot ++ [.symbol .closeParen]

def Directive.tokens (directive : Directive) : List Token :=
  .symbol .atSign :: .name directive.name :: tokensOfArguments directive.arguments

namespace Selection

def tokensOfBraces (isEmpty : Bool) (inside : List Token) : List Token :=
  if isEmpty then [] else .symbol .openBrace :: inside ++ [.symbol .closeBrace]

mutual

def tokens : Selection → List Token
  | field ⟨aliasName, name, arguments, directives, children⟩ =>
    aliasName.elim [] (fun label => [.name label, .symbol .colon]) ++
      (.name name :: tokensOfArguments arguments ++
        (directives.flatMap Directive.tokens ++ tokensOfBraces children.isEmpty (tokensOfAll children)))
  | spread node =>
    .symbol .ellipsis :: .name node.fragment :: node.directives.flatMap Directive.tokens
  | inline ⟨condition, directives, children⟩ =>
    .symbol .ellipsis :: (condition.elim [] (fun type => [.name "on", .name type]) ++
      (directives.flatMap Directive.tokens ++ tokensOfBraces children.isEmpty (tokensOfAll children)))

def tokensOfAll : List Selection → List Token
  | [] => []
  | selection :: rest => tokens selection ++ tokensOfAll rest

end

theorem tokensOfAll_eq (selections : List Selection) :
    tokensOfAll selections = selections.flatMap tokens := by
  induction selections with
  | nil => rfl
  | cons selection rest ih => rw [tokensOfAll, ih, List.flatMap_cons]

def tokensOfSet (selections : List Selection) : List Token :=
  tokensOfBraces selections.isEmpty (selections.flatMap tokens)

theorem tokens_field (node : FieldSelection) :
    (field node).tokens =
      node.aliasName.elim [] (fun label => [.name label, .symbol .colon]) ++
        (.name node.name :: tokensOfArguments node.arguments ++
          (node.directives.flatMap Directive.tokens ++ tokensOfSet node.children)) := by
  rw [tokensOfSet, ← tokensOfAll_eq]
  rfl

theorem tokens_inline (node : InlineFragment) :
    (inline node).tokens = .symbol .ellipsis ::
      (node.condition.elim [] (fun type => [.name "on", .name type]) ++
        (node.directives.flatMap Directive.tokens ++ tokensOfSet node.children)) := by
  rw [tokensOfSet, ← tokensOfAll_eq]
  rfl

end Selection

def TypeRef.tokens : TypeRef → List Token
  | named name => [.name name]
  | list item => .symbol .openBracket :: item.tokens ++ [.symbol .closeBracket]
  | nonNull type => type.tokens ++ [.symbol .bang]

def VariableDefinition.tokens (d : VariableDefinition) : List Token :=
  .symbol .dollar :: .name d.name :: .symbol .colon :: d.type.tokens ++
    d.default?.elim [] fun value => .symbol .equals :: value.tokens

namespace Operation

def tokensOfDeclarations (declarations : List VariableDefinition) : List Token :=
  if declarations.isEmpty then []
  else .symbol .openParen :: declarations.flatMap VariableDefinition.tokens ++ [.symbol .closeParen]

def tokens (op : Operation) : List Token :=
  (if op.isShorthand then [] else [.name op.kind.keyword]) ++
    op.name.elim [] (fun name => [.name name]) ++ tokensOfDeclarations op.declarations ++
    op.directives.flatMap Directive.tokens ++ Selection.tokensOfSet op.selections

end Operation

def Fragment.tokens (frag : Fragment) : List Token :=
  .name "fragment" :: .name frag.name :: .name "on" :: .name frag.condition ::
    frag.directives.flatMap Directive.tokens ++ Selection.tokensOfSet frag.selections

def Definition.tokens : Definition → List Token
  | operation op => op.tokens
  | fragment frag => frag.tokens

def Document.tokens (doc : Document) : List Token :=
  doc.definitions.flatMap Definition.tokens

theorem Lexeme.series_tokens {α : Type} {lexemes : Bool → α → List Lexeme} {tokens : α → List Token}
    {items : List α}
    (each : ∀ a ∈ items, ∀ afterComma, (lexemes afterComma a).map (·.token) = (tokens a).map Token.printed)
    (afterComma : Bool) :
    (series lexemes afterComma items).map (·.token) = (items.flatMap tokens).map Token.printed := by
  induction items generalizing afterComma with
  | nil => rfl
  | cons a others ih =>
    rw [series, List.map_append, each a List.mem_cons_self,
      ih fun b member => each b (List.mem_cons_of_mem a member), List.flatMap_cons, List.map_append]

theorem Lexeme.flatMap_tokens {α : Type} {lexemes : α → List Lexeme} {tokens : α → List Token}
    {items : List α} (each : ∀ a ∈ items, (lexemes a).map (·.token) = (tokens a).map Token.printed) :
    (items.flatMap lexemes).map (·.token) = (items.flatMap tokens).map Token.printed := by
  induction items with
  | nil => rfl
  | cons a others ih =>
    rw [List.flatMap_cons, List.map_append, each a List.mem_cons_self,
      ih fun b member => each b (List.mem_cons_of_mem a member), List.flatMap_cons, List.map_append]

theorem Value.lexemesOfSlot_tokens {slot : Slot}
    (value : ∀ afterComma, (slot.value.lexemes afterComma).map (·.token) =
      slot.value.tokens.map Token.printed) (afterComma : Bool) :
    (lexemesOfSlot afterComma slot).map (·.token) = (tokensOfSlot slot).map Token.printed := by
  simp [lexemesOfSlot, tokensOfSlot, Token.printed, value false]

theorem Value.lexemes_tokens (v : Value) (afterComma : Bool) :
    (v.lexemes afterComma).map (·.token) = v.tokens.map Token.printed := by
  induction v using Value.inductionOn generalizing afterComma with
  | list items ih =>
    have inside := series_tokens ih false
    simp [lexemes, tokens, lexemesOfItems_eq, tokensOfItems_eq, inside, Token.printed]
  | object fields ih =>
    have inside := series_tokens (fun slot member => lexemesOfSlot_tokens (ih slot member)) false
    simp [lexemes, tokens, lexemesOfSlots_eq, tokensOfSlots_eq, inside, Token.printed]
  | _ => simp [lexemes, tokens, Token.printed]

theorem lexemesOfArguments_tokens (arguments : List Slot) :
    (lexemesOfArguments arguments).map (·.token) = (tokensOfArguments arguments).map Token.printed := by
  have inside := series_tokens
    (fun (slot : Slot) (_ : slot ∈ arguments) => Value.lexemesOfSlot_tokens slot.value.lexemes_tokens) false
  unfold lexemesOfArguments tokensOfArguments
  split
  · rfl
  · simp [inside, Token.printed]

theorem lexemesOfDirectives_tokens (directives : List Directive) :
    (lexemesOfDirectives directives).map (·.token) =
      (directives.flatMap Directive.tokens).map Token.printed :=
  flatMap_tokens fun d _ => by
    simp [Directive.lexemes, Directive.tokens, lexemesOfArguments_tokens, Token.printed]

namespace Selection

theorem lexemesOfSet_tokens {selections : List Selection}
    (each : ∀ s ∈ selections, s.lexemes.map (·.token) = s.tokens.map Token.printed) :
    (lexemesOfSet selections).map (·.token) = (tokensOfSet selections).map Token.printed := by
  have inside := flatMap_tokens each
  unfold lexemesOfSet lexemesOfBraces tokensOfSet tokensOfBraces
  split
  · rfl
  · simp [inside, Token.printed]

theorem lexemes_tokens (s : Selection) : s.lexemes.map (·.token) = s.tokens.map Token.printed := by
  induction s using Selection.inductionOn with
  | field node ih =>
    rw [lexemes_field, tokens_field]
    cases node.aliasName <;> simp [lexemesOfArguments_tokens, lexemesOfDirectives_tokens,
      lexemesOfSet_tokens ih, Token.printed]
  | spread node => simp [lexemes, tokens, lexemesOfDirectives_tokens, Token.printed]
  | inline node ih =>
    rw [lexemes_inline, tokens_inline]
    cases node.condition <;>
      simp [lexemesOfDirectives_tokens, lexemesOfSet_tokens ih, Token.printed]

end Selection

theorem TypeRef.lexemes_tokens (type : TypeRef) :
    type.lexemes.map (·.token) = type.tokens.map Token.printed := by
  induction type with
  | named name => rfl
  | list item ih => simp [lexemes, tokens, ih, Token.printed]
  | nonNull type ih => simp [lexemes, tokens, ih, Token.printed]

theorem VariableDefinition.lexemes_tokens (d : VariableDefinition) (afterComma : Bool) :
    (d.lexemes afterComma).map (·.token) = d.tokens.map Token.printed := by
  unfold lexemes tokens
  cases d.default? <;> simp [TypeRef.lexemes_tokens, Value.lexemes_tokens, Token.printed]

theorem Definition.lexemes_tokens (d : Definition) :
    d.lexemes.map (·.token) = d.tokens.map Token.printed := by
  have set : ∀ selections, (Selection.lexemesOfSet selections).map (·.token) =
      (Selection.tokensOfSet selections).map Token.printed :=
    fun selections => Selection.lexemesOfSet_tokens fun s _ => s.lexemes_tokens
  cases d with
  | operation op =>
    have declared : (Operation.lexemesOfDeclarations op.declarations).map (·.token) =
        (Operation.tokensOfDeclarations op.declarations).map Token.printed := by
      have inside := series_tokens
        (fun d (_ : d ∈ op.declarations) => VariableDefinition.lexemes_tokens d) false
      unfold Operation.lexemesOfDeclarations Operation.tokensOfDeclarations
      split
      · rfl
      · simp [inside, Token.printed]
    unfold lexemes tokens Operation.lexemes Operation.tokens
    dsimp only
    by_cases shorthand : op.isShorthand = true
    · have bare := shorthand
      simp only [Operation.isShorthand, Bool.and_eq_true, List.isEmpty_iff, Option.isNone_iff_eq_none] at bare
      obtain ⟨⟨⟨-, name⟩, declarations⟩, directives⟩ := bare
      simp [shorthand, name, declarations, directives, Operation.tokensOfDeclarations, set]
    · cases op.name <;>
        simp [shorthand, declared, lexemesOfDirectives_tokens, set, Token.printed]
  | fragment frag =>
    simp [lexemes, tokens, Fragment.lexemes, Fragment.tokens, lexemesOfDirectives_tokens, set, Token.printed]

theorem Document.lexemes_tokens (doc : Document) :
    doc.lexemes.map (·.token) = doc.tokens.map Token.printed :=
  flatMap_tokens fun d _ => d.lexemes_tokens

end QueryEditor
