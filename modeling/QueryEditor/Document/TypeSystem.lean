import QueryEditor.Document.Grammar
import QueryEditor.Document.Basic

namespace QueryEditor.Grammar.TypeSystem

open Reader

abbrev Recogniser := List Lexeme → Option (List Lexeme)

def skip {α : Type} (read : Reader α) : Recogniser := fun tokens =>
  (read tokens).map (·.2)

def description : Recogniser
  | ⟨.string _, _⟩ :: rest => some rest
  | tokens => some tokens

def startsDescribed : List Lexeme → Bool
  | ⟨.string _, _⟩ :: _ => true
  | tokens => startsWithName tokens

/-- A list in which `mark` stands between neighbours, and may stand in front. -/
def separated (mark : Symbol) (item : Recogniser) : Recogniser := fun tokens => do
  let (_, rest) ← whenever (startsWith mark) () (symbol mark) tokens
  let rest ← item rest
  let more : Reader Unit := fun tokens => do
    let (_, rest) ← symbol mark tokens
    some ((), ← item rest)
  skip (many (startsWith mark) more) rest

def items (opening closing : Symbol) (item : Recogniser) : Reader (List Unit) := fun tokens => do
  let (_, rest) ← symbol opening tokens
  let each : Reader Unit := fun tokens => do
    if startsDescribed tokens then some ((), ← item tokens) else none
  closedBy closing each rest

def enclosed (opening closing : Symbol) (item : Recogniser) : Recogniser := fun tokens => do
  let (items, rest) ← items opening closing item tokens
  if items.isEmpty then none else some rest

def optionally (present : List Lexeme → Bool) (item : Recogniser) (tokens : List Lexeme) :
    Option (Bool × List Lexeme) :=
  if present tokens then (item tokens).map (true, ·) else some (false, tokens)

def constDirectives : Recogniser :=
  skip (directives true maxDepth)

def inputValue : Recogniser := fun tokens => do
  let rest ← description tokens
  let (_, rest) ← name rest
  let (_, rest) ← symbol .colon rest
  let (_, rest) ← typeRef maxDepth rest
  let (_, rest) ← defaultValue rest
  constDirectives rest

def argumentsDefinition : Recogniser := fun tokens => do
  let (_, rest) ←
    optionally (startsWith .openParen) (enclosed .openParen .closeParen inputValue) tokens
  some rest

def fieldDefinition : Recogniser := fun tokens => do
  let rest ← description tokens
  let (_, rest) ← name rest
  let rest ← argumentsDefinition rest
  let (_, rest) ← symbol .colon rest
  let (_, rest) ← typeRef maxDepth rest
  constDirectives rest

def enumValue : Recogniser := fun tokens => do
  let rest ← description tokens
  let (name, rest) ← name rest
  if name = "true" || name = "false" || name = "null" then none else constDirectives rest

def rootOperation : Recogniser := fun tokens => do
  let (word, rest) ← name tokens
  let _ ← OperationKind.ofKeyword? word
  let (_, rest) ← symbol .colon rest
  skip (whenever startsWithName "" name) rest

def implementsClause : Recogniser := fun tokens => do
  let (_, rest) ← keyword "implements" tokens
  separated .ampersand (skip name) rest

def unionMembers : Recogniser := fun tokens => do
  let (_, rest) ← symbol .equals tokens
  separated .bar (skip name) rest

def directiveLocations : List String :=
  ["QUERY", "MUTATION", "SUBSCRIPTION", "FIELD", "FRAGMENT_DEFINITION", "FRAGMENT_SPREAD",
    "INLINE_FRAGMENT", "VARIABLE_DEFINITION", "SCHEMA", "SCALAR", "OBJECT", "FIELD_DEFINITION",
    "ARGUMENT_DEFINITION", "INTERFACE", "UNION", "ENUM", "ENUM_VALUE", "INPUT_OBJECT",
    "INPUT_FIELD_DEFINITION"]

def directiveLocation : Recogniser := fun tokens => do
  let (word, rest) ← name tokens
  if directiveLocations.contains word then some rest else none

def directiveDefinition : Recogniser := fun tokens => do
  let (_, rest) ← symbol .atSign tokens
  let (_, rest) ← name rest
  let rest ← argumentsDefinition rest
  let (_, rest) ← whenever (startsWithWord "repeatable") () (keyword "repeatable") rest
  let (_, rest) ← keyword "on" rest
  separated .bar directiveLocation rest

def typeParts (word : String) (tokens : List Lexeme) : Option (Bool × List Lexeme) := do
  let (implementing, rest) ←
    if word = "type" || word = "interface" then
      optionally (startsWithWord "implements") implementsClause tokens
    else some (false, tokens)
  let (annotated, rest) ← optionally (startsWith .atSign) constDirectives rest
  let (filled, rest) ←
    match word with
    | "type" | "interface" =>
      optionally (startsWith .openBrace) (enclosed .openBrace .closeBrace fieldDefinition) rest
    | "input" =>
      optionally (startsWith .openBrace) (enclosed .openBrace .closeBrace inputValue) rest
    | "enum" =>
      optionally (startsWith .openBrace) (enclosed .openBrace .closeBrace enumValue) rest
    | "union" => optionally (startsWith .equals) unionMembers rest
    | _ => some (false, rest)
  some (implementing || annotated || filled, rest)

def typeKeywords : List String :=
  ["scalar", "type", "interface", "union", "enum", "input"]

def undescribed : Recogniser := fun tokens => do
  let (word, rest) ← name tokens
  if word = "schema" then do
    let rest ← constDirectives rest
    let (_, rest) ←
      optionally (startsWith .openBrace) (enclosed .openBrace .closeBrace rootOperation) rest
    some rest
  else if word = "directive" then directiveDefinition rest
  else if typeKeywords.contains word then do
    let (_, rest) ← name rest
    let (_, rest) ← typeParts word rest
    some rest
  else none

/-- An extension from behind its keyword. It must add something: braces with nothing in them are
let through at a `schema` alone, and add nothing. -/
def extension : Recogniser := fun tokens => do
  let (word, rest) ← name tokens
  if word = "schema" then do
    let (annotated, rest) ← optionally (startsWith .atSign) constDirectives rest
    let (roots, rest) ←
      whenever (startsWith .openBrace) [] (items .openBrace .closeBrace rootOperation) rest
    if annotated || !roots.isEmpty then some rest else none
  else if typeKeywords.contains word then do
    let (_, rest) ← name rest
    let (extended, rest) ← typeParts word rest
    if extended then some rest else none
  else none

/-- A definition of the type system, with or without a description, or an extension, which has
none. No comma stands between a description or `extend` and the keyword after it. -/
def definition : Recogniser
  | ⟨.string _, _⟩ :: rest => if followsDirectly rest then undescribed rest else none
  | ⟨.name "extend", _⟩ :: rest => if followsDirectly rest then extension rest else none
  | tokens => undescribed tokens

end QueryEditor.Grammar.TypeSystem
