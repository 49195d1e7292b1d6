import QueryEditor.Document.Basic
import QueryEditor.Document.TypeSystem
import QueryEditor.Token.Lexer
import QueryEditor.Text.Blank

namespace QueryEditor

open Reader

/-- Why a text is no document. Where it is malformed, and how, is not told. -/
inductive DocumentError where
  | emptyDocument
  | notAValue (text : String)
  | malformed
  | typeSystemDefinition
  deriving DecidableEq

def DocumentError.message : DocumentError → String
  | emptyDocument => "The query document is empty"
  | notAValue text => "`" ++ text ++ "` is not a GraphQL value literal"
  | malformed => "Error parsing query document"
  | typeSystemDefinition => "Query documents may only define operations and fragments"

namespace Grammar

def fragmentName : Reader String := fun tokens => do
  let (name, rest) ← name tokens
  if name = "on" then none else some (name, rest)

def typeCondition : Reader String := fun tokens => do
  let (_, rest) ← keyword "on" tokens
  name rest

/-- A selection; `selectionSet` reads the set that it may have beneath it. No comma stands behind
the name that a field is given, nor behind an ellipsis. -/
def selectionOver (levels : Nat) (selectionSet : Reader (List Selection)) : Reader Selection
  | ⟨.symbol .ellipsis, _⟩ :: rest =>
    if !followsDirectly rest then none
    else if startsWithName rest && !startsWithWord "on" rest then do
      let (fragment, rest) ← name rest
      let (directives, rest) ← directives false levels rest
      some (.spread { fragment, directives }, rest)
    else do
      let (condition, rest) ←
        whenever startsWithName none (fun tokens => do
          let (type, rest) ← typeCondition tokens
          some (some type, rest)) rest
      let (directives, rest) ← directives false levels rest
      let (children, rest) ← selectionSet rest
      some (.inline { condition, directives, children }, rest)
  | ⟨.name aliasName, _⟩ :: ⟨.symbol .colon, false⟩ :: rest => do
    let (name, rest) ← name rest
    field (some aliasName) name rest
  | ⟨.name name, _⟩ :: rest => field none name rest
  | _ => none
where
  field (aliasName : Option String) (name : String) : Reader Selection := fun tokens => do
    let (arguments, rest) ← arguments false levels tokens
    let (directives, rest) ← directives false levels rest
    let (children, rest) ← whenever (startsWith .openBrace) [] selectionSet rest
    some (.field { aliasName, name, arguments, directives, children }, rest)

def selectionSet : Nat → Reader (List Selection)
  | 0, _ => none
  | levels + 1, tokens => do
    let (_, rest) ← symbol .openBrace tokens
    someClosedBy .closeBrace (selectionOver levels (selectionSet levels)) rest

def variableDefinition : Reader VariableDefinition := fun tokens => do
  let (_, rest) ← symbol .dollar tokens
  let (name, rest) ← name rest
  let (_, rest) ← symbol .colon rest
  let (type, rest) ← typeRef maxDepth rest
  let (default?, rest) ← defaultValue rest
  let (_, rest) ← directives true maxDepth rest
  some ({ name, type, default? }, rest)

def variableDefinitions : Reader (List VariableDefinition) :=
  whenever (startsWith .openParen) [] fun tokens => do
    let (_, rest) ← symbol .openParen tokens
    someClosedBy .closeParen variableDefinition rest

def operationKind : Reader OperationKind := fun tokens => do
  let (word, rest) ← name tokens
  some (← OperationKind.ofKeyword? word, rest)

def operation : Reader Operation := fun tokens =>
  if startsWith .openBrace tokens then do
    let (selections, rest) ← selectionSet maxDepth tokens
    some ({ kind := .query, selections }, rest)
  else do
    let (kind, rest) ← operationKind tokens
    let (name, rest) ←
      whenever startsWithName none (fun tokens => do
        let (name, rest) ← name tokens
        some (some name, rest)) rest
    let (declarations, rest) ← variableDefinitions rest
    let (directives, rest) ← directives false maxDepth rest
    let (selections, rest) ← selectionSet maxDepth rest
    some ({ kind, name, declarations, directives, selections }, rest)

def fragment : Reader Fragment := fun tokens => do
  let (name, rest) ← fragmentName tokens
  let (condition, rest) ← typeCondition rest
  let (directives, rest) ← directives false maxDepth rest
  let (selections, rest) ← selectionSet maxDepth rest
  some ({ name, condition, directives, selections }, rest)

/-- What follows the keyword of a fragment. A description takes the keyword's place, so that the
word `fragment` behind it is the fragment's name. -/
def behindFragmentKeyword? : List Lexeme → Option (List Lexeme)
  | ⟨.name "fragment", _⟩ :: rest => some rest
  | ⟨.string _, _⟩ :: rest =>
    if followsDirectly rest && startsWithWord "fragment" rest then some rest else none
  | _ => none

def definition : Reader (Option Definition) := fun tokens =>
  if startsWith .openBrace tokens || startsWithWord "query" tokens ||
      startsWithWord "mutation" tokens || startsWithWord "subscription" tokens then do
    let (operation, rest) ← operation tokens
    some (some (.operation operation), rest)
  else
    match behindFragmentKeyword? tokens with
    | some behind => do
      let (fragment, rest) ← fragment behind
      some (some (.fragment fragment), rest)
    | none => do
      let rest ← TypeSystem.definition tokens
      some (none, rest)

def definitions (tokens : List Lexeme) : Option (List (Option Definition)) := do
  let (definitions, _) ← many (!·.isEmpty) definition tokens
  if definitions.isEmpty then none else some definitions

end Grammar

def Document.parse (text : String) : Except DocumentError Document :=
  if Text.allBlank text then .error .emptyDocument
  else
    match Lexeme.ofText? text >>= Grammar.definitions with
    | none => .error .malformed
    | some definitions =>
      match definitions.mapM id with
      | none => .error .typeSystemDefinition
      | some definitions => .ok ⟨definitions⟩

def Document.firstArgument? (doc : Document) : Option Value := do
  let operation ← (← doc.definitions.head?).operation?
  let field ← (← operation.selections.head?).field?
  return (← field.arguments.head?).value

/-- Reads a value by writing it as an argument of a field, in a document that holds nothing else. -/
def Value.parse (text : String) : Except DocumentError Value :=
  if Text.allBlank text then .error .emptyDocument
  else do
    let doc ← Document.parse ("\x7b f(v: " ++ text ++ ") \x7d")
    match doc.firstArgument? with
    | some value => .ok value
    | none => .error (.notAValue text)

end QueryEditor
