import QueryEditor.Document.TypeSystem
import QueryEditor.Schema.Source.Lexer
import QueryEditor.Schema.Source.Syntax

namespace QueryEditor

namespace SchemaSource

abbrev Reader (α : Type) := List PlacedToken → Option (α × List PlacedToken)

variable {α : Type}

def symbol (mark : Symbol) : Reader Unit
  | ⟨.symbol other, _⟩ :: rest => if other = mark then some ((), rest) else none
  | _ => none

def name : Reader String
  | ⟨.name text, _⟩ :: rest => some (text, rest)
  | _ => none

def keyword (word : String) : Reader Unit
  | ⟨.name text, _⟩ :: rest => if text = word then some ((), rest) else none
  | _ => none

def startsWith (mark : Symbol) : List PlacedToken → Bool
  | ⟨.symbol other, _⟩ :: _ => other == mark
  | _ => false

def startsWithName : List PlacedToken → Bool
  | ⟨.name _, _⟩ :: _ => true
  | _ => false

def startsWithWord (word : String) : List PlacedToken → Bool
  | ⟨.name text, _⟩ :: _ => text == word
  | _ => false

def here : List PlacedToken → Position
  | [] => ⟨1, 1⟩
  | first :: _ => first.position

def whenever (present : List PlacedToken → Bool) (absent : α) (read : Reader α) : Reader α :=
  fun tokens => if present tokens then read tokens else some (absent, tokens)

def between (opening closing : Symbol) (read : Reader α) : Reader (List α) := fun tokens => do
  let (_, rest) ← symbol opening tokens
  let (items, rest) ← Reader.many (!startsWith closing ·) read rest
  let (_, rest) ← symbol closing rest
  some (items, rest)

def body (opening closing : Symbol) (read : Reader α) : Reader (List α) :=
  whenever (startsWith opening) [] fun tokens => do
    let (items, rest) ← between opening closing read tokens
    if items.isEmpty then none else some (items, rest)

def separated (mark : Symbol) (read : Reader α) : Reader (List α) := fun tokens => do
  let (_, rest) ← whenever (startsWith mark) () (symbol mark) tokens
  let (first, rest) ← read rest
  let next : Reader α := fun tokens => do
    let (_, rest) ← symbol mark tokens
    read rest
  let (others, rest) ← Reader.many (startsWith mark) next rest
  some (first :: others, rest)

def description : Reader (Option String)
  | ⟨.string content, _⟩ :: rest => some (some content, rest)
  | tokens => some (none, tokens)

def under (value : Reader α) : Reader (Named α) := fun tokens => do
  let (name, rest) ← name tokens
  let (_, rest) ← symbol .colon rest
  let (value, rest) ← value rest
  some (⟨name, value⟩, rest)

/-- An object value lists its fields by name. Of fields with one name the last one counts. -/
def objectValue (fields : List Slot) : Value :=
  .object ((Catalog.ofList fields).entries.mergeSort fun a b => a.name ≤ b.name)

def valueOver (constant : Bool) (inner : Reader Value) : Reader Value
  | ⟨.name name, _⟩ :: rest => some (Grammar.namedValue name, rest)
  | ⟨.int number, _⟩ :: rest => some (.int number, rest)
  | ⟨.float number, _⟩ :: rest => some (.float number, rest)
  | ⟨.string content, _⟩ :: rest => some (.string content, rest)
  | ⟨.symbol .dollar, _⟩ :: rest => do
    let (name, rest) ← name rest
    if constant then none else some (.variable name, rest)
  | ⟨.symbol .openBracket, position⟩ :: rest => do
    let (items, rest) ←
      between .openBracket .closeBracket inner (⟨.symbol .openBracket, position⟩ :: rest)
    some (.list items, rest)
  | ⟨.symbol .openBrace, position⟩ :: rest => do
    let (fields, rest) ←
      between .openBrace .closeBrace (under inner) (⟨.symbol .openBrace, position⟩ :: rest)
    some (objectValue fields, rest)
  | _ => none

def value (constant : Bool) : Nat → Reader Value
  | 0 => valueOver constant fun _ => none
  | levels + 1 => valueOver constant (value constant levels)

def typeRefOver (inner : Reader TypeRef) : Reader TypeRef := fun tokens => do
  let (type, rest) ←
    if startsWith .openBracket tokens then do
      let (_, rest) ← symbol .openBracket tokens
      let (item, rest) ← inner rest
      let (_, rest) ← symbol .closeBracket rest
      some (TypeRef.list item, rest)
    else do
      let (name, rest) ← name tokens
      some (TypeRef.named name, rest)
  if startsWith .bang rest then do
    let (_, rest) ← symbol .bang rest
    some (.nonNull type, rest)
  else some (type, rest)

def typeRef : Nat → Reader TypeRef
  | 0 => typeRefOver fun _ => none
  | levels + 1 => typeRefOver (typeRef levels)

def fullTypeRef : Reader TypeRef :=
  typeRef PlacedToken.maxOpen

def directive : Reader WrittenDirective := fun tokens => do
  let (_, rest) ← symbol .atSign tokens
  let (name, rest) ← name rest
  let (arguments, rest) ←
    body .openParen .closeParen (under (value false PlacedToken.maxOpen)) rest
  some ({ name, arguments }, rest)

def directives : Reader (List WrittenDirective) :=
  Reader.many (startsWith .atSign) directive

def defaultValue : Reader (Option Value) :=
  whenever (startsWith .equals) none fun tokens => do
    let (_, rest) ← symbol .equals tokens
    let (value, rest) ← value true PlacedToken.maxOpen rest
    some (some value, rest)

def inputValue : Reader WrittenInput := fun tokens => do
  let (description, rest) ← description tokens
  let (name, rest) ← name rest
  let (_, rest) ← symbol .colon rest
  let (type, rest) ← fullTypeRef rest
  let (default?, rest) ← defaultValue rest
  let (directives, rest) ← directives rest
  some ({ position := here tokens, description, name, type, default?, directives }, rest)

def field : Reader WrittenField := fun tokens => do
  let (description, rest) ← description tokens
  let (name, rest) ← name rest
  let (arguments, rest) ← body .openParen .closeParen inputValue rest
  let (_, rest) ← symbol .colon rest
  let (type, rest) ← fullTypeRef rest
  let (directives, rest) ← directives rest
  some ({ position := here tokens, description, name, arguments, type, directives }, rest)

def enumValue : Reader WrittenEnumValue := fun tokens => do
  let (description, rest) ← description tokens
  let (name, rest) ← name rest
  let (directives, rest) ← directives rest
  some ({ description, name, directives }, rest)

def interfaces : Reader (List String) :=
  whenever (startsWithWord "implements") [] fun tokens => do
    let (_, rest) ← keyword "implements" tokens
    separated .ampersand name rest

def members : Reader (List String) :=
  whenever (startsWith .equals) [] fun tokens => do
    let (_, rest) ← symbol .equals tokens
    separated .bar name rest

def braces (read : Reader α) : Reader (List α) :=
  body .openBrace .closeBrace read

def type (description : Option String) : Reader WrittenType := fun tokens => do
  let (word, rest) ← name tokens
  let (name, rest) ← name rest
  let written := fun (directives : List WrittenDirective) (body : WrittenBody) =>
    { position := here tokens, description, name, directives, body : WrittenType }
  match word with
  | "scalar" => do
    let (directives, rest) ← directives rest
    some (written directives .scalar, rest)
  | "type" => do
    let (interfaces, rest) ← interfaces rest
    let (directives, rest) ← directives rest
    let (fields, rest) ← braces field rest
    some (written directives (.object interfaces fields), rest)
  | "interface" => do
    let (interfaces, rest) ← interfaces rest
    let (directives, rest) ← directives rest
    let (fields, rest) ← braces field rest
    some (written directives (.interface interfaces fields), rest)
  | "union" => do
    let (directives, rest) ← directives rest
    let (members, rest) ← members rest
    some (written directives (.union members), rest)
  | "enum" => do
    let (directives, rest) ← directives rest
    let (values, rest) ← braces enumValue rest
    some (written directives (.enum values), rest)
  | "input" => do
    let (directives, rest) ← directives rest
    let (fields, rest) ← braces inputValue rest
    some (written directives (.input fields), rest)
  | _ => none

def addsSomething (addition : WrittenType) : Bool :=
  let own := match addition.body with
    | .scalar => false
    | .object interfaces fields => !fields.isEmpty || !interfaces.isEmpty
    | .interface _ fields => !fields.isEmpty
    | .union members => !members.isEmpty
    | .enum values => !values.isEmpty
    | .input fields => !fields.isEmpty
  own || !addition.directives.isEmpty

def addRoot (roots : RootNames) (root : Named String) : Option RootNames :=
  match root.name with
  | "query" => if roots.query.isSome then none else some { roots with query := root.value }
  | "mutation" =>
    if roots.mutation.isSome then none else some { roots with mutation := root.value }
  | "subscription" =>
    if roots.subscription.isSome then none else some { roots with subscription := root.value }
  | _ => none

def schema : Reader SchemaDefinition := fun tokens => do
  let (_, rest) ← keyword "schema" tokens
  let (_, rest) ← directives rest
  let (named, rest) ← between .openBrace .closeBrace (under name) rest
  let roots ← named.foldlM addRoot {}
  some (.schema (here tokens) roots, rest)

def directiveLocation : Reader Unit := fun tokens => do
  let (word, rest) ← name tokens
  if Grammar.TypeSystem.directiveLocations.contains word then some ((), rest) else none

def startsWithLocation (tokens : List PlacedToken) : Bool :=
  startsWith .bar tokens || startsWithName tokens

def directiveDefinition : Reader SchemaDefinition := fun tokens => do
  let (_, rest) ← keyword "directive" tokens
  let (_, rest) ← symbol .atSign rest
  let (_, rest) ← name rest
  let (_, rest) ← body .openParen .closeParen inputValue rest
  let (_, rest) ← whenever (startsWithWord "repeatable") () (keyword "repeatable") rest
  let (_, rest) ← keyword "on" rest
  let (_, rest) ← whenever startsWithLocation [] (separated .bar directiveLocation) rest
  some (.directive, rest)

/-- A definition. An extension must add something, and neither it nor a `schema` definition has a
description. -/
def definition : Reader SchemaDefinition := fun tokens =>
  if startsWithWord "schema" tokens then schema tokens
  else if startsWithWord "extend" tokens then do
    let (_, rest) ← keyword "extend" tokens
    let (addition, rest) ← type none rest
    if addsSomething addition then some (.extension addition, rest) else none
  else do
    let (description, rest) ← description tokens
    if startsWithWord "directive" rest then directiveDefinition rest
    else do
      let (type, rest) ← type description rest
      some (.type type, rest)

def definitions? (text : String) : Option (List SchemaDefinition) := do
  let tokens ← PlacedToken.ofText? text
  let (definitions, _) ← Reader.many (!·.isEmpty) definition tokens
  if definitions.isEmpty then none else some definitions

end SchemaSource

end QueryEditor
