import QueryEditor.Document.Parser
import QueryEditor.JsonValue
import QueryEditor.Schema.Error
import QueryEditor.Schema.Types

namespace QueryEditor.Introspection

inductive Kind where
  | enum
  | inputObject
  | interface
  | list
  | nonNull
  | object
  | scalar
  | union
  deriving DecidableEq

def Kind.ofName? : String → Option Kind
  | "ENUM" => some .enum
  | "INPUT_OBJECT" => some .inputObject
  | "INTERFACE" => some .interface
  | "LIST" => some .list
  | "NON_NULL" => some .nonNull
  | "OBJECT" => some .object
  | "SCALAR" => some .scalar
  | "UNION" => some .union
  | _ => none

inductive TypeReference where
  | mk (kind : Kind) (name : Option String) (ofType : Option TypeReference)

namespace TypeReference

def kind : TypeReference → Kind
  | mk kind _ _ => kind

def name : TypeReference → Option String
  | mk _ name _ => name

/-- The type that a reference stands for. A list or mark needs something inside it, a mark
no second one directly inside, and anything else a name. -/
def declared? (nullable : Bool) : TypeReference → Option DeclaredType
  | mk .list _ (some item) => (item.declared? true).map (.list · nullable)
  | mk .list _ none => none
  | mk .nonNull _ (some type) =>
    if !nullable || type.kind = .nonNull then none else type.declared? false
  | mk .nonNull _ none => none
  | mk _ name _ => name.map (.named · nullable)

end TypeReference

structure InputEntry where
  name : String
  description : Option String
  type : TypeReference
  defaultText : Option String
  isDeprecated : Bool
  deprecationReason : Option String

structure FieldEntry where
  name : String
  description : Option String
  arguments : List InputEntry
  type : TypeReference
  isDeprecated : Bool
  deprecationReason : Option String

structure EnumEntry where
  name : String
  description : Option String
  isDeprecated : Bool
  deprecationReason : Option String

structure TypeEntry where
  kind : Kind
  name : String
  description : Option String
  enumValues : List EnumEntry
  fields : List FieldEntry
  inputFields : List InputEntry
  interfaces : List TypeReference
  possibleTypes : List TypeReference

structure SchemaEntry where
  mutationType : Option String
  queryType : Option String
  subscriptionType : Option String
  types : List TypeEntry

section Decoding

variable {α : Type}

/-- The members of a record, which is an object or an array of all its members in order. In an object
members of other names do not matter. -/
def members? (names : List String) : JsonValue → Option (List (Option JsonValue))
  | .object members => some (names.map fun name => JsonValue.member? name (.object members))
  | .array items => if items.length = names.length then some (items.map some) else none
  | _ => none

def required (decode : JsonValue → Option α) (member : Option JsonValue) : Option α :=
  member.bind decode

def optional (decode : JsonValue → Option α) : Option JsonValue → Option (Option α)
  | none => some none
  | some .null => some none
  | some value => (decode value).map some

def defaulted (absent : α) (decode : JsonValue → Option α) : Option JsonValue → Option α
  | none => some absent
  | some value => decode value

def string : JsonValue → Option String
  | .string content => some content
  | _ => none

def boolean : JsonValue → Option Bool
  | .boolean truth => some truth
  | _ => none

def list (decode : JsonValue → Option α) : JsonValue → Option (List α)
  | .array items => items.mapM decode
  | _ => none

def optionalList (decode : JsonValue → Option α) (member : Option JsonValue) : Option (List α) :=
  (optional (list decode) member).map (·.getD [])

def kind : JsonValue → Option Kind
  | .string name => Kind.ofName? name
  | .object [⟨name, .null⟩] => Kind.ofName? name
  | _ => none

def namedReference (value : JsonValue) : Option String := do
  match ← members? ["name"] value with
  | [name] => required string name
  | _ => none

/-- No value nests deeper than a text does, so the steps allowed are never used up. -/
def typeReferenceWithin : Nat → JsonValue → Option TypeReference
  | 0, _ => none
  | steps + 1, value => do
    match ← members? ["kind", "name", "ofType"] value with
    | [kindMember, name, ofType] =>
      some (.mk (← required kind kindMember) (← optional string name)
        (← optional (typeReferenceWithin steps) ofType))
    | _ => none

def typeReference : JsonValue → Option TypeReference :=
  typeReferenceWithin (JsonValue.maxDepth + 1)

def inputEntry (value : JsonValue) : Option InputEntry := do
  match ← members? ["name", "description", "type", "defaultValue", "isDeprecated",
      "deprecationReason"] value with
  | [name, description, type, defaultText, isDeprecated, reason] =>
    some ⟨← required string name, ← optional string description, ← required typeReference type,
      ← optional string defaultText, ← defaulted false boolean isDeprecated,
      ← optional string reason⟩
  | _ => none

def fieldEntry (value : JsonValue) : Option FieldEntry := do
  match ← members? ["name", "description", "args", "type", "isDeprecated",
      "deprecationReason"] value with
  | [name, description, arguments, type, isDeprecated, reason] =>
    some ⟨← required string name, ← optional string description,
      ← defaulted [] (list inputEntry) arguments, ← required typeReference type,
      ← defaulted false boolean isDeprecated, ← optional string reason⟩
  | _ => none

def enumEntry (value : JsonValue) : Option EnumEntry := do
  match ← members? ["name", "description", "isDeprecated", "deprecationReason"] value with
  | [name, description, isDeprecated, reason] =>
    some ⟨← required string name, ← optional string description,
      ← defaulted false boolean isDeprecated, ← optional string reason⟩
  | _ => none

def typeEntry (value : JsonValue) : Option TypeEntry := do
  match ← members? ["kind", "name", "description", "enumValues", "fields", "inputFields",
      "interfaces", "possibleTypes"] value with
  | [kindMember, name, description, enumValues, fields, inputFields, interfaces, possibleTypes] =>
    some ⟨← required kind kindMember, ← required string name, ← optional string description,
      ← optionalList enumEntry enumValues, ← optionalList fieldEntry fields,
      ← optionalList inputEntry inputFields, ← optionalList typeReference interfaces,
      ← optionalList typeReference possibleTypes⟩
  | _ => none

def schemaEntry (value : JsonValue) : Option SchemaEntry := do
  match ← members? ["mutationType", "queryType", "subscriptionType", "types"] value with
  | [mutationType, queryType, subscriptionType, types] =>
    some ⟨← optional namedReference mutationType, ← optional namedReference queryType,
      ← optional namedReference subscriptionType, ← required (list typeEntry) types⟩
  | _ => none

end Decoding

def decode (text : String) : Except SchemaError SchemaEntry :=
  match JsonValue.parse? text with
  | none => .error .undecodableIntrospection
  | some root =>
    let wrapped := (root.member? "data").bind (·.member? "__schema")
    match wrapped.or (root.member? "__schema") with
    | none => .error .missingIntrospection
    | some schema =>
      match schemaEntry schema with
      | none => .error .undecodableIntrospection
      | some entry => .ok entry

def deprecationMarks (isDeprecated : Bool) (reason : Option String) : List AppliedDirective :=
  if isDeprecated then
    [{ name := "deprecated",
       arguments := .ofList (reason.map (Named.mk "reason" <| Value.string ·)).toList }]
  else []

def declaredType (owner : String) (reference : TypeReference) : Except SchemaError DeclaredType :=
  match reference.declared? true with
  | some type => .ok type
  | none => .error (.malformedTypeReference owner)

def defaultValue? (entry : InputEntry) : Option Value :=
  entry.defaultText.bind fun text => (Value.parse text).toOption

def inputValue (owner : String) (entry : InputEntry) : Except SchemaError InputValue := do
  let type ← declaredType owner entry.type
  return { name := entry.name, location := .introspection, default? := defaultValue? entry,
           description := entry.description, type }

def field (parent : String) (entry : FieldEntry) : Except SchemaError Field := do
  let owner := parent ++ "." ++ entry.name
  let arguments ← entry.arguments.mapM fun argument =>
    inputValue (owner ++ "(" ++ argument.name ++ ":)") argument
  let type ← declaredType owner entry.type
  return { name := entry.name, location := .introspection, description := entry.description,
           directives := deprecationMarks entry.isDeprecated entry.deprecationReason,
           arguments := .ofList arguments, parent, type }

def inputField (parent : String) (entry : InputEntry) : Except SchemaError InputField := do
  let input ← inputValue (parent ++ "." ++ entry.name) entry
  return { toInputValue := input, parent,
           directives := deprecationMarks entry.isDeprecated entry.deprecationReason }

def enumValue (entry : EnumEntry) : EnumValue :=
  { name := entry.name, description := entry.description,
    directives := deprecationMarks entry.isDeprecated entry.deprecationReason }

def type (entry : TypeEntry) : Except SchemaError TypeDefinition := do
  let head : TypeHead :=
    { name := entry.name, location := .introspection, description := entry.description }
  let names := (·.filterMap TypeReference.name)
  match entry.kind with
  | .enum => return .enum { toTypeHead := head, values := .ofList (entry.enumValues.map enumValue) }
  | .inputObject =>
    let fields ← entry.inputFields.mapM (inputField entry.name)
    return .input { toTypeHead := head, fields := .ofList fields }
  | .interface =>
    let fields ← entry.fields.mapM (field entry.name)
    return .interface
      { toTypeHead := head, fields := .ofList fields, interfaces := names entry.interfaces }
  | .object =>
    let fields ← entry.fields.mapM (field entry.name)
    return .object
      { toTypeHead := head, fields := .ofList fields, interfaces := names entry.interfaces }
  | .scalar => return .scalar head
  | .union => return .union { toTypeHead := head, members := names entry.possibleTypes }
  | .list => .error (.malformedTypeReference entry.name)
  | .nonNull => .error (.malformedTypeReference entry.name)

/-- Types that every schema has, or that serve introspection itself, are not taken from a result. -/
def isOwn (entry : TypeEntry) : Bool :=
  !("__".toList.isPrefixOf entry.name.toList) &&
    !(BuiltinScalar.all.map BuiltinScalar.name).contains entry.name

end QueryEditor.Introspection
