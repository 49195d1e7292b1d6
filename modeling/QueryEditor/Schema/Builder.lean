import QueryEditor.Schema.Basic
import QueryEditor.Schema.Introspection
import QueryEditor.Schema.Source.Definition
import QueryEditor.Schema.Source.Parser

namespace QueryEditor

/-- What the sources loaded so far define. Once a source names root types, the roots that it leaves
out do not exist. -/
structure SchemaBuilder where
  types : Catalog TypeDefinition := .ofList (BuiltinScalar.all.map .builtin)
  roots : RootNames := {}
  rootsDeclared : Bool := false
  schemaPlace : Option SourcePosition := none
  extensions : List (Option String × WrittenType) := []

namespace SchemaBuilder

def declareRoots (builder : SchemaBuilder) (roots : RootNames) : SchemaBuilder :=
  { builder with roots, rootsDeclared := true }

def addType (builder : SchemaBuilder) (type : TypeDefinition) : Except SchemaError SchemaBuilder :=
  match builder.types.find? type.name with
  | some existing =>
    .error (.duplicateTypeDefinition type.name existing.location type.location)
  | none => .ok { builder with types := builder.types.insert type }

def add (file? : Option String) (builder : SchemaBuilder) :
    SchemaDefinition → Except SchemaError SchemaBuilder
  | .schema position roots =>
    let place : SourcePosition := ⟨file?, position⟩
    match builder.schemaPlace with
    | some first => .error (.duplicateSchemaDefinition first place)
    | none => .ok { builder.declareRoots roots with schemaPlace := some place }
  | .type type => builder.addType (type.definition file?)
  | .extension addition =>
    .ok { builder with extensions := builder.extensions ++ [(file?, addition)] }
  | .directive => .ok builder

def loadText (builder : SchemaBuilder) (file? : Option String) (text : String) :
    Except SchemaError SchemaBuilder :=
  match SchemaSource.definitions? text with
  | none => .error (.malformedSource file?)
  | some definitions => definitions.foldlM (add file?) builder

def loadIntrospection (builder : SchemaBuilder) (text : String) :
    Except SchemaError SchemaBuilder := do
  let entry ← Introspection.decode text
  let roots : RootNames := ⟨entry.queryType, entry.mutationType, entry.subscriptionType⟩
  (entry.types.filter Introspection.isOwn).foldlM
    (fun builder entry => do builder.addType (← Introspection.type entry))
    (builder.declareRoots roots)

def applyExtension (types : Catalog TypeDefinition) :
    Option String × WrittenType → Except SchemaError (Catalog TypeDefinition)
  | (file?, addition) =>
    let place := addition.position.located file?
    match types.find? addition.name with
    | none => .error (.extensionOfUndefinedType addition.name place)
    | some type =>
      match type.extended? file? addition with
      | none => .error (.extensionOfAnotherKind addition.name place)
      | some extended => .ok (types.insert extended)

def queryRoot (types : Catalog TypeDefinition) (roots : RootNames) : Except SchemaError String :=
  let name := roots.query.getD OperationKind.query.capitalized
  match types.find? name with
  | some (.object _) => .ok name
  | some _ => .error (.rootNotAnObject .query name)
  | none => .error .noQueryType

/-- A root that need not exist. With no roots declared, an object type of the conventional name is
the root. -/
def optionalRoot (types : Catalog TypeDefinition) (declared : Bool) (kind : OperationKind)
    (explicit : Option String) : Except SchemaError (Option String) :=
  match explicit with
  | some name =>
    match types.find? name with
    | some (.object _) => .ok (some name)
    | some _ => .error (.rootNotAnObject kind name)
    | none => .error (.undefinedRoot kind name)
  | none =>
    if declared then .ok none
    else
      match types.find? kind.capitalized with
      | some (.object _) => .ok (some kind.capitalized)
      | _ => .ok none

def build (builder : SchemaBuilder) : Except SchemaError Schema := do
  let types ← builder.extensions.foldlM applyExtension builder.types
  let queryName ← queryRoot types builder.roots
  let mutationName ←
    optionalRoot types builder.rootsDeclared .mutation builder.roots.mutation
  let subscriptionName ←
    optionalRoot types builder.rootsDeclared .subscription builder.roots.subscription
  return { types, queryName, mutationName, subscriptionName }

end SchemaBuilder

end QueryEditor
