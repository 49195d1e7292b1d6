import QueryEditor.Schema.Types
import QueryEditor.Document.Basic

namespace QueryEditor

structure Schema where
  types : Catalog TypeDefinition
  queryName : String
  mutationName : Option String := none
  subscriptionName : Option String := none
  deriving DecidableEq

namespace Schema

def type? (schema : Schema) (name : String) : Option TypeDefinition :=
  schema.types.find? name

def object? (schema : Schema) (name : String) : Option FieldsType :=
  (schema.type? name).bind (·.object?)

def innermost? (schema : Schema) (declared : DeclaredType) : Option TypeDefinition :=
  schema.type? declared.typeName

def rootName? (schema : Schema) : OperationKind → Option String
  | .query => some schema.queryName
  | .mutation => schema.mutationName
  | .subscription => schema.subscriptionName

def root? (schema : Schema) (kind : OperationKind) : Option FieldsType :=
  (schema.rootName? kind).bind schema.object?

/-- The fields that can be selected on a type, if selections can be made on it at all. On a union
that is none. -/
def fields? : TypeDefinition → Option (Catalog Field)
  | .union _ => some .empty
  | type => type.fields?

def field? (schema : Schema) (type field : String) : Option Field :=
  ((schema.type? type).bind (·.fields?)).bind (·.find? field)

/-- The object types that a value of the type can have: an object type itself, the implementers of
an interface in schema order, the members of a union that are defined. -/
def possibleTypes (schema : Schema) : TypeDefinition → List FieldsType
  | .object type => (schema.object? type.name).toList
  | .interface type =>
    (schema.types.entries.filterMap (·.object?)).filter (·.interfaces.contains type.name)
  | .union type => type.members.filterMap schema.object?
  | _ => []

end Schema

end QueryEditor
