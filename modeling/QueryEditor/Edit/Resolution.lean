import QueryEditor.Edit.Addressed

namespace QueryEditor

namespace Schema

def typeNamed (schema : Schema) (name : String) : Edited TypeDefinition :=
  match schema.type? name with
  | some type => .ok type
  | none => .error (.unknownType name)

def typeInside (schema : Schema) (declared : DeclaredType) : Edited TypeDefinition :=
  schema.typeNamed declared.typeName

def rootTypeOf (schema : Schema) (doc : Document) (id : DefinitionId) : Edited TypeDefinition :=
  match doc.definition? id with
  | none => .error (.unknownDefinition id)
  | some (.fragment frag) => schema.typeNamed frag.condition
  | some (.operation op) =>
    match schema.root? op.kind with
    | some root => schema.typeNamed root.name
    | none => .error (.unknownType op.kind.capitalized)

def fieldOn (type : TypeDefinition) (name : String) : Edited Field :=
  match (fields? type).bind (·.find? name) with
  | some field => .ok field
  | none => .error (.unknownField type.name name)

def descend (schema : Schema) (type : TypeDefinition) (name : String) : Edited TypeDefinition := do
  let field ← fieldOn type name
  schema.typeInside field.type

def typeAt (schema : Schema) (doc : Document) (id : DefinitionId) (path : FieldPath) :
    Edited TypeDefinition := do
  let root ← schema.rootTypeOf doc id
  path.segments.foldlM schema.descend root

def fieldAt (schema : Schema) (doc : Document) (id : DefinitionId) (path : FieldPath) :
    Edited Field := do
  let (parent, name) ← Document.splitPath path
  let type ← schema.typeAt doc id parent
  fieldOn type name

def inputFieldOf (schema : Schema) (target : InputTarget) (name : String) : Edited InputTarget := do
  match ← schema.typeInside target.type with
  | .input type =>
    match type.fields.find? name with
    | some field => .ok (.inputField field)
    | none => .error (.unknownArgument type.name name)
  | other => .error (.notAnInputObject (target.name ++ ": " ++ other.name))

def inputAt (schema : Schema) (doc : Document) (id : DefinitionId) (path : ArgumentPath) :
    Edited (Field × InputTarget) := do
  let field ← schema.fieldAt doc id path.field
  match field.arguments.find? path.argument with
  | none => .error (.unknownArgument field.qualifiedName path.argument)
  | some argument =>
    let target ← path.inputFields.foldlM schema.inputFieldOf (.argument argument)
    return (field, target)

end Schema

end QueryEditor
