import QueryEditor.Edit.Resolution

namespace QueryEditor

namespace Operation

def defaultOf (operation : Operation) (name : String) : Value :=
  ((operation.declaration? name).bind (·.default?)).getD .null

end Operation

namespace Document

def operationAt (doc : Document) (id : DefinitionId) : Edited Operation :=
  match doc.definition? id with
  | some (.operation op) => .ok op
  | some (.fragment _) => .error (.notAnOperation id)
  | none => .error (.unknownDefinition id)

def updateDeclarations (doc : Document) (id : DefinitionId)
    (change : Operation → List VariableDefinition) : Edited Document := do
  let op ← doc.operationAt id
  return ⟨doc.definitions.set id (.operation { op with declarations := change op })⟩

def isUsedOnlyIn (operation : Operation) (value : Value) (name : String) : Bool :=
  value.mentioned.contains name && operation.uses name ≤ value.mentioned.count name

/-- Puts a new variable in the place of a value. The value, with the variables in it replaced by
their defaults, becomes the variable's default, unless it is null; a variable with a default may be
null itself. Variables that nothing else uses are no longer declared. -/
def promote (doc : Document) (id : DefinitionId) (path : ArgumentPath) (schema : Schema) :
    Edited Document := do
  let operation ← doc.operationAt id
  let (_, target) ← schema.inputAt doc id path
  let current ← doc.valueAt id path
  let name := Naming.unique path.leafName (operation.declarations.map (·.name))
  let inlined := current.substitute operation.defaultOf
  let type := target.type.toTypeRef
  let declaration : VariableDefinition :=
    if inlined.isNull then { name, type }
    else { name, type := type.nullable, default? := some inlined }
  let replaced ← doc.updateSlots id path (Slots.replace path.leafName (.variable name))
  replaced.updateDeclarations id fun op =>
    op.declarations.filter (!isUsedOnlyIn operation current ·.name) ++ [declaration]

/-- Puts the default of a variable, or null, in the place of a mention of it. A variable that is not
mentioned any more is no longer declared. -/
def inline (doc : Document) (id : DefinitionId) (path : ArgumentPath) : Edited Document := do
  let operation ← doc.operationAt id
  match (← doc.valueAt id path).variableName? with
  | none => .error (.notAVariable path)
  | some name =>
    match operation.declaration? name with
    | none => .error (.undefinedVariable name)
    | some declaration =>
      let value := declaration.default?.getD .null
      let replaced ← doc.updateSlots id path (Slots.replace path.leafName value)
      replaced.updateDeclarations id fun op =>
        if op.uses name = 0 then op.declarations.filter (·.name != name) else op.declarations

end Document

end QueryEditor
