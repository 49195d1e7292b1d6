import QueryEditor.Edit.Error
import QueryEditor.Naming

namespace QueryEditor

structure ScrollTarget where
  keyword : String
  name : Option String
  deriving DecidableEq

namespace ScrollTarget

def ofDefinition (definition : Definition) : ScrollTarget :=
  ⟨definition.keyword, definition.name?⟩

def print (target : ScrollTarget) : String :=
  target.keyword ++ "-" ++ target.name.getD "unknown"

end ScrollTarget

namespace Definition

/-- No name leaves an operation unnamed; a fragment keeps the name that it has then. -/
def renamed (name : String) : Definition → Definition
  | operation op => .operation { op with name := if name = "" then none else some name }
  | fragment frag => if name = "" then .fragment frag else .fragment { frag with name }

def copied : Definition → Definition
  | operation op => .operation { op with name := some (op.name.getD "" ++ "Copy") }
  | fragment frag => .fragment { frag with name := frag.name ++ "Copy" }

end Definition

namespace Document

def rename (doc : Document) (id : DefinitionId) (name : String) : Edited Document :=
  match doc.definition? id with
  | some definition => .ok ⟨doc.definitions.set id (definition.renamed name)⟩
  | none => .error (.unknownDefinition id)

def copy (doc : Document) (id : DefinitionId) : Edited (Document × ScrollTarget) :=
  match doc.definition? id with
  | some definition => .ok (doc.append definition.copied, .ofDefinition definition.copied)
  | none => .error (.unknownDefinition id)

def remove (doc : Document) (id : DefinitionId) : Edited Document :=
  match doc.definition? id with
  | some _ => .ok ⟨doc.definitions.eraseIdx id⟩
  | none => .error (.unknownDefinition id)

def operationName (kind : OperationKind) (count : Nat) : String :=
  "My" ++ kind.capitalized ++ (if count = 0 then "" else toString (count + 1))

def freshOperationName (doc : Document) (kind : OperationKind) : String :=
  let taken := doc.definitions.filterMap (·.name?)
  let siblings := (doc.operations.filter (·.2.kind == kind)).length
  Naming.firstUnused (operationName kind) taken taken.length siblings

/-- Adds an operation with nothing selected. It takes the place of the standard document. -/
def create (doc : Document) (kind : OperationKind) : Document × ScrollTarget :=
  let named := fun name =>
    Definition.operation { kind, name := some name, selections := [.leaf typenameField] }
  if doc.isStandard then
    let definition := named (operationName kind 0)
    (⟨[definition]⟩, .ofDefinition definition)
  else
    let definition := named (doc.freshOperationName kind)
    (doc.append definition, .ofDefinition definition)

end Document

end QueryEditor
