import QueryEditor.Edit.Selections
import QueryEditor.Edit.Slots

namespace QueryEditor

variable {α : Type}

namespace Selections

def updateAt (missing : EditError) (edit : List Selection → Edited (List Selection × α)) :
    (segments : List String) → List Selection → Edited (List Selection × α)
  | [], selections => edit selections
  | name :: inner, selections =>
    updateField missing name (fun node => do
      let (children, found) ← updateAt missing edit inner node.children
      return ({ node with children }, found)) selections

def field? (name : String) : List Selection → Option FieldSelection
  | [] => none
  | .field node :: rest => if node.name = name then some node else field? name rest
  | _ :: rest => field? name rest

def fieldAt? (selections : List Selection) : (segments : List String) → Option FieldSelection
  | [] => none
  | [name] => field? name selections
  | name :: inner => do
    let node ← field? name selections
    fieldAt? node.children inner

end Selections

namespace Definition

def updateSelections (edit : List Selection → Edited (List Selection × α)) :
    Definition → Edited (Definition × α)
  | .fragment frag => do
    let (selections, found) ← edit frag.selections
    return (.fragment { frag with selections }, found)
  | .operation op => do
    let (selections, found) ← edit op.selections
    return (.operation { op with selections := Selections.normalize selections }, found)

end Definition

namespace Document

def updateDefinition (doc : Document) (id : DefinitionId)
    (edit : Definition → Edited (Definition × α)) : Edited (Document × α) :=
  match doc.definition? id with
  | none => .error (.unknownDefinition id)
  | some definition => do
    let (definition, found) ← edit definition
    return (⟨doc.definitions.set id definition⟩, found)

def editSelections (doc : Document) (id : DefinitionId) (path : FieldPath)
    (edit : List Selection → Edited (List Selection × α)) : Edited (Document × α) :=
  doc.updateDefinition id
    (Definition.updateSelections (Selections.updateAt (.missingField path) edit path.segments))

def updateSelections (doc : Document) (id : DefinitionId) (path : FieldPath)
    (edit : List Selection → Edited (List Selection)) : Edited Document := do
  let (doc, _) ← doc.editSelections id path fun selections => do return (← edit selections, ())
  return doc

def splitPath (path : FieldPath) : Edited (FieldPath × String) :=
  match path.split? with
  | some split => .ok split
  | none => .error (.missingField path)

/-- Edits the list of slots that holds the leaf of a path, and passes on what the edit finds
out. -/
def editSlots (doc : Document) (id : DefinitionId) (path : ArgumentPath)
    (edit : List Slot → Edited (List Slot × α)) : Edited (Document × α) := do
  let (parent, name) ← splitPath path.field
  doc.editSelections id parent
    (Selections.updateField (.missingField path.field) name fun node => do
      let (arguments, found) ← Slots.updateWithin edit path.containers node.arguments
      return ({ node with arguments }, found))

def updateSlots (doc : Document) (id : DefinitionId) (path : ArgumentPath)
    (edit : List Slot → Edited (List Slot)) : Edited Document := do
  let (doc, _) ← doc.editSlots id path fun slots => do return (← edit slots, ())
  return doc

def valueAt (doc : Document) (id : DefinitionId) (path : ArgumentPath) : Edited Value :=
  match doc.definition? id with
  | none => .error (.unknownDefinition id)
  | some definition =>
    match Selections.fieldAt? definition.selections path.field.segments with
    | none => .error (.missingField path.field)
    | some node => Slots.valueAt node.arguments path.argument path.inputFields

end Document

end QueryEditor
