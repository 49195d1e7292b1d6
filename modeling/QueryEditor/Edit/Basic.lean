import QueryEditor.Edit.Definitions
import QueryEditor.Edit.Variables

namespace QueryEditor

inductive Edit where
  | toggleField (id : DefinitionId) (path : FieldPath)
  | selectAll (id : DefinitionId) (path : FieldPath)
  | selectDefaults (id : DefinitionId) (path : FieldPath)
  | setChildren (id : DefinitionId) (path : FieldPath) (children : List Selection)
  | toggleSpread (id : DefinitionId) (path : FieldPath) (fragment : String)
  | extract (id : DefinitionId) (path : FieldPath)
  | addArgument (id : DefinitionId) (path : ArgumentPath)
  | removeArgument (id : DefinitionId) (path : ArgumentPath)
  | setArgument (id : DefinitionId) (path : ArgumentPath) (input : SlotInput)
  | setInputFields (id : DefinitionId) (path : ArgumentPath) (fields : List Slot)
  | promote (id : DefinitionId) (path : ArgumentPath)
  | inline (id : DefinitionId) (path : ArgumentPath)
  | rename (id : DefinitionId) (name : String)
  | copy (id : DefinitionId)
  | remove (id : DefinitionId)
  | create (kind : OperationKind)
  deriving DecidableEq

structure Memory (κ α : Type) where
  entries : List (κ × α) := []
  deriving DecidableEq

namespace Memory

variable {κ α : Type} [DecidableEq κ]

def find? (memory : Memory κ α) (key : κ) : Option α :=
  (memory.entries.find? (·.1 = key)).map (·.2)

def forget (memory : Memory κ α) (key : κ) : Memory κ α :=
  ⟨memory.entries.filter (·.1 ≠ key)⟩

def remember (memory : Memory κ α) (key : κ) (a : α) : Memory κ α :=
  ⟨(key, a) :: (memory.forget key).entries⟩

def update (memory : Memory κ α) (key : κ) : Option α → Memory κ α
  | some a => memory.remember key a
  | none => memory.forget key

end Memory

structure Removed where
  fields : Memory (DefinitionId × FieldPath) FieldSelection := {}
  spreads : Memory (DefinitionId × FieldPath × String) FragmentSpread := {}
  arguments : Memory (DefinitionId × ArgumentPath) Slot := {}
  deriving DecidableEq

/-- What an edit makes: a document, what is remembered from then on, and perhaps a definition to
scroll to. -/
structure EditOutcome where
  document : Document
  removed : Removed
  scroll : Option ScrollTarget := none
  deriving DecidableEq

namespace Edit

variable (schema : Schema) (policy : Policy) (removed : Removed) (doc : Document)

def performToggleField (id : DefinitionId) (path : FieldPath) : Edited EditOutcome := do
  let (parent, _) ← Document.splitPath path
  let field ← schema.fieldAt doc id path
  let previous := removed.fields.find? (id, path)
  let (document, taken) ← doc.editSelections id parent fun selections =>
    let toggled := Selections.toggleField schema policy field previous selections
    .ok (toggled.selections, toggled.removed)
  return { document, removed := { removed with fields := removed.fields.update (id, path) taken } }

def performSelectAll (id : DefinitionId) (path : FieldPath) : Edited Document := do
  let (parent, _) ← Document.splitPath path
  let field ← schema.fieldAt doc id path
  let type ← schema.typeAt doc id path
  let names ← Selections.subfields field type
  doc.updateSelections id parent fun selections =>
    .ok (Selections.selectAll schema policy field names selections)

def performSelectDefaults (id : DefinitionId) (path : FieldPath) : Edited Document := do
  let (parent, name) ← Document.splitPath path
  let type ← schema.typeAt doc id path
  doc.updateSelections id parent (Selections.selectWithin name (policy.fieldNames schema type))

def performSetChildren (id : DefinitionId) (path : FieldPath) (children : List Selection) :
    Edited Document := do
  let (parent, name) ← Document.splitPath path
  doc.updateSelections id parent (Selections.setChildren name children)

def performToggleSpread (id : DefinitionId) (path : FieldPath) (fragment : String) :
    Edited EditOutcome := do
  let key := (id, path, fragment)
  let previous := removed.spreads.find? key
  let (document, taken) ← doc.editSelections id path fun selections =>
    let toggled := Selections.toggleSpread fragment previous selections
    .ok (toggled.selections, toggled.removed)
  return { document, removed := { removed with spreads := removed.spreads.update key taken } }

def performExtract (id : DefinitionId) (path : FieldPath) : Edited Document := do
  let (parent, name) ← Document.splitPath path
  let type ← schema.typeAt doc id path
  let taken := doc.fragments.map (·.2.name)
  let (document, fragment) ←
    doc.editSelections id parent (Selections.extract name type.name taken)
  return document.append (.fragment fragment)

def performAddArgument (id : DefinitionId) (path : ArgumentPath) : Edited EditOutcome := do
  let previous := removed.arguments.find? (id, path)
  let (field, target) ← schema.inputAt doc id path
  let document ← doc.updateSlots id path (Slots.add schema policy field target previous)
  return { document, removed := { removed with arguments := removed.arguments.forget (id, path) } }

def performRemoveArgument (id : DefinitionId) (path : ArgumentPath) : Edited EditOutcome := do
  let (document, taken) ← doc.editSlots id path fun slots =>
    .ok (Slots.remove path.leafName slots)
  match taken with
  | some slot =>
    return { document,
             removed := { removed with arguments := removed.arguments.remember (id, path) slot } }
  | none => return { document, removed }

def performSetArgument (id : DefinitionId) (path : ArgumentPath) (input : SlotInput) :
    Edited Document := do
  let (_, target) ← schema.inputAt doc id path
  let type ← schema.typeInside target.type
  doc.updateSlots id path (Slots.set path.leafName input type)

def perform : Edit → Edited EditOutcome
  | toggleField id path => performToggleField schema policy removed doc id path
  | selectAll id path => plain (performSelectAll schema policy doc id path)
  | selectDefaults id path => plain (performSelectDefaults schema policy doc id path)
  | setChildren id path children => plain (performSetChildren doc id path children)
  | toggleSpread id path fragment => performToggleSpread removed doc id path fragment
  | extract id path => plain (performExtract schema doc id path)
  | addArgument id path => performAddArgument schema policy removed doc id path
  | removeArgument id path => performRemoveArgument removed doc id path
  | setArgument id path input => plain (performSetArgument schema doc id path input)
  | setInputFields id path fields =>
    plain (doc.updateSlots id path (Slots.setFields path.leafName fields))
  | promote id path => plain (doc.promote id path schema)
  | inline id path => plain (doc.inline id path)
  | rename id name => plain (doc.rename id name)
  | copy id => (doc.copy id).map scrolled
  | remove id => plain (doc.remove id)
  | create kind => .ok (scrolled (doc.create kind))
where
  plain (edited : Edited Document) : Edited EditOutcome :=
    edited.map fun document => { document, removed }
  scrolled (made : Document × ScrollTarget) : EditOutcome :=
    { document := made.1, removed, scroll := some made.2 }

end Edit

end QueryEditor
