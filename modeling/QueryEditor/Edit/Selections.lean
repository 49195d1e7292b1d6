import QueryEditor.Defaults
import QueryEditor.Edit.Error
import QueryEditor.Naming

namespace QueryEditor.Selections

variable {α : Type}

def removeFirst (p : α → Bool) : List α → Option (α × List α)
  | [] => none
  | a :: rest =>
    if p a then some (a, rest)
    else (removeFirst p rest).map fun (removed, others) => (removed, a :: others)

def updateField (missing : EditError) (name : String)
    (update : FieldSelection → Edited (FieldSelection × α)) :
    List Selection → Edited (List Selection × α)
  | [] => .error missing
  | .field node :: rest =>
    if node.name = name then do
      let (node, found) ← update node
      return (.field node :: rest, found)
    else do
      let (rest, found) ← updateField missing name update rest
      return (.field node :: rest, found)
  | other :: rest => do
    let (rest, found) ← updateField missing name update rest
    return (other :: rest, found)

def updateOwn (name : String) (update : FieldSelection → Edited FieldSelection)
    (selections : List Selection) : Edited (List Selection) := do
  let (selections, _) ←
    updateField (.missingField ⟨[name]⟩) name (fun node => do return (← update node, ())) selections
  return selections

structure Toggled (α : Type) where
  selections : List Selection
  removed : Option α := none

/-- Takes away the first selection of a field. If there is none, puts back the selection that was
taken away before, or else selects the field anew with its default arguments. -/
def toggleField (schema : Schema) (policy : Policy) (field : Field)
    (previous : Option FieldSelection) (selections : List Selection) : Toggled FieldSelection :=
  match removeFirst (·.isFieldNamed field.name) selections with
  | some (removed, others) => ⟨others, removed.field?⟩
  | none =>
    let added := previous.getD
      { name := field.name, arguments := Defaults.arguments schema policy field }
    ⟨selections ++ [.field added], none⟩

/-- Replaces all selections of a field by one at the end, which selects the given fields. -/
def selectAll (schema : Schema) (policy : Policy) (field : Field) (names : List String)
    (selections : List Selection) : List Selection :=
  selections.filter (!·.isFieldNamed field.name) ++
    [.field { name := field.name, arguments := Defaults.arguments schema policy field,
              children := names.map Selection.leaf }]

def addMissing (selections : List Selection) (name : String) : List Selection :=
  if selections.any (·.isFieldNamed name) then selections else selections ++ [.leaf name]

def selectWithin (name : String) (names : List String) : List Selection → Edited (List Selection) :=
  updateOwn name fun node => .ok { node with children := names.foldl addMissing node.children }

def setChildren (name : String) (children : List Selection) :
    List Selection → Edited (List Selection) :=
  updateOwn name fun node => .ok { node with children }

def setArguments (name : String) (arguments : List Slot) :
    List Selection → Edited (List Selection) :=
  updateOwn name fun node => .ok { node with arguments }

/-- The root selections of an operation: without `__typename`, which stands in alone when there is
nothing else. -/
def normalize (selections : List Selection) : List Selection :=
  match selections.filter (!·.isFieldNamed typenameField) with
  | [] => [.leaf typenameField]
  | others => others

def toggleSpread (fragment : String) (previous : Option FragmentSpread)
    (selections : List Selection) : Toggled FragmentSpread :=
  match removeFirst (·.isSpreadOf fragment) selections with
  | some (.spread removed, others) => ⟨others, some removed⟩
  | some (_, others) => ⟨others, none⟩
  | none => ⟨selections ++ [.spread (previous.getD { fragment })], none⟩

def extract (name type : String) (taken : List String) (selections : List Selection) :
    Edited (List Selection × Fragment) :=
  let fragment := Naming.unique (type ++ "Fragment") taken
  updateField (.missingField ⟨[name]⟩) name (fun node =>
    if node.children.isEmpty then .error (.emptySelection name)
    else .ok ({ node with children := [.spread { fragment }] },
              { name := fragment, condition := type, selections := node.children })) selections

def subfields (field : Field) : TypeDefinition → Edited (List String)
  | .object type => .ok type.fields.names
  | other => .error (.notAnObjectField field.name other.name)

end QueryEditor.Selections
