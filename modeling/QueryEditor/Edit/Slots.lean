import QueryEditor.Edit.Coercion
import QueryEditor.Edit.Error

namespace QueryEditor

inductive SlotInput where
  | variable (name : String)
  | clear
  | literal (value : Value)
  | raw (text : String)
  deriving DecidableEq

namespace Slots

variable {α : Type}

def update (name : String) (change : Value → Edited Value) : List Slot → Edited (List Slot)
  | [] => .error (.missingArgument name)
  | slot :: rest =>
    if slot.name = name then do
      let value ← change slot.value
      return ⟨slot.name, value⟩ :: rest
    else do
      let rest ← update name change rest
      return slot :: rest

def replace (name : String) (value : Value) : List Slot → Edited (List Slot) :=
  update name fun _ => .ok value

def inputValue (name : String) (type : TypeDefinition) : SlotInput → Edited Value
  | .clear => .ok .null
  | .literal value => .ok value
  | .raw text =>
    if type.isLeaf then .ok (Coercion.literal type text)
    else .error (.rawValueOfComposite name type.name)
  | .variable variableName => .ok (.variable variableName)

def set (name : String) (input : SlotInput) (type : TypeDefinition) (slots : List Slot) :
    Edited (List Slot) := do
  let value ← inputValue name type input
  replace name value slots

def setFields (name : String) (fields : List Slot) : List Slot → Edited (List Slot) :=
  replace name (.object fields)

/-- Adds a slot unless one of its name is there: the previous one, if it is given, or else one with
a value filled in. -/
def add (schema : Schema) (policy : Policy) (parent : Field) (input : InputTarget)
    (previous : Option Slot) (slots : List Slot) : Edited (List Slot) :=
  if slots.any (·.name == input.name) then .ok slots
  else
    match previous.or (Defaults.slot schema policy parent input) with
    | some slot => .ok (slots ++ [slot])
    | none => .error (.unsupportedArgument input.name input.type.typeName)

def remove (name : String) : List Slot → List Slot × Option Slot
  | [] => ([], none)
  | slot :: rest =>
    if slot.name = name then (rest, some slot)
    else
      let (others, removed) := remove name rest
      (slot :: others, removed)

def updateWithin (edit : List Slot → Edited (List Slot × α)) :
    (containers : List String) → List Slot → Edited (List Slot × α)
  | [], slots => edit slots
  | name :: inner, slots => inFirst name (updateWithin edit inner) slots
where
  inFirst (name : String) (edit : List Slot → Edited (List Slot × α)) :
      List Slot → Edited (List Slot × α)
    | [] => .error (.missingArgument name)
    | slot :: rest =>
      if slot.name = name then
        match slot.value with
        | .object fields => do
          let (fields, found) ← edit fields
          return (⟨slot.name, .object fields⟩ :: rest, found)
        | _ => .error (.notAnInputObject name)
      else do
        let (rest, found) ← inFirst name edit rest
        return (slot :: rest, found)

def valueAt (slots : List Slot) (argument : String) : (inner : List String) → Edited Value
  | [] =>
    match Named.find? slots argument with
    | some value => .ok value
    | none => .error (.missingArgument argument)
  | name :: inner => do
    match Named.find? slots argument with
    | some (.object fields) => valueAt fields name inner
    | some _ => .error (.notAnInputObject argument)
    | none => .error (.missingArgument argument)

end Slots

end QueryEditor
