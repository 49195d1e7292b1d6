import QueryEditor.Schema.Source.Syntax
import QueryEditor.Schema.Types

namespace QueryEditor

def WrittenDirective.applied (directive : WrittenDirective) : AppliedDirective :=
  { name := directive.name, arguments := .ofList directive.arguments }

def WrittenEnumValue.enumValue (value : WrittenEnumValue) : EnumValue :=
  { name := value.name, description := value.description,
    directives := value.directives.map (·.applied) }

section Located

variable (file? : Option String)

def Position.located (position : Position) : Location :=
  .source ⟨file?, position⟩

namespace WrittenInput

def inputValue (input : WrittenInput) : InputValue :=
  { name := input.name, location := input.position.located file?, default? := input.default?,
    description := input.description, type := .ofTypeRef true input.type }

def inputField (parent : String) (input : WrittenInput) : InputField :=
  { toInputValue := input.inputValue file?, directives := input.directives.map (·.applied), parent }

end WrittenInput

def WrittenField.field (parent : String) (field : WrittenField) : Field :=
  { name := field.name, location := field.position.located file?, description := field.description,
    directives := field.directives.map (·.applied),
    arguments := .ofList (field.arguments.map (·.inputValue file?)), parent,
    type := .ofTypeRef true field.type }

/-- An interface keeps nothing of what it says to implement. -/
def WrittenType.definition (type : WrittenType) : TypeDefinition :=
  let head : TypeHead :=
    { name := type.name, location := type.position.located file?, description := type.description,
      directives := type.directives.map (·.applied) }
  match type.body with
  | .scalar => .scalar head
  | .object interfaces fields =>
    .object { toTypeHead := head, fields := .ofList (fields.map (·.field file? type.name)), interfaces }
  | .interface _ fields =>
    .interface { toTypeHead := head, fields := .ofList (fields.map (·.field file? type.name)) }
  | .union members => .union { toTypeHead := head, members }
  | .enum values => .enum { toTypeHead := head, values := .ofList (values.map (·.enumValue)) }
  | .input fields =>
    .input { toTypeHead := head, fields := .ofList (fields.map (·.inputField file? type.name)) }

/-- The type with what an extension of the same kind adds to it. What is given again under a name
replaces what was there, in its place. -/
def TypeDefinition.extended? (type : TypeDefinition) (addition : WrittenType) :
    Option TypeDefinition :=
  let directives := addition.directives.map (·.applied)
  match type, addition.body with
  | .scalar type, .scalar =>
    some (.scalar { type with directives := type.directives ++ directives })
  | .object type, .object interfaces fields =>
    some (.object { type with
      directives := type.directives ++ directives
      interfaces := type.interfaces ++ interfaces
      fields := type.fields.insertAll (fields.map (·.field file? addition.name)) })
  | .interface type, .interface _ fields =>
    some (.interface { type with
      directives := type.directives ++ directives
      fields := type.fields.insertAll (fields.map (·.field file? addition.name)) })
  | .union type, .union members =>
    some (.union { type with
      directives := type.directives ++ directives
      members := type.members ++ members })
  | .enum type, .enum values =>
    some (.enum { type with
      directives := type.directives ++ directives
      values := type.values.insertAll (values.map (·.enumValue)) })
  | .input type, .input fields =>
    some (.input { type with
      directives := type.directives ++ directives
      fields := type.fields.insertAll (fields.map (·.inputField file? addition.name)) })
  | _, _ => none

end Located

end QueryEditor
