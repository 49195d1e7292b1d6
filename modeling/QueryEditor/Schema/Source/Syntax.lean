import QueryEditor.Schema.Location
import QueryEditor.TypeRef
import QueryEditor.Value.Basic

namespace QueryEditor

structure WrittenDirective where
  name : String
  arguments : List Slot
  deriving DecidableEq

/-- An argument or input field. It stands where its description does. -/
structure WrittenInput where
  position : Position
  description : Option String
  name : String
  type : TypeRef
  default? : Option Value
  directives : List WrittenDirective
  deriving DecidableEq

structure WrittenField where
  position : Position
  description : Option String
  name : String
  arguments : List WrittenInput
  type : TypeRef
  directives : List WrittenDirective
  deriving DecidableEq

structure WrittenEnumValue where
  description : Option String
  name : String
  directives : List WrittenDirective
  deriving DecidableEq

inductive WrittenBody where
  | scalar
  | object (interfaces : List String) (fields : List WrittenField)
  | interface (interfaces : List String) (fields : List WrittenField)
  | union (members : List String)
  | enum (values : List WrittenEnumValue)
  | input (fields : List WrittenInput)
  deriving DecidableEq

/-- A type, or what an extension adds to one. It stands at the keyword of its kind. -/
structure WrittenType where
  position : Position
  description : Option String
  name : String
  directives : List WrittenDirective
  body : WrittenBody
  deriving DecidableEq

structure RootNames where
  query : Option String := none
  mutation : Option String := none
  subscription : Option String := none
  deriving DecidableEq

inductive SchemaDefinition where
  | schema (position : Position) (roots : RootNames)
  | type (definition : WrittenType)
  | extension (addition : WrittenType)
  | directive
  deriving DecidableEq

end QueryEditor
