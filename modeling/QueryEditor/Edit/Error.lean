import QueryEditor.Document.Basic
import QueryEditor.Path

namespace QueryEditor

inductive EditError where
  | emptySelection (field : String)
  | missingArgument (name : String)
  | missingField (path : FieldPath)
  | rawValueOfComposite (name type : String)
  | notAnInputObject (name : String)
  | notAnOperation (id : DefinitionId)
  | notAnObjectField (field type : String)
  | notAVariable (path : ArgumentPath)
  | unparseable (cause : String)
  | undefinedVariable (name : String)
  | unknownArgument (parent name : String)
  | unknownDefinition (id : DefinitionId)
  | unknownField (type field : String)
  | unknownType (type : String)
  | unsupportedArgument (name type : String)
  deriving DecidableEq

def EditError.message : EditError → String
  | emptySelection field =>
    "There is nothing selected in `" ++ field ++ "` to extract into a fragment"
  | missingArgument name => "There is no `" ++ name ++ "` argument or input field to edit"
  | missingField path => "There is no field selection at `" ++ path.print ++ "`"
  | rawValueOfComposite name type =>
    "Unable to set `" ++ name ++ "` from raw text: `" ++ type ++ "` is not a scalar or enum type"
  | notAnInputObject name => "The value of `" ++ name ++ "` is not an input object value"
  | notAnOperation id => "Definition " ++ id.print ++ " is not an operation"
  | notAnObjectField field type =>
    "Field `" ++ field ++ "` returns `" ++ type ++ "`, which is not an object type"
  | notAVariable path => "The value at `" ++ path.print ++ "` is not a variable reference"
  | unparseable cause =>
    "The edited document would print as text that doesn't parse: " ++ cause
  | undefinedVariable name =>
    "Variable `$" ++ name ++ "` is not defined by the enclosing operation"
  | unknownArgument parent name =>
    "`" ++ parent ++ "` does not accept an argument or input field named `" ++ name ++ "`"
  | unknownDefinition id => "No definition with id " ++ id.print ++ " exists in the document"
  | unknownField type field =>
    "The `" ++ type ++ "` type does not define a `" ++ field ++ "` field"
  | unknownType type => "The `" ++ type ++ "` type is not defined in the schema"
  | unsupportedArgument name type =>
    "Unable to synthesize a value of type `" ++ type ++ "` for `" ++ name ++ "`"

abbrev Edited (α : Type) := Except EditError α

end QueryEditor
