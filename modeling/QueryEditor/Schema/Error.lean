import QueryEditor.Schema.Location
import QueryEditor.Document.Basic
import QueryEditor.Text.Escaped

namespace QueryEditor

inductive FileError where
  | notAFile (path : String)
  | unreadable (path : String)
  | notText (path : String)
  deriving DecidableEq

def FileError.message : FileError → String
  | notAFile path => "Path is not a file: " ++ Text.inQuotes path
  | unreadable path => "Failed to read file at " ++ Text.inQuotes path
  | notText path => "File at " ++ Text.inQuotes path ++ " is not valid UTF-8"

/-- What can be wrong with the sources of a schema. Where one of them is malformed, and how, is not
told. -/
inductive SchemaError where
  | duplicateSchemaDefinition (first second : SourcePosition)
  | duplicateTypeDefinition (type : String) (first second : Location)
  | extensionOfUndefinedType (type : String) (place : Location)
  | extensionOfAnotherKind (type : String) (place : Location)
  | undecodableIntrospection
  | malformedTypeReference (owner : String)
  | missingIntrospection
  | noQueryType
  | rootNotAnObject (kind : OperationKind) (type : String)
  | undefinedRoot (kind : OperationKind) (type : String)
  | unreadableFile (cause : FileError)
  | malformedSource (file? : Option String)
  deriving DecidableEq

def SchemaError.message : SchemaError → String
  | duplicateSchemaDefinition first second =>
    "Found more than one `schema` definition (" ++ first.print ++ " and " ++ second.print ++ ")"
  | duplicateTypeDefinition type first second =>
    "The `" ++ type ++ "` type is defined more than once (" ++ first.print ++ " and " ++
      second.print ++ ")"
  | extensionOfUndefinedType type place =>
    "Found an extension of the undefined type `" ++ type ++ "` at " ++ place.print
  | extensionOfAnotherKind type place =>
    "The extension of `" ++ type ++ "` at " ++ place.print ++
      " extends a different kind of type than `" ++ type ++ "` is"
  | undecodableIntrospection => "Failed to decode the introspection result"
  | malformedTypeReference owner =>
    "Malformed type reference in the introspection result at `" ++ owner ++ "`"
  | missingIntrospection => "The introspection result does not contain a `__schema` object"
  | noQueryType => "No query root type is defined"
  | rootNotAnObject kind type =>
    "The " ++ kind.keyword ++ " root type `" ++ type ++ "` is not an object type"
  | undefinedRoot kind type =>
    "The " ++ kind.keyword ++ " root type `" ++ type ++ "` is not defined"
  | unreadableFile cause => "Failed to read a schema file: " ++ cause.message
  | malformedSource file? =>
    let file := match file? with
      | some path => "Some(" ++ Text.inQuotes path ++ ")"
      | none => "None"
    "Failed to parse schema (file: " ++ file ++ ")"

end QueryEditor
