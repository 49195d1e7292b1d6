import QueryEditor.CommandLine.Request
import QueryEditor.Schema.Files

namespace QueryEditor.CommandLine

inductive Reply where
  | halted (halt : Halt)
  | output (text : String)
  | failure (message : String)
  deriving DecidableEq

def Reply.exitCode : Reply → Nat
  | halted .misuse => 2
  | halted _ | output _ => 0
  | failure _ => 1

variable {m : Type → Type} [Monad m]

def isJsonFile (path : String) : Bool :=
  ((Files.names path).getLast?.bind Files.extension?) == some "json"

def isSchemaFile (extensions : List String) (names : List String) : Bool :=
  match names.getLast?.bind Files.extension? with
  | some extension => extensions.contains extension
  | none => false

def schemaFiles (access : FileAccess m) (directory : String) (extensions : List String) :
    ExceptT Failure m (List String) := do
  match ← access.filesBelow? directory with
  | none => throw (.unscannable directory)
  | some files =>
    match (files.filter (isSchemaFile extensions)).mergeSort Files.comesFirst with
    | [] => throw (.noSchemaFiles directory)
    | found => return found.map (Files.below directory)

def readText (access : FileAccess m) (path : String) : ExceptT Failure m String := do
  match (← access.contents? path).bind String.fromUTF8? with
  | some text => return text
  | none => throw (.unreadable path)

/-- Loads a schema from an introspection result, if the path is that of a file with the extension
`json`; from any other file, as a schema source; or from the schema files of a directory. -/
def loadSchema (access : FileAccess m) (path : String) (extensions : List String) :
    ExceptT Failure m Schema := do
  let isFile ← access.isFile path
  let loaded ←
    if isFile && isJsonFile path then
      pure (({} : SchemaBuilder).loadIntrospection (← readText access path))
    else do
      let paths ← if isFile then pure [path] else schemaFiles access path extensions
      (SchemaBuilder.loadFiles access {} paths).run
  ((loaded.bind SchemaBuilder.build).mapError Failure.schema : Except Failure Schema)

def queryText (access : FileAccess m) : Option String → ExceptT Failure m String
  | some path => readText access path
  | none => do
    match String.fromUTF8? (← access.input) with
    | some text => return text
    | none => throw .unreadableInput

def Request.answer (access : FileAccess m) (request : Request) : ExceptT Failure m String := do
  let schema ← loadSchema access request.schema request.extensions
  let text ← queryText access request.query?
  let shown ← request.task.perform { schema, text }
  return String.ofList (Text.trimEnd shown.toList)

def Request.reply (access : FileAccess m) (request : Request) : m Reply := do
  match ← (request.answer access).run with
  | .ok text => return .output text
  | .error cause =>
    return .failure ("❌ Unable to " ++ request.task.purpose ++ ": " ++ cause.message)

def run (access : FileAccess m) (words : List String) : m Reply :=
  match Request.ofWords words with
  | .error halt => return .halted halt
  | .ok request => request.reply access

end QueryEditor.CommandLine
