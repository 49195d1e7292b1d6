import QueryEditor.Files.Access
import QueryEditor.Schema.Builder

namespace QueryEditor.SchemaBuilder

variable {m : Type → Type} [Monad m]

def textOf (access : FileAccess m) (path : String) : ExceptT FileError m String := do
  if !(← access.isFile path) then throw (.notAFile path)
  match ← access.contents? path with
  | none => throw (.unreadable path)
  | some bytes =>
    match String.fromUTF8? bytes with
    | none => throw (.notText path)
    | some text => return text

def loadFile (access : FileAccess m) (builder : SchemaBuilder) (path : String) :
    ExceptT SchemaError m SchemaBuilder := do
  match ← (textOf access path).run with
  | .error cause => throw (.unreadableFile cause)
  | .ok text => builder.loadText (some path) text

def loadFiles (access : FileAccess m) (builder : SchemaBuilder) (paths : List String) :
    ExceptT SchemaError m SchemaBuilder :=
  paths.foldlM (loadFile access) builder

end QueryEditor.SchemaBuilder
