import QueryEditor.Text.Blank

namespace QueryEditor

/-- The names of the fields that lead to a field from the root selections of a definition. With no
names it addresses the root selections themselves. -/
structure FieldPath where
  segments : List String := []
  deriving DecidableEq

namespace FieldPath

def root : FieldPath :=
  ⟨[]⟩

def ofDotted (text : String) : FieldPath :=
  ⟨Text.dottedNames text⟩

def isRoot (path : FieldPath) : Bool :=
  path.segments.isEmpty

def child (path : FieldPath) (name : String) : FieldPath :=
  ⟨path.segments ++ [name]⟩

def last? (path : FieldPath) : Option String :=
  path.segments.getLast?

def split? (path : FieldPath) : Option (FieldPath × String) :=
  path.last?.map fun name => (⟨path.segments.dropLast⟩, name)

def parent? (path : FieldPath) : Option FieldPath :=
  path.split?.map (·.1)

def print (path : FieldPath) : String :=
  if path.isRoot then "<root>" else Text.joined "." path.segments

end FieldPath

structure ArgumentPath where
  field : FieldPath
  argument : String
  inputFields : List String := []
  deriving DecidableEq

namespace ArgumentPath

def inputField (path : ArgumentPath) (name : String) : ArgumentPath :=
  { path with inputFields := path.inputFields ++ [name] }

def leafName (path : ArgumentPath) : String :=
  path.inputFields.getLastD path.argument

def containers (path : ArgumentPath) : List String :=
  (path.argument :: path.inputFields).dropLast

def parent? (path : ArgumentPath) : Option ArgumentPath :=
  if path.inputFields.isEmpty then none
  else some { path with inputFields := path.inputFields.dropLast }

def print (path : ArgumentPath) : String :=
  path.field.print ++ "(" ++ Text.joined "." (path.argument :: path.inputFields) ++ ":)"

end ArgumentPath

end QueryEditor
