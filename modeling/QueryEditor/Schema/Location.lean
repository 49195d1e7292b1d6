namespace QueryEditor

/-- A place in a text; lines and columns count from one. -/
structure Position where
  line : Nat
  column : Nat
  deriving DecidableEq

structure SourcePosition where
  file? : Option String
  position : Position
  deriving DecidableEq

inductive Location where
  | builtin
  | introspection
  | source (place : SourcePosition)
  deriving DecidableEq

def SourcePosition.print (place : SourcePosition) : String :=
  place.file?.getD "<str>" ++ ":" ++ toString place.position.line ++ ":" ++
    toString place.position.column

def Location.print : Location → String
  | builtin => "<builtin>"
  | introspection => "<introspection>"
  | source place => place.print

end QueryEditor
