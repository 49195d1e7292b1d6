namespace QueryEditor

inductive TypeRef where
  | named (name : String)
  | list (item : TypeRef)
  | nonNull (type : TypeRef)
  deriving DecidableEq

namespace TypeRef

instance : Inhabited TypeRef := ⟨named ""⟩

def nullable : TypeRef → TypeRef
  | nonNull type => type
  | type => type

def isNonNull : TypeRef → Bool
  | nonNull _ => true
  | _ => false

def innermost : TypeRef → String
  | named name => name
  | list item => item.innermost
  | nonNull type => type.innermost

def print : TypeRef → String
  | named name => name
  | list item => "[" ++ item.print ++ "]"
  | nonNull type => type.print ++ "!"

end TypeRef

end QueryEditor
