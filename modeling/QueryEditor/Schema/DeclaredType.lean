import QueryEditor.TypeRef

namespace QueryEditor

inductive DeclaredType where
  | named (name : String) (nullable : Bool)
  | list (item : DeclaredType) (nullable : Bool)
  deriving DecidableEq

namespace DeclaredType

instance : Inhabited DeclaredType := ⟨named "" true⟩

def nullable : DeclaredType → Bool
  | named _ nullable => nullable
  | list _ nullable => nullable

def innermost : DeclaredType → String × Bool
  | named name nullable => (name, nullable)
  | list item _ => item.innermost

def typeName (declared : DeclaredType) : String :=
  declared.innermost.1

/-- The declared type that a written one stands for. Marks of non-null on one level are one. -/
def ofTypeRef (nullable : Bool := true) : TypeRef → DeclaredType
  | .named name => named name nullable
  | .list item => list (ofTypeRef true item) nullable
  | .nonNull type => ofTypeRef false type

def marked (nullable : Bool) (type : TypeRef) : TypeRef :=
  if nullable then type else .nonNull type

def toTypeRef : DeclaredType → TypeRef
  | named name nullable => marked nullable (.named name)
  | list item nullable => marked nullable (.list item.toTypeRef)

def print : DeclaredType → String
  | named name nullable => name ++ (if nullable then "" else "!")
  | list item nullable => "[" ++ item.print ++ "]" ++ (if nullable then "" else "!")

end DeclaredType

end QueryEditor
