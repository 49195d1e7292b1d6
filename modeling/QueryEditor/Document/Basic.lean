import QueryEditor.Selection.Basic
import QueryEditor.TypeRef

namespace QueryEditor

inductive OperationKind where
  | query
  | mutation
  | subscription
  deriving DecidableEq

namespace OperationKind

def keyword : OperationKind → String
  | query => "query"
  | mutation => "mutation"
  | subscription => "subscription"

def capitalized : OperationKind → String
  | query => "Query"
  | mutation => "Mutation"
  | subscription => "Subscription"

def ofKeyword? : String → Option OperationKind
  | "query" => some query
  | "mutation" => some mutation
  | "subscription" => some subscription
  | _ => none

def unknownMessage (text : String) : String :=
  "`" ++ text ++ "` is not an operation kind (expected one of " ++
    "`query`, `mutation`, `subscription`)"

end OperationKind

structure VariableDefinition where
  name : String
  type : TypeRef
  default? : Option Value := none
  deriving DecidableEq

structure Operation where
  kind : OperationKind
  name : Option String := none
  declarations : List VariableDefinition := []
  directives : List Directive := []
  selections : List Selection := []
  deriving DecidableEq

structure Fragment where
  name : String
  condition : String
  directives : List Directive := []
  selections : List Selection := []
  deriving DecidableEq

inductive Definition where
  | operation (operation : Operation)
  | fragment (fragment : Fragment)
  deriving DecidableEq

structure Document where
  definitions : List Definition
  deriving DecidableEq

/-- The position of a definition in its document. Inserting or removing definitions shifts the
positions of the later ones. -/
abbrev DefinitionId := Nat

def DefinitionId.print (id : DefinitionId) : String :=
  "#" ++ toString id

namespace Operation

def declaration? (operation : Operation) (name : String) : Option VariableDefinition :=
  operation.declarations.find? (·.name == name)

/-- The variables mentioned in the directives and selections; declarations do not count, and
neither do the fragments that are spread. -/
def mentioned (operation : Operation) : List String :=
  operation.directives.flatMap Directive.mentioned ++ Selection.mentionedByAll operation.selections

def uses (operation : Operation) (name : String) : Nat :=
  operation.mentioned.count name

end Operation

namespace Definition

def operation? : Definition → Option Operation
  | operation op => some op
  | fragment _ => none

def fragment? : Definition → Option Fragment
  | operation _ => none
  | fragment frag => some frag

def keyword : Definition → String
  | operation op => op.kind.keyword
  | fragment _ => "fragment"

def name? : Definition → Option String
  | operation op => op.name
  | fragment frag => some frag.name

def selections : Definition → List Selection
  | operation op => op.selections
  | fragment frag => frag.selections

end Definition

def typenameField : String :=
  "__typename"

namespace Document

def defaultOperationName : String :=
  "MyQuery"

def standard : Document :=
  ⟨[.operation { kind := .query, name := some defaultOperationName,
                 selections := [.leaf typenameField] }]⟩

def isStandard (doc : Document) : Bool :=
  doc == standard

def definition? (doc : Document) (id : DefinitionId) : Option Definition :=
  doc.definitions[id]?

def operations (doc : Document) : List (DefinitionId × Operation) :=
  doc.definitions.zipIdx.filterMap fun (definition, id) => definition.operation?.map (id, ·)

def fragments (doc : Document) : List (DefinitionId × Fragment) :=
  doc.definitions.zipIdx.filterMap fun (definition, id) => definition.fragment?.map (id, ·)

def find? (doc : Document) (name : String) : Option DefinitionId :=
  doc.definitions.findIdx? (·.name? == some name)

def append (doc : Document) (definition : Definition) : Document :=
  ⟨doc.definitions ++ [definition]⟩

end Document

end QueryEditor
