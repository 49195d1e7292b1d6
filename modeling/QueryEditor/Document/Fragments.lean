import QueryEditor.Document.Basic

namespace QueryEditor

/-- For each type name, in the order of first appearance, the fragments on it, ordered by name. -/
structure FragmentIndex where
  groups : List (String × List (DefinitionId × Fragment))
  deriving DecidableEq

namespace FragmentIndex

def onType (type : String) (fragments : List (DefinitionId × Fragment)) :
    List (DefinitionId × Fragment) :=
  (fragments.filter (·.2.condition == type)).mergeSort fun a b => a.2.name ≤ b.2.name

def distinct : List String → List String
  | [] => []
  | name :: rest => name :: (distinct rest).filter (· != name)

def ofDocument (doc : Document) : FragmentIndex :=
  let fragments := doc.fragments
  ⟨(distinct (fragments.map (·.2.condition))).map fun type => (type, onType type fragments)⟩

def typeNames (index : FragmentIndex) : List String :=
  index.groups.map (·.1)

def forType (index : FragmentIndex) (type : String) : List (DefinitionId × Fragment) :=
  ((index.groups.find? (·.1 == type)).map (·.2)).getD []

def fragmentNames (index : FragmentIndex) : List String :=
  index.groups.flatMap fun (_, fragments) => fragments.map (·.2.name)

def isEmpty (index : FragmentIndex) : Bool :=
  index.groups.isEmpty

end FragmentIndex

end QueryEditor
