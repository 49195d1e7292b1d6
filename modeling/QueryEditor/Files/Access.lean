import QueryEditor.Text.Blank

namespace QueryEditor

structure FileAccess (m : Type → Type) where
  isFile : (path : String) → m Bool
  contents? : (path : String) → m (Option ByteArray)
  filesBelow? : (path : String) → m (Option (List (List String)))
  input : m ByteArray

namespace Files

def names (path : String) : List String :=
  (Text.pieces '/' path.toList).map String.ofList

def below (directory : String) (names : List String) : String :=
  directory ++ (if directory.toList.getLast? = some '/' then "" else "/") ++ Text.joined "/" names

/-- The order of what is below a directory: by the outermost names that differ. -/
def comesFirst : List String → List String → Bool
  | [], _ => true
  | _ :: _, [] => false
  | a :: inA, b :: inB => a < b || (a == b && comesFirst inA inB)

/-- What follows the last dot of a file name. A single dot in first place does not count. -/
def extension? (name : String) : Option String :=
  match (Text.pieces '.' name.toList).reverse with
  | [] | [_] | [_, []] => none
  | last :: _ => some (String.ofList last)

end Files

end QueryEditor
