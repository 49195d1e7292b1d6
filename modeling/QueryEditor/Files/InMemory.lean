import QueryEditor.Files.Access

namespace QueryEditor

structure InMemoryFiles where
  files : List (List String × ByteArray) := []
  directories : List (List String) := []
  input : ByteArray := .empty

namespace InMemoryFiles

def isDirectory (tree : InMemoryFiles) (place : List String) : Bool :=
  place.isEmpty || tree.directories.any place.isPrefixOf ||
    tree.files.any fun (file, _) => place.isPrefixOf file && place.length < file.length

def bytes? (tree : InMemoryFiles) (place : List String) : Option ByteArray :=
  (tree.files.find? (·.1 = place)).map (·.2)

/-- Where names lead from a place. Each of them is looked up in a directory; an empty name and a
single dot stay there, and two dots leave it. -/
def follow (tree : InMemoryFiles) : (place names : List String) → Option (List String)
  | place, [] => some place
  | place, name :: rest =>
    if !tree.isDirectory place then none
    else if name = "" ∨ name = "." then tree.follow place rest
    else if name = ".." then
      if place.isEmpty then none else tree.follow place.dropLast rest
    else tree.follow (place ++ [name]) rest

def locate (tree : InMemoryFiles) (path : String) : Option (List String) :=
  match Files.names path with
  | "" :: _ => none
  | names => tree.follow [] names

def fileAt? (tree : InMemoryFiles) (path : String) : Option ByteArray :=
  (tree.locate path).bind tree.bytes?

def below (tree : InMemoryFiles) (place : List String) : List (List String) :=
  tree.files.filterMap fun (file, _) =>
    if place.isPrefixOf file then some (file.drop place.length) else none

def access (tree : InMemoryFiles) : FileAccess Id where
  isFile path := (tree.fileAt? path).isSome
  contents? := tree.fileAt?
  filesBelow? path :=
    (tree.locate path).bind fun place =>
      if tree.isDirectory place then some (tree.below place) else none
  input := tree.input

end InMemoryFiles

end QueryEditor
