import QueryEditor.Value.Basic

namespace QueryEditor

structure Directive where
  name : String
  arguments : List Slot := []
  deriving DecidableEq

/-- A selected field; with no children it has no selection set of its own. The children are the
selections that the field belongs to. -/
structure FieldNode (σ : Type) where
  aliasName : Option String := none
  name : String
  arguments : List Slot := []
  directives : List Directive := []
  children : List σ := []

structure FragmentSpread where
  fragment : String
  directives : List Directive := []
  deriving DecidableEq

structure InlineNode (σ : Type) where
  condition : Option String := none
  directives : List Directive := []
  children : List σ := []

inductive Selection where
  | field (node : FieldNode Selection)
  | spread (node : FragmentSpread)
  | inline (node : InlineNode Selection)

abbrev FieldSelection := FieldNode Selection

instance {σ : Type} : Inhabited (FieldNode σ) := ⟨{ name := "" }⟩

instance : Inhabited Selection := ⟨.field default⟩

abbrev InlineFragment := InlineNode Selection

namespace Directive

def mentioned (directive : Directive) : List String :=
  Value.mentionedBySlots directive.arguments

end Directive

namespace Selection

def field? : Selection → Option FieldSelection
  | field node => some node
  | _ => none

def isFieldNamed (name : String) : Selection → Bool
  | field node => node.name == name
  | _ => false

def isSpreadOf (fragment : String) : Selection → Bool
  | spread node => node.fragment == fragment
  | _ => false

def leaf (name : String) : Selection :=
  field { name }

mutual

def mentioned : Selection → List String
  | field ⟨_, _, arguments, directives, children⟩ =>
    Value.mentionedBySlots arguments ++ directives.flatMap Directive.mentioned ++
      mentionedByAll children
  | spread node => node.directives.flatMap Directive.mentioned
  | inline ⟨_, directives, children⟩ =>
    directives.flatMap Directive.mentioned ++ mentionedByAll children

def mentionedByAll : List Selection → List String
  | [] => []
  | selection :: rest => mentioned selection ++ mentionedByAll rest

end

mutual

def same : Selection → Selection → Bool
  | field ⟨aliasName, name, arguments, directives, children⟩,
      field ⟨aliasName', name', arguments', directives', children'⟩ =>
    aliasName == aliasName' && name == name' && arguments == arguments' && directives == directives' &&
      sameList children children'
  | spread a, spread b => a == b
  | inline ⟨condition, directives, children⟩, inline ⟨condition', directives', children'⟩ =>
    condition == condition' && directives == directives' && sameList children children'
  | _, _ => false

def sameList : List Selection → List Selection → Bool
  | [], [] => true
  | a :: as, b :: bs => same a b && sameList as bs
  | _, _ => false

end

mutual

theorem same_iff (a b : Selection) : same a b = true ↔ a = b := by
  match a, b with
  | field ⟨aliasName, name, arguments, directives, children⟩,
      field ⟨aliasName', name', arguments', directives', children'⟩ =>
    simp [same, sameList_iff children children', and_assoc]
  | spread a, spread b => simp [same]
  | inline ⟨condition, directives, children⟩, inline ⟨condition', directives', children'⟩ =>
    simp [same, sameList_iff children children', and_assoc]
  | field _, spread _ => simp [same]
  | field _, inline _ => simp [same]
  | spread _, field _ => simp [same]
  | spread _, inline _ => simp [same]
  | inline _, field _ => simp [same]
  | inline _, spread _ => simp [same]

theorem sameList_iff (as bs : List Selection) : sameList as bs = true ↔ as = bs := by
  match as, bs with
  | [], [] => simp [sameList]
  | [], b :: bs => simp [sameList]
  | a :: as, [] => simp [sameList]
  | a :: as, b :: bs => simp [sameList, same_iff a b, sameList_iff as bs]

end

instance : DecidableEq Selection := fun a b => decidable_of_iff _ (same_iff a b)

end Selection

deriving instance DecidableEq for FieldNode, InlineNode

end QueryEditor
