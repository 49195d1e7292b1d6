import QueryEditor.Document.Grammar
import QueryEditor.Text.Name
import QueryEditor.Proofs.Document.Check

namespace QueryEditor

open Text

/-- Whether no non-null mark stands directly on another. -/
def TypeRef.isRegular : TypeRef → Bool
  | named _ => true
  | list item => item.isRegular
  | nonNull type => !type.isNonNull && type.isRegular

def isLiteralWord (word : String) : Bool :=
  word == "true" || word == "false" || word == "null"

namespace Check

@[simps]
def names : Check where
  value
    | .enum name => isName name
    | .variable name => isName name
    | _ => true
  slot := isName
  directive := isName
  field aliasName name := aliasName.all isName && isName name
  spread := isName
  inline condition _ := condition.all isName
  declaration d := isName d.name && isName d.type.innermost
  operation name _ := name.all isName
  fragment name condition _ := isName name && isName condition

/-- No fragment goes by the name `on`. -/
def fragmentNames : Check where
  spread fragment := fragment != "on"
  fragment name _ _ := name != "on"

def enums : Check where
  value
    | .enum name => !isLiteralWord name
    | _ => true

def floats : Check where
  value
    | .float number => number.isFinite
    | _ => true

def types : Check where
  declaration d := d.type.isRegular

@[simps]
def selections : Check where
  inline _ isEmpty := !isEmpty
  operation _ isEmpty := !isEmpty
  fragment _ _ isEmpty := !isEmpty

def defaults : Check where
  declaration d := d.default?.all (·.mentioned.isEmpty)

end Check

/-- What the grammar sees to, with a condition on the floats. -/
def Check.grammatical (float : Binary64 → Bool) : Check where
  value
    | .enum name => isName name && !isLiteralWord name
    | .variable name => isName name
    | .float number => float number
    | _ => true
  slot := isName
  directive := isName
  field aliasName name := aliasName.all isName && isName name
  spread fragment := isName fragment && fragment != "on"
  inline condition isEmpty := condition.all isName && !isEmpty
  declaration d := isName d.name && isName d.type.innermost && d.type.isRegular &&
    d.default?.all (·.mentioned.isEmpty)
  operation name isEmpty := name.all isName && !isEmpty
  fragment name condition isEmpty := isName name && isName condition && name != "on" && !isEmpty

theorem Check.grammatical_eq :
    grammatical Binary64.isFinite =
      names.and (fragmentNames.and (enums.and (floats.and (types.and (selections.and defaults))))) := by
  simp only [grammatical, Check.and, names, fragmentNames, enums, floats, types, selections, defaults,
    Bool.true_and, Bool.and_true, Bool.and_assoc, Check.mk.injEq, and_true]
  funext value
  cases value <;> simp

theorem Check.grammatical_and_floats :
    (grammatical fun _ => true).and floats = grammatical Binary64.isFinite := by
  simp only [grammatical, Check.and, floats, Bool.and_true, Check.mk.injEq, and_true]
  funext value
  cases value <;> simp

theorem Check.grammatical_names (float : Binary64 → Bool) : (grammatical float).Implies names where
  value v := by cases v <;> simp +contextual [grammatical, names]
  slot _ valid := valid
  directive _ valid := valid
  field _ _ valid := valid
  spread _ := by simp +contextual [grammatical, names]
  inline _ _ := by simp +contextual [grammatical, names]
  declaration _ := by simp +contextual [grammatical, names]
  operation _ _ := by simp +contextual [grammatical, names]
  fragment _ _ _ := by simp +contextual [grammatical, names]

def deepest {α : Type} (depth : α → Nat) : List α → Nat
  | [] => 0
  | a :: rest => max (depth a) (deepest depth rest)

theorem deepest_le {α : Type} {depth : α → Nat} {items : List α} {n : Nat} :
    deepest depth items ≤ n ↔ ∀ a ∈ items, depth a ≤ n := by
  induction items with
  | nil => simp [deepest]
  | cons a rest ih => rw [deepest, Nat.max_le, ih, List.forall_mem_cons]

namespace Value

mutual

/-- How many levels a value opens: an item of a list and the value of an object's field stand one
level further in. -/
def depth : Value → Nat
  | list items => depthOfItems items
  | object fields => depthOfSlots fields
  | _ => 0

def depthOfItems : List Value → Nat
  | [] => 0
  | item :: rest => max (depth item + 1) (depthOfItems rest)

def depthOfSlots : List Slot → Nat
  | [] => 0
  | ⟨_, value⟩ :: rest => max (depth value + 1) (depthOfSlots rest)

end

theorem depth_list_le {items : List Value} {n : Nat} :
    (list items).depth ≤ n ↔ ∀ item ∈ items, item.depth < n := by
  rw [depth]
  induction items with
  | nil => simp [depthOfItems]
  | cons item rest ih => rw [depthOfItems, Nat.max_le, ih, Nat.succ_le_iff, List.forall_mem_cons]

theorem depth_object_le {fields : List Slot} {n : Nat} :
    (object fields).depth ≤ n ↔ ∀ slot ∈ fields, slot.value.depth < n := by
  rw [depth]
  induction fields with
  | nil => simp [depthOfSlots]
  | cons slot rest ih => rw [depthOfSlots, Nat.max_le, ih, Nat.succ_le_iff, List.forall_mem_cons]

theorem mentioned_list {items : List Value} :
    (list items).mentioned = [] ↔ ∀ item ∈ items, item.mentioned = [] := by
  rw [mentioned]
  induction items with
  | nil => simp [mentionedByItems]
  | cons item rest ih => simp [mentionedByItems, ih]

theorem mentioned_object {fields : List Slot} :
    (object fields).mentioned = [] ↔ ∀ slot ∈ fields, slot.value.mentioned = [] := by
  rw [mentioned]
  induction fields with
  | nil => simp [mentionedBySlots]
  | cons slot rest ih => simp [mentionedBySlots, ih]

end Value

def TypeRef.depth : TypeRef → Nat
  | named _ => 0
  | list item => item.depth + 1
  | nonNull type => type.depth

def argumentsDepth (arguments : List Slot) : Nat :=
  deepest (·.value.depth) arguments

def directivesDepth (directives : List Directive) : Nat :=
  deepest (argumentsDepth ·.arguments) directives

namespace Selection

mutual

def depth : Selection → Nat
  | field ⟨_, _, arguments, directives, children⟩ =>
    max (max (argumentsDepth arguments) (directivesDepth directives)) (depthOfSet children)
  | spread node => directivesDepth node.directives
  | inline ⟨_, directives, children⟩ => max (directivesDepth directives) (depthOfSet children)

def depthOfSet : List Selection → Nat
  | [] => 0
  | selection :: rest => max (depth selection + 1) (depthOfSet rest)

end

theorem depthOfSet_le {selections : List Selection} {n : Nat} :
    depthOfSet selections ≤ n ↔ ∀ selection ∈ selections, selection.depth < n := by
  induction selections with
  | nil => simp [depthOfSet]
  | cons selection rest ih => rw [depthOfSet, Nat.max_le, ih, Nat.succ_le_iff, List.forall_mem_cons]

theorem depth_field_le {node : FieldSelection} {n : Nat} :
    (field node).depth ≤ n ↔ argumentsDepth node.arguments ≤ n ∧
      directivesDepth node.directives ≤ n ∧ depthOfSet node.children ≤ n := by
  cases node
  simp only [depth, Nat.max_le, and_assoc]

theorem depth_inline_le {node : InlineFragment} {n : Nat} :
    (inline node).depth ≤ n ↔
      directivesDepth node.directives ≤ n ∧ depthOfSet node.children ≤ n := by
  cases node
  simp only [depth, Nat.max_le]

end Selection

def VariableDefinition.depth (declared : VariableDefinition) : Nat :=
  max declared.type.depth (declared.default?.elim 0 Value.depth)

namespace Definition

def depth : Definition → Nat
  | operation op =>
    max (max (deepest VariableDefinition.depth op.declarations) (directivesDepth op.directives))
      (Selection.depthOfSet op.selections)
  | fragment frag => max (directivesDepth frag.directives) (Selection.depthOfSet frag.selections)

end Definition

namespace Document

def depth (doc : Document) : Nat :=
  deepest Definition.depth doc.definitions

/-- A document that query text can say. -/
structure WellFormed (doc : Document) : Prop where
  nonempty : doc.definitions ≠ []
  names : doc.all .names = true
  fragmentNames : doc.all .fragmentNames = true
  enums : doc.all .enums = true
  floats : doc.all .floats = true
  types : doc.all .types = true
  selections : doc.all .selections = true
  defaults : doc.all .defaults = true
  depth : doc.depth ≤ Grammar.maxDepth

theorem wellFormed_iff (doc : Document) :
    doc.WellFormed ↔ doc.definitions ≠ [] ∧ doc.all (.grammatical Binary64.isFinite) = true ∧
      doc.depth ≤ Grammar.maxDepth := by
  rw [Check.grammatical_eq]
  simp only [all_and, Bool.and_eq_true]
  constructor
  · rintro ⟨nonempty, names, fragmentNames, enums, floats, types, selections, defaults, depth⟩
    exact ⟨nonempty, ⟨names, fragmentNames, enums, floats, types, selections, defaults⟩, depth⟩
  · rintro ⟨nonempty, ⟨names, fragmentNames, enums, floats, types, selections, defaults⟩, depth⟩
    exact ⟨nonempty, names, fragmentNames, enums, floats, types, selections, defaults, depth⟩

end Document

end QueryEditor
