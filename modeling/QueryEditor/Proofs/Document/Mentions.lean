import QueryEditor.Document.Basic
import QueryEditor.Proofs.Value.Substitution

namespace QueryEditor

/-- A variable stands somewhere in a value. -/
inductive Value.Mentions (name : String) : Value → Prop
  | «variable» : Mentions name (.variable name)
  | list {items : List Value} {item : Value} (member : item ∈ items) (inside : Mentions name item) :
      Mentions name (.list items)
  | object {fields : List Slot} {slot : Slot} (member : slot ∈ fields)
      (inside : Mentions name slot.value) : Mentions name (.object fields)

def Directive.Mentions (name : String) (directive : Directive) : Prop :=
  ∃ slot ∈ directive.arguments, slot.value.Mentions name

/-- A variable stands in an argument or a directive of a selection, or of one beneath it. -/
inductive Selection.Mentions (name : String) : Selection → Prop
  | argument {node : FieldSelection} {slot : Slot} (member : slot ∈ node.arguments)
      (inside : slot.value.Mentions name) : Mentions name (.field node)
  | fieldDirective {node : FieldSelection} {directive : Directive}
      (member : directive ∈ node.directives) (inside : directive.Mentions name) :
      Mentions name (.field node)
  | fieldChild {node : FieldSelection} {child : Selection} (member : child ∈ node.children)
      (inside : Mentions name child) : Mentions name (.field node)
  | spreadDirective {node : FragmentSpread} {directive : Directive}
      (member : directive ∈ node.directives) (inside : directive.Mentions name) :
      Mentions name (.spread node)
  | inlineDirective {node : InlineFragment} {directive : Directive}
      (member : directive ∈ node.directives) (inside : directive.Mentions name) :
      Mentions name (.inline node)
  | inlineChild {node : InlineFragment} {child : Selection} (member : child ∈ node.children)
      (inside : Mentions name child) : Mentions name (.inline node)

def Operation.Mentions (name : String) (op : Operation) : Prop :=
  (∃ directive ∈ op.directives, directive.Mentions name) ∨
    ∃ selection ∈ op.selections, selection.Mentions name

variable {name : String}

theorem Value.mem_mentioned {value : Value} : name ∈ value.mentioned ↔ value.Mentions name := by
  induction value using Value.inductionOn with
  | «variable» other =>
    rw [mentioned, List.mem_singleton]
    constructor
    · rintro rfl
      exact .variable
    · intro mentions
      cases mentions
      rfl
  | list items ih =>
    rw [mentioned, mentionedByItems_eq, List.mem_flatMap]
    constructor
    · rintro ⟨item, member, inside⟩
      exact .list member ((ih item member).mp inside)
    · intro mentions
      cases mentions with
      | list member inside => exact ⟨_, member, (ih _ member).mpr inside⟩
  | object fields ih =>
    rw [mentioned, mentionedBySlots_eq, List.mem_flatMap]
    constructor
    · rintro ⟨slot, member, inside⟩
      exact .object member ((ih slot member).mp inside)
    · intro mentions
      cases mentions with
      | object member inside => exact ⟨_, member, (ih _ member).mpr inside⟩
  | _ =>
    constructor
    · intro member
      cases member
    · intro mentions
      cases mentions

theorem Value.mem_mentionedBySlots {slots : List Slot} :
    name ∈ mentionedBySlots slots ↔ ∃ slot ∈ slots, slot.value.Mentions name := by
  simp only [mentionedBySlots_eq, List.mem_flatMap, mem_mentioned]

theorem Directive.mem_mentioned {directives : List Directive} :
    name ∈ directives.flatMap Directive.mentioned ↔
      ∃ directive ∈ directives, directive.Mentions name := by
  simp only [List.mem_flatMap, mentioned, Value.mem_mentionedBySlots]
  rfl

namespace Selection

theorem mentionedByAll_eq (selections : List Selection) :
    mentionedByAll selections = selections.flatMap mentioned := by
  induction selections with
  | nil => rfl
  | cons selection rest ih => rw [mentionedByAll, ih, List.flatMap_cons]

theorem mem_mentioned {selection : Selection} :
    name ∈ selection.mentioned ↔ selection.Mentions name := by
  induction selection using Selection.inductionOn with
  | field node ih =>
    obtain ⟨aliasName, called, arguments, directives, children⟩ := node
    rw [mentioned, List.mem_append, List.mem_append, Value.mem_mentionedBySlots,
      Directive.mem_mentioned, mentionedByAll_eq, List.mem_flatMap]
    constructor
    · rintro ((⟨slot, member, inside⟩ | ⟨directive, member, inside⟩) | ⟨child, member, inside⟩)
      · exact .argument member inside
      · exact .fieldDirective member inside
      · exact .fieldChild member ((ih child member).mp inside)
    · intro mentions
      cases mentions with
      | argument member inside => exact .inl (.inl ⟨_, member, inside⟩)
      | fieldDirective member inside => exact .inl (.inr ⟨_, member, inside⟩)
      | fieldChild member inside => exact .inr ⟨_, member, (ih _ member).mpr inside⟩
  | spread node =>
    rw [mentioned, Directive.mem_mentioned]
    constructor
    · rintro ⟨directive, member, inside⟩
      exact .spreadDirective member inside
    · intro mentions
      cases mentions with
      | spreadDirective member inside => exact ⟨_, member, inside⟩
  | inline node ih =>
    obtain ⟨condition, directives, children⟩ := node
    rw [mentioned, List.mem_append, Directive.mem_mentioned, mentionedByAll_eq, List.mem_flatMap]
    constructor
    · rintro (⟨directive, member, inside⟩ | ⟨child, member, inside⟩)
      · exact .inlineDirective member inside
      · exact .inlineChild member ((ih child member).mp inside)
    · intro mentions
      cases mentions with
      | inlineDirective member inside => exact .inl ⟨_, member, inside⟩
      | inlineChild member inside => exact .inr ⟨_, member, (ih _ member).mpr inside⟩

end Selection

theorem Operation.mem_mentioned {op : Operation} : name ∈ op.mentioned ↔ op.Mentions name := by
  rw [mentioned, List.mem_append, Directive.mem_mentioned, Selection.mentionedByAll_eq,
    List.mem_flatMap]
  simp only [Selection.mem_mentioned]
  rfl

instance (name : String) (value : Value) : Decidable (value.Mentions name) :=
  decidable_of_iff _ Value.mem_mentioned

instance (name : String) (op : Operation) : Decidable (op.Mentions name) :=
  decidable_of_iff _ Operation.mem_mentioned

end QueryEditor
