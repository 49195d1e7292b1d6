import QueryEditor.Selection.Basic

namespace QueryEditor

theorem Value.inductionOn {motive : Value → Prop} (value : Value)
    (null : motive .null)
    (boolean : ∀ truth, motive (.boolean truth))
    (int : ∀ number, motive (.int number))
    (float : ∀ number, motive (.float number))
    (string : ∀ content, motive (.string content))
    (enum : ∀ name, motive (.enum name))
    («variable» : ∀ name, motive (.variable name))
    (list : ∀ items : List Value, (∀ item ∈ items, motive item) → motive (.list items))
    (object : ∀ fields : List Slot, (∀ slot ∈ fields, motive slot.value) → motive (.object fields)) :
    motive value :=
  @Value.rec motive (fun items => ∀ item ∈ items, motive item)
    (fun fields => ∀ slot ∈ fields, motive slot.value) (fun slot => motive slot.value)
    null boolean int float string enum «variable» list object
    (fun _ member => nomatch member)
    (fun _ _ head tail _ member => by
      rcases List.mem_cons.mp member with rfl | member
      · exact head
      · exact tail _ member)
    (fun _ member => nomatch member)
    (fun _ _ head tail _ member => by
      rcases List.mem_cons.mp member with rfl | member
      · exact head
      · exact tail _ member)
    (fun _ _ value => value)
    value

theorem Selection.inductionOn {motive : Selection → Prop} (selection : Selection)
    (field : ∀ node : FieldSelection, (∀ child ∈ node.children, motive child) →
      motive (.field node))
    (spread : ∀ node : FragmentSpread, motive (.spread node))
    (inline : ∀ node : InlineFragment, (∀ child ∈ node.children, motive child) →
      motive (.inline node)) :
    motive selection :=
  @Selection.rec motive (fun node => ∀ child ∈ node.children, motive child)
    (fun node => ∀ child ∈ node.children, motive child)
    (fun children => ∀ child ∈ children, motive child)
    field spread inline
    (fun _ _ _ _ _ children => children)
    (fun _ _ _ children => children)
    (fun _ member => nomatch member)
    (fun _ _ head tail _ member => by
      rcases List.mem_cons.mp member with rfl | member
      · exact head
      · exact tail _ member)
    selection

end QueryEditor
