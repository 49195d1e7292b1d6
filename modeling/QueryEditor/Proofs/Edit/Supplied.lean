import QueryEditor.Proofs.Edit.Names

namespace QueryEditor

open Text

/-- Selections and values with names throughout and no inline fragment that selects nothing. -/
@[simps!]
def Check.supplied : Check :=
  names.and selections

/-- Whether what the user supplies goes by names. A name by itself may be left empty. -/
def Edit.isWellNamed : Edit → Bool
  | .setChildren _ _ children => children.all (Selection.all .supplied)
  | .toggleSpread _ _ fragment => fragment == "" || isName fragment
  | .setArgument _ _ (.variable name) => name == "" || isName name
  | .setArgument _ _ (.literal value) => value.all .supplied
  | .setInputFields _ _ fields => Value.allSlots .supplied fields
  | .rename _ name => name == "" || isName name
  | _ => true

namespace Value

theorem supplied_edited {value : Value} (supplied : value.all .supplied = true) :
    value.all .edited = true := by
  rw [Check.supplied, all_and, Bool.and_eq_true] at supplied
  exact names_edited supplied.1

theorem allSlots_supplied_edited {slots : List Slot} (supplied : allSlots .supplied slots = true) :
    allSlots .edited slots = true := by
  rw [allSlots_iff] at supplied ⊢
  intro slot member
  obtain ⟨name, value⟩ := supplied slot member
  exact ⟨by simpa using name, supplied_edited value⟩

end Value

theorem Directive.supplied_edited {directives : List Directive}
    (supplied : directives.all (Directive.all .supplied) = true) :
    directives.all (Directive.all .edited) = true := by
  rw [List.all_eq_true] at supplied ⊢
  intro directive member
  have whole := supplied directive member
  rw [Directive.all, Bool.and_eq_true] at whole ⊢
  exact ⟨by simpa using whole.1,
    Value.allSlots_supplied_edited whole.2⟩

theorem Selection.supplied_edited {selection : Selection}
    (supplied : selection.all .supplied = true) : selection.all .edited = true := by
  induction selection using Selection.inductionOn with
  | field node ih =>
    simp only [all_field, Bool.and_eq_true, List.all_eq_true (l := node.children)] at supplied ⊢
    obtain ⟨⟨⟨name, arguments⟩, directives⟩, children⟩ := supplied
    refine ⟨⟨⟨?_, Value.allSlots_supplied_edited arguments⟩,
      Directive.supplied_edited directives⟩, fun child member => ih child member (children child member)⟩
    simpa using name
  | spread node =>
    rw [all_spread, Bool.and_eq_true] at supplied ⊢
    have name : isName node.fragment = true := by
      simpa using supplied.1
    exact ⟨by simp [name], Directive.supplied_edited supplied.2⟩
  | inline node ih =>
    simp only [all_inline, Bool.and_eq_true, List.all_eq_true] at supplied ⊢
    obtain ⟨⟨condition, directives⟩, children⟩ := supplied
    refine ⟨⟨?_, ?_⟩, fun child member => ih child member (children child member)⟩
    · simpa using condition
    · exact List.all_eq_true.mp (Directive.supplied_edited (List.all_eq_true.mpr directives))

theorem Edit.supplies_edited {edit : Edit} (named : edit.isWellNamed = true) :
    edit.Supplies .edited := by
  cases edit with
  | setChildren id path children =>
    rw [Edit.isWellNamed, List.all_eq_true] at named
    exact List.all_eq_true.mpr fun child member => Selection.supplied_edited (named child member)
  | toggleSpread id path fragment => exact named
  | setArgument id path input =>
    cases input with
    | «variable» name => exact named
    | literal value => exact Value.supplied_edited named
    | _ => trivial
  | setInputFields id path fields => exact Value.allSlots_supplied_edited named
  | rename id name =>
    rw [Edit.isWellNamed, Bool.or_eq_true, beq_iff_eq] at named
    intro definition good
    cases definition with
    | operation op =>
      simp only [Definition.renamed, Definition.all, Bool.and_eq_true, Check.edited_operation] at good ⊢
      refine ⟨⟨⟨⟨?_, good.1.1.1.2⟩, good.1.1.2⟩, good.1.2⟩, good.2⟩
      split
      · rfl
      · exact named.resolve_left ‹_›
    | fragment frag =>
      rw [Definition.renamed]
      split
      · exact good
      · simp only [Definition.all, Bool.and_eq_true, Check.edited_fragment] at good ⊢
        exact ⟨⟨⟨named.resolve_left ‹_›, good.1.1.2⟩, good.1.2⟩, good.2⟩
  | _ => trivial

end QueryEditor
