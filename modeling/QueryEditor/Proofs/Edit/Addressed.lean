import QueryEditor.Proofs.Edit.Selections

namespace QueryEditor

variable {α : Type}

/-- A check that leaves room for editing: it asks nothing of an object value itself, lets an operation
select something, with `__typename` to stand in, and lets a fragment become empty. -/
structure Check.Editable (check : Check) : Prop where
  objects : ∀ fields, check.value (.object fields) = true
  typename : check.field none typenameField = true
  operation : ∀ name isEmpty, check.operation name isEmpty = true → check.operation name false = true
  fragment : ∀ name condition isEmpty other, check.fragment name condition isEmpty = true →
    check.fragment name condition other = true

variable {check : Check}

theorem Definition.updateSelections_keeps (editable : check.Editable)
    {edit : List Selection → Edited (List Selection × α)} (found : α → Prop)
    (edited : ∀ selections result a, selections.all (Selection.all check) = true →
      edit selections = .ok (result, a) → result.all (Selection.all check) = true ∧ found a)
    {definition result : Definition} {a : α} (good : definition.all check = true)
    (done : definition.updateSelections edit = .ok (result, a)) :
    result.all check = true ∧ found a := by
  cases definition with
  | operation op =>
    obtain ⟨⟨selections, found'⟩, done, same⟩ := Edited.bind_eq_ok.mp done
    cases same
    simp only [Definition.all, Bool.and_eq_true] at good
    obtain ⟨kept, holds⟩ := edited _ _ _ good.2 done
    have filled : (Selections.normalize selections).isEmpty = false :=
      List.isEmpty_eq_false_iff.mpr (Selections.normalize_ne_nil selections)
    simp only [Definition.all, Bool.and_eq_true, filled]
    exact ⟨⟨⟨⟨editable.operation _ _ good.1.1.1, good.1.1.2⟩, good.1.2⟩,
      Selections.normalize_keeps editable.typename kept⟩, holds⟩
  | fragment frag =>
    obtain ⟨⟨selections, found'⟩, done, same⟩ := Edited.bind_eq_ok.mp done
    cases same
    simp only [Definition.all, Bool.and_eq_true] at good
    obtain ⟨kept, holds⟩ := edited _ _ _ good.2 done
    simp only [Definition.all, Bool.and_eq_true]
    exact ⟨⟨⟨editable.fragment _ _ _ _ good.1.1, good.1.2⟩, kept⟩, holds⟩

theorem Named.find?_all {slots : List Slot} {name : String} {value : Value}
    (good : Value.allSlots check slots = true) (found : Named.find? slots name = some value) :
    value.all check = true := by
  obtain ⟨slot, first, rfl⟩ := Option.map_eq_some_iff.mp found
  exact (Value.allSlots_iff.mp good slot (List.mem_of_find?_eq_some first)).2

theorem Slots.valueAt_all {slots : List Slot} {argument : String} {inner : List String}
    {value : Value} (good : Value.allSlots check slots = true)
    (found : valueAt slots argument inner = .ok value) : value.all check = true := by
  induction inner generalizing slots argument with
  | nil =>
    rw [valueAt] at found
    split at found
    case h_1 there =>
      cases found
      exact Named.find?_all good there
    · cases found
  | cons name inner ih =>
    rw [valueAt] at found
    split at found
    case h_1 fields there =>
      have whole := Named.find?_all good there
      rw [Value.all, Bool.and_eq_true] at whole
      exact ih whole.2 found
    · cases found
    · cases found

namespace Selections

theorem field?_all {selections : List Selection} {name : String} {node : FieldSelection}
    (good : selections.all (Selection.all check) = true) (found : field? name selections = some node) :
    (Selection.field node).all check = true := by
  induction selections with
  | nil => cases found
  | cons s rest ih =>
    rw [List.all_cons, Bool.and_eq_true] at good
    cases s with
    | field other =>
      rw [field?] at found
      split at found
      · cases found
        exact good.1
      · exact ih good.2 found
    | _ => exact ih good.2 found

theorem fieldAt?_all {selections : List Selection} {segments : List String} {node : FieldSelection}
    (good : selections.all (Selection.all check) = true)
    (found : fieldAt? selections segments = some node) :
    (Selection.field node).all check = true := by
  induction segments generalizing selections with
  | nil => cases found
  | cons name inner ih =>
    cases inner with
    | nil => exact field?_all good found
    | cons next inner =>
      obtain ⟨outer, first, found⟩ := Option.bind_eq_some_iff.mp found
      exact ih (children_of_all (field?_all good first)) found

end Selections

namespace Document

theorem all_set {doc : Document} {definition : Definition} (good : doc.all check = true)
    (put : definition.all check = true) (id : DefinitionId) :
    (Document.mk (doc.definitions.set id definition)).all check = true := by
  rw [all, List.all_eq_true] at good ⊢
  intro d member
  rcases List.mem_or_eq_of_mem_set member with member | rfl
  · exact good d member
  · exact put

theorem all_append {doc : Document} {definition : Definition} (good : doc.all check = true)
    (put : definition.all check = true) : (doc.append definition).all check = true := by
  rw [all] at good ⊢
  rw [append, List.all_append, good, List.all_cons, put]
  rfl

theorem definition?_all {doc : Document} {id : DefinitionId} {definition : Definition}
    (good : doc.all check = true) (found : doc.definition? id = some definition) :
    definition.all check = true := by
  rw [all, List.all_eq_true] at good
  exact good definition (List.mem_of_getElem? found)

theorem updateDefinition_keeps {edit : Definition → Edited (Definition × α)} (found : α → Prop)
    (edited : ∀ definition result a, definition.all check = true → edit definition = .ok (result, a) →
      result.all check = true ∧ found a)
    {doc result : Document} {id : DefinitionId} {a : α} (good : doc.all check = true)
    (done : doc.updateDefinition id edit = .ok (result, a)) :
    result.all check = true ∧ found a := by
  unfold updateDefinition at done
  split at done
  · cases done
  case h_2 definition there =>
    obtain ⟨⟨definition', found'⟩, done, same⟩ := Edited.bind_eq_ok.mp done
    cases same
    obtain ⟨kept, holds⟩ := edited _ _ _ (definition?_all good there) done
    exact ⟨all_set good kept id, holds⟩

theorem editSelections_keeps (editable : check.Editable)
    {edit : List Selection → Edited (List Selection × α)} (found : α → Prop)
    (edited : ∀ selections result a, selections.all (Selection.all check) = true →
      edit selections = .ok (result, a) → result.all (Selection.all check) = true ∧ found a)
    {doc result : Document} {id : DefinitionId} {path : FieldPath} {a : α}
    (good : doc.all check = true) (done : doc.editSelections id path edit = .ok (result, a)) :
    result.all check = true ∧ found a :=
  updateDefinition_keeps found (fun _ _ _ good done =>
    Definition.updateSelections_keeps editable found
      (fun _ _ _ good done => Selections.updateAt_keeps found edited good done) good done) good done

theorem updateSelections_keeps (editable : check.Editable)
    {edit : List Selection → Edited (List Selection)}
    (edited : ∀ selections result, selections.all (Selection.all check) = true →
      edit selections = .ok result → result.all (Selection.all check) = true)
    {doc result : Document} {id : DefinitionId} {path : FieldPath} (good : doc.all check = true)
    (done : doc.updateSelections id path edit = .ok result) : result.all check = true := by
  obtain ⟨⟨result', _⟩, done, same⟩ := Edited.bind_eq_ok.mp done
  cases same
  refine (editSelections_keeps editable (fun _ => True) (fun selections kept _ good done => ?_)
    good done).1
  obtain ⟨kept', changed, same⟩ := Edited.bind_eq_ok.mp done
  cases same
  exact ⟨edited selections _ good changed, trivial⟩

theorem editSlots_keeps (editable : check.Editable) {edit : List Slot → Edited (List Slot × α)}
    (found : α → Prop)
    (edited : ∀ slots result a, Value.allSlots check slots = true → edit slots = .ok (result, a) →
      Value.allSlots check result = true ∧ found a)
    {doc result : Document} {id : DefinitionId} {path : ArgumentPath} {a : α}
    (good : doc.all check = true) (done : doc.editSlots id path edit = .ok (result, a)) :
    result.all check = true ∧ found a := by
  obtain ⟨⟨parent, name⟩, _, done⟩ := Edited.bind_eq_ok.mp done
  refine editSelections_keeps editable found (fun selections kept a good done =>
    Selections.updateField_keeps found (fun node node' a good done => ?_) good done) good done
  obtain ⟨⟨arguments, found'⟩, done, same⟩ := Edited.bind_eq_ok.mp done
  cases same
  simp only [Selection.all_field, Bool.and_eq_true] at good ⊢
  obtain ⟨kept, holds⟩ := Slots.updateWithin_keeps editable.objects edited good.1.1.2 done
  exact ⟨⟨⟨⟨good.1.1.1, kept⟩, good.1.2⟩, good.2⟩, holds⟩

theorem updateSlots_keeps (editable : check.Editable) {edit : List Slot → Edited (List Slot)}
    (edited : ∀ slots result, Value.allSlots check slots = true → edit slots = .ok result →
      Value.allSlots check result = true)
    {doc result : Document} {id : DefinitionId} {path : ArgumentPath} (good : doc.all check = true)
    (done : doc.updateSlots id path edit = .ok result) : result.all check = true := by
  obtain ⟨⟨result', _⟩, done, same⟩ := Edited.bind_eq_ok.mp done
  cases same
  refine (editSlots_keeps editable (fun _ => True) (fun slots kept _ good done => ?_) good done).1
  obtain ⟨kept', changed, same⟩ := Edited.bind_eq_ok.mp done
  cases same
  exact ⟨edited slots _ good changed, trivial⟩

theorem valueAt_all {doc : Document} {id : DefinitionId} {path : ArgumentPath} {value : Value}
    (good : doc.all check = true) (found : doc.valueAt id path = .ok value) :
    value.all check = true := by
  unfold valueAt at found
  split at found
  · cases found
  case h_2 definition there =>
    split at found
    · cases found
    case h_2 node selected =>
      have selections : definition.selections.all (Selection.all check) = true := by
        have whole := definition?_all good there
        cases definition <;> simp only [Definition.all, Bool.and_eq_true] at whole <;> exact whole.2
      have field := Selections.fieldAt?_all selections selected
      simp only [Selection.all_field, Bool.and_eq_true] at field
      exact Slots.valueAt_all field.1.1.2 found

end Document

end QueryEditor
