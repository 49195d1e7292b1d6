import QueryEditor.Proofs.Edit.Framed
import QueryEditor.Proofs.Edit.Toggles

namespace QueryEditor

namespace Selections

variable {field : Field} {selections others : List Selection}

theorem besides_normalize (selections : List Selection) :
    besides typenameField (normalize selections) = besides typenameField selections := by
  rw [besides, normalize_filter]
  split
  case isTrue empty => exact empty.symm
  case isFalse => exact List.filter_filter.trans (by simp only [Bool.and_self]; rfl)

theorem normalize_congr (same : besides typenameField selections = besides typenameField others) :
    normalize selections = normalize others := by
  rw [normalize_filter, normalize_filter]
  exact congrArg (fun kept => if kept = [] then [.leaf typenameField] else kept) same

theorem normalize_normalize_append (selections added : List Selection) :
    normalize (normalize selections ++ added) = normalize (selections ++ added) := by
  apply normalize_congr
  have same := besides_normalize selections
  rw [besides, besides] at *
  rw [List.filter_append, List.filter_append, same]

theorem normalize_besides_normalize (name : String) (selections : List Selection) :
    normalize (besides name (normalize selections)) = normalize (besides name selections) := by
  apply normalize_congr
  have swapped (list : List Selection) :
      besides typenameField (besides name list) = besides name (besides typenameField list) := by
    simp only [besides, List.filter_filter, Bool.and_comm]
  rw [swapped, swapped, besides_normalize]

theorem filter_named_normalize {name : String} (other : name ≠ typenameField)
    (selections : List Selection) :
    (normalize selections).filter (·.isFieldNamed name) = selections.filter (·.isFieldNamed name) := by
  apply filter_normalize
  intro s called
  rcases isFieldNamed_cases name s with different | ⟨node, rfl, rfl⟩
  · rw [different] at called
    cases called
  · simpa [Selection.isFieldNamed] using other

theorem toggleField_anew (schema : Schema) (policy : Policy)
    (unselected : selections.filter (·.isFieldNamed field.name) = [])
    (other : field.name ≠ typenameField) :
    let toggle list := (toggleField schema policy field none list).selections
    toggle (toggle selections) = selections ∧
      normalize (toggle (normalize (toggle selections))) = normalize (toggle (toggle selections)) := by
  intro toggle
  let node : FieldSelection :=
    { name := field.name, arguments := Defaults.arguments schema policy field }
  have selects : toggle selections = selections ++ [.field node] := by
    simp only [toggle, toggleField_unselected schema policy none unselected, Option.getD_none, node]
  have takesAway {list : List Selection}
      (once : list.filter (·.isFieldNamed field.name) = [.field node]) :
      toggle list = besides field.name list := by
    simp only [toggle, toggleField_once schema policy none once, besides]
  have once := filter_named_append node unselected
  rw [selects, takesAway once, takesAway ((filter_named_normalize other _).trans once)]
  exact ⟨besides_append node unselected, normalize_besides_normalize _ _⟩

theorem toggleField_back (schema : Schema) (policy : Policy) {node : FieldSelection}
    (once : selections.filter (·.isFieldNamed field.name) = [.field node])
    (other : field.name ≠ typenameField) :
    let toggle previous list := (toggleField schema policy field previous list).selections
    let left := toggle none selections
    toggle (some node) left = besides field.name selections ++ [.field node] ∧
      normalize (toggle (some node) (normalize left)) = normalize (toggle (some node) left) := by
  intro toggle left
  have takesAway : left = besides field.name selections := by
    simp only [left, toggle, toggleField_once schema policy none once, besides]
  have putsBack {list : List Selection} (unselected : list.filter (·.isFieldNamed field.name) = []) :
      toggle (some node) list = list ++ [.field node] := by
    simp only [toggle, toggleField_unselected schema policy (some node) unselected, Option.getD_some]
  have unselected := filter_named_besides field.name selections
  rw [takesAway, putsBack unselected, putsBack ((filter_named_normalize other _).trans unselected)]
  exact ⟨rfl, normalize_normalize_append _ _⟩

end Selections

namespace Document

variable {doc : Document} {id : DefinitionId} {path : FieldPath} {d : Definition}
  {list : List Selection}

/-- Two edits at a path leave what the second one makes of the list that the first one leaves. That list is
normalized in between if it is a root, so the second edit has to be one to which this makes no difference. -/
theorem updateSelections_again (there : doc.definition? id = some d)
    (held : Selections.within? path.segments d.selections = some list)
    (kept : ¬ d.Discards path.segments) (new : List Selection) (edit : List Selection → List Selection)
    (respects : Selections.normalize (edit (Selections.normalize new)) =
      Selections.normalize (edit new)) :
    updateSelections ⟨doc.definitions.set id
        (d.rooted (Selections.putWithin new path.segments d.selections))⟩ id path
          (fun selections => .ok (edit selections)) =
      .ok ⟨doc.definitions.set id
        (d.rooted (Selections.putWithin (edit new) path.segments d.selections))⟩ := by
  have there' (once : Definition) : definition? ⟨doc.definitions.set id once⟩ id = some once := by
    rw [definition?_set there, if_pos rfl]
  rcases path with ⟨segments⟩
  by_cases below : segments = []
  · subst below
    refine updateSelections_ok.mpr ⟨_, _, _, there' _, rfl, rfl, ?_⟩
    rw [List.set_set]
    cases d with
    | operation op => simp only [Definition.rooted, Definition.selections, Selections.putWithin, respects]
    | fragment frag => rfl
  · -- Beneath the root the second list takes the place of the first one.
    have first := (Selections.grafted_putWithin held new).rooted below kept
    have whole := (Selections.grafted_putWithin held (edit new)).rooted below kept
    have held' := (Selections.grafted_iff.mp first.symm).1
    have same := (first.trans (Selections.grafted_putWithin held' (edit new))).unique whole
    refine updateSelections_ok.mpr ⟨_, _, _, there' _, held', rfl, ?_⟩
    rw [List.set_set, same, Definition.rooted_rooted, Definition.rooted_selections_rooted]

/-- A field that is not selected is not selected after two toggles, and nothing is changed. A field that is
selected once is put back as it was, at the end of its list. The root of an operation is normalized. -/
theorem toggleField_twice {schema : Schema} {policy : Policy} {field : Field}
    (there : doc.definition? id = some d)
    (held : Selections.within? path.segments d.selections = some list)
    (kept : ¬ d.Discards path.segments) (other : field.name ≠ typenameField) :
    let toggle previous list := (Selections.toggleField schema policy field previous list).selections
    let removed := (Selections.toggleField schema policy field none list).removed
    ∃ once, doc.updateSelections id path (fun list => .ok (toggle none list)) = .ok once ∧
      (list.filter (·.isFieldNamed field.name) = [] → removed = none ∧
        once.updateSelections id path (fun list => .ok (toggle removed list)) =
          .ok ⟨doc.definitions.set id (d.rooted d.selections)⟩) ∧
      ∀ node, list.filter (·.isFieldNamed field.name) = [.field node] → removed = some node ∧ ∃ moved,
        Selections.Grafted list (Selections.besides field.name list ++ [.field node]) path.segments
          d.selections moved ∧
        once.updateSelections id path (fun list => .ok (toggle removed list)) =
          .ok ⟨doc.definitions.set id (d.rooted moved)⟩ := by
  intro toggle removed
  refine ⟨_, updateSelections_ok.mpr ⟨d, list, _, there, held, rfl, rfl⟩, ?_, ?_⟩
  · intro unselected
    have nothing : removed = none := by
      simp only [removed, Selections.toggleField_unselected schema policy none unselected]
    have anew := Selections.toggleField_anew schema policy unselected other
    have back : toggle none (toggle none list) = list := anew.1
    have again := updateSelections_again there held kept (toggle none list) (toggle none) anew.2
    rw [back, Selections.putWithin_found held] at again
    rw [nothing]
    exact ⟨rfl, again⟩
  · intro node once
    have taken : removed = some node := by
      simp only [removed, Selections.toggleField_once schema policy none once]
    have restored := Selections.toggleField_back schema policy once other
    have back : toggle (some node) (toggle none list) = Selections.besides field.name list ++ [.field node] :=
      restored.1
    have again :=
      updateSelections_again there held kept (toggle none list) (toggle (some node)) restored.2
    rw [back] at again
    rw [taken]
    exact ⟨rfl, _, Selections.grafted_putWithin held _, again⟩

theorem toggleField_twice_viewer :
    let viewer : Field :=
      { name := "viewer", location := .introspection, parent := "Query", type := .named "User" true }
    let toggle previous list :=
      (Selections.toggleField ⟨.ofList [], "Query", none, none⟩ {} viewer previous list).selections
    let node : FieldSelection :=
      { name := "viewer", aliasName := some "me", children := [.leaf "id"] }
    let op : Operation := { kind := .query, selections := [.field node] }
    let doc : Document := ⟨[.operation op]⟩
    doc.definition? 0 = some (.operation op) ∧
      Selections.within? [] op.selections = some [.field node] ∧
      ¬ Definition.Discards (.operation op) [] ∧ viewer.name ≠ typenameField ∧
      doc.updateSelections 0 ⟨[]⟩ (fun list => .ok (toggle none list)) =
        .ok ⟨[.operation { op with selections := [.leaf typenameField] }]⟩ ∧
      updateSelections ⟨[.operation { op with selections := [.leaf typenameField] }]⟩ 0 ⟨[]⟩
        (fun list => .ok (toggle (some node) list)) = .ok doc := by
  intro viewer toggle node op doc
  have there : doc.definition? 0 = some (.operation op) := rfl
  have held : Selections.within? (FieldPath.mk []).segments op.selections = some [.field node] := rfl
  have kept : ¬ Definition.Discards (.operation op) (FieldPath.mk []).segments := by decide
  have other : viewer.name ≠ typenameField := by decide
  have placeholder : doc.updateSelections 0 ⟨[]⟩ (fun list => .ok (toggle none list)) =
      .ok ⟨[.operation { op with selections := [.leaf typenameField] }]⟩ := rfl
  refine ⟨there, held, kept, other, placeholder, ?_⟩
  rcases toggleField_twice there held kept other with ⟨once, first, -, restored⟩
  cases placeholder.symm.trans first
  rcases restored node (by decide) with ⟨taken, moved, grafted, second⟩
  cases grafted
  rw [taken] at second
  exact second

end Document

end QueryEditor
