import QueryEditor.Proofs.Edit.Framed
import QueryEditor.Proofs.Edit.Toggles

namespace QueryEditor.Selections

variable {name : String} {before after selections : List Selection}

theorem FirstReplaced.besides_eq {old new : FieldSelection}
    (replaced : FirstReplaced name old new before after) : besides name after = besides name before := by
  rcases replaced with ⟨front, rest, -, called, named⟩
  have dropped (node : FieldSelection) (same : node.name = name) :
      besides name (front ++ .field node :: rest) = besides name front ++ besides name rest := by
    simp [besides, Selection.isFieldNamed, same]
  rw [dropped old called, dropped new named]

/-- An edit of the first field of a name. It works exactly if there is such a field and the edit is able to
change it; it changes this one, and all else stays in its place. -/
structure EditsFirst (name : String) (able : FieldSelection → Prop)
    (change : FieldSelection → FieldSelection) (edit : List Selection → Edited (List Selection)) :
    Prop where
  works : ∀ selections, (∃ result, edit selections = .ok result) ↔
    ∃ node, field? name selections = some node ∧ able node
  missing : ∀ selections, field? name selections = none →
    edit selections = .error (.missingField ⟨[name]⟩)
  changes : ∀ selections result, edit selections = .ok result →
    ∃ node, FirstReplaced name node (change node) selections result
  others : ∀ selections result, edit selections = .ok result →
    besides name result = besides name selections

namespace EditsFirst

variable {able : FieldSelection → Prop} {change : FieldSelection → FieldSelection}
  {edit : List Selection → Edited (List Selection)}

theorem mk_of_ok (named : ∀ node, (change node).name = node.name)
    (missing : ∀ selections, field? name selections = none →
      edit selections = .error (.missingField ⟨[name]⟩))
    (done : ∀ selections result, edit selections = .ok result ↔ ∃ node,
      field? name selections = some node ∧ able node ∧ result = putField name (change node) selections) :
    EditsFirst name able change edit := by
  have changes : ∀ selections result, edit selections = .ok result →
      ∃ node, FirstReplaced name node (change node) selections result := by
    intro selections result edited
    rcases (done selections result).mp edited with ⟨node, first, -, rfl⟩
    exact ⟨node, firstReplaced_iff.mpr ⟨first, (named node).trans (field?_name first), rfl⟩⟩
  refine ⟨?_, missing, changes, ?_⟩
  · intro selections
    constructor
    · rintro ⟨result, edited⟩
      rcases (done selections result).mp edited with ⟨node, first, fit, -⟩
      exact ⟨node, first, fit⟩
    · rintro ⟨node, first, fit⟩
      exact ⟨_, (done selections _).mpr ⟨node, first, fit, rfl⟩⟩
  · intro selections result edited
    rcases changes selections result edited with ⟨node, replaced⟩
    exact replaced.besides_eq

end EditsFirst

section Own

theorem updateOwn_eq (name : String) (change : FieldSelection → FieldSelection)
    (selections : List Selection) :
    updateOwn name (fun node => .ok (change node)) selections =
      (field? name selections).elim (.error (.missingField ⟨[name]⟩)) fun node =>
        .ok (putField name (change node) selections) := by
  rw [updateOwn, updateField_eq]
  cases field? name selections <;> rfl

variable {change : FieldSelection → FieldSelection}

theorem editsFirst_updateOwn (name : String) (named : ∀ node, (change node).name = node.name) :
    EditsFirst name (fun _ => True) change (updateOwn name fun node => .ok (change node)) := by
  refine .mk_of_ok named ?_ ?_
  · intro selections nowhere
    rw [updateOwn_eq, nowhere]
    rfl
  · intro selections result
    rw [updateOwn_eq]
    cases field? name selections with
    | none => exact ⟨nofun, nofun⟩
    | some node =>
      constructor
      · intro done
        cases done
        exact ⟨node, rfl, trivial, rfl⟩
      · rintro ⟨_, same, -, rfl⟩
        cases same
        rfl

theorem updateOwn_updateOwn (named : ∀ node, (change node).name = node.name)
    (again : ∀ node, change (change node) = change node) (selections : List Selection) :
    (updateOwn name (fun node => .ok (change node)) selections >>=
        updateOwn name fun node => .ok (change node)) =
      updateOwn name (fun node => .ok (change node)) selections := by
  rw [updateOwn_eq]
  cases first : field? name selections with
  | none => rfl
  | some node =>
    have called : (change node).name = name := (named node).trans (field?_name first)
    show updateOwn name _ (putField name (change node) selections) = _
    rw [updateOwn_eq, field?_putField first called, Option.elim_some, Option.elim_some, again,
      putField_putField called]

end Own

theorem extract_ok {type : String} {taken : List String} {result : List Selection}
    {fragment : Fragment} :
    extract name type taken selections = .ok (result, fragment) ↔ ∃ node,
      field? name selections = some node ∧ node.children ≠ [] ∧
      fragment = { name := Naming.unique (type ++ "Fragment") taken, condition := type,
                   selections := node.children } ∧
      result = putField name { node with children := [.spread { fragment := fragment.name }] }
        selections := by
  rw [extract, updateField_ok]
  constructor
  · rintro ⟨node, new, first, moved, rfl⟩
    split at moved
    case isTrue => cases moved
    case isFalse some =>
      cases moved
      exact ⟨node, first, mt List.isEmpty_iff.mpr some, rfl, rfl⟩
  · rintro ⟨node, first, some, rfl, rfl⟩
    exact ⟨node, _, first, if_neg (mt List.isEmpty_iff.mp some), rfl⟩

theorem editsFirst_extract (name type : String) (taken : List String) :
    EditsFirst name (·.children ≠ [])
      (fun node => { node with children := [.spread { fragment := Naming.unique (type ++ "Fragment") taken }] })
      fun selections => (extract name type taken selections).map (·.1) := by
  refine .mk_of_ok (fun _ => rfl) ?_ ?_
  · intro selections nowhere
    rw [extract, updateField_eq, nowhere]
    rfl
  · intro selections result
    rw [Edited.map_eq_ok]
    constructor
    · rintro ⟨⟨_, fragment⟩, done, rfl⟩
      rcases extract_ok.mp done with ⟨node, first, filled, rfl, rfl⟩
      exact ⟨node, first, filled, rfl⟩
    · rintro ⟨node, first, filled, rfl⟩
      exact ⟨_, extract_ok.mpr ⟨node, first, filled, rfl, rfl⟩, rfl⟩

section Missing

variable {children : List Selection} {names : List String}

theorem any_isFieldNamed_append_leaf (children : List Selection) (name other : String) :
    (children ++ [Selection.leaf name]).any (·.isFieldNamed other) =
      (children.any (·.isFieldNamed other) || name == other) := by
  rw [List.any_append]
  simp [Selection.leaf, Selection.isFieldNamed]

theorem foldl_addMissing (names : List String) (children : List Selection) : ∃ added : List String,
    added.Sublist names ∧ added.Nodup ∧
    (∀ name, name ∈ added ↔ name ∈ names ∧ children.any (·.isFieldNamed name) = false) ∧
    names.foldl addMissing children = children ++ added.map Selection.leaf := by
  induction names generalizing children with
  | nil => exact ⟨[], .slnil, .nil, by simp, (List.append_nil _).symm⟩
  | cons name rest ih =>
    rw [List.foldl_cons, addMissing]
    split
    case isTrue selected =>
      rcases ih children with ⟨added, listed, distinct, exactly, made⟩
      refine ⟨added, listed.cons name, distinct, ?_, made⟩
      intro other
      rw [exactly, List.mem_cons]
      grind
    case isFalse missing =>
      rcases ih (children ++ [.leaf name]) with ⟨added, listed, distinct, exactly, made⟩
      simp only [any_isFieldNamed_append_leaf] at exactly
      refine ⟨name :: added, listed.cons_cons name, ?_, ?_, ?_⟩
      · refine List.nodup_cons.mpr ⟨?_, distinct⟩
        rw [exactly]
        simp
      · intro other
        rw [List.mem_cons, exactly, List.mem_cons]
        grind
      · rw [made, List.append_assoc]
        rfl

theorem any_foldl_addMissing {name : String} (listed : name ∈ names) (children : List Selection) :
    (names.foldl addMissing children).any (·.isFieldNamed name) = true := by
  rcases foldl_addMissing names children with ⟨added, -, -, exactly, made⟩
  rw [made, List.any_append]
  cases selected : children.any (·.isFieldNamed name) with
  | true => rfl
  | false =>
    have member := (exactly name).mpr ⟨listed, selected⟩
    rw [Bool.false_or, List.any_eq_true]
    exact ⟨.leaf name, List.mem_map_of_mem member, by simp [Selection.leaf, Selection.isFieldNamed]⟩

theorem foldl_addMissing_self (all : ∀ name ∈ names, children.any (·.isFieldNamed name) = true) :
    names.foldl addMissing children = children := by
  rcases foldl_addMissing names children with ⟨added, -, -, exactly, made⟩
  have none : added = [] := by
    rw [List.eq_nil_iff_forall_not_mem]
    intro name member
    rcases (exactly name).mp member with ⟨listed, missing⟩
    rw [all name listed] at missing
    cases missing
  rw [made, none, List.map_nil, List.append_nil]

theorem foldl_addMissing_twice (names : List String) (children : List Selection) :
    names.foldl addMissing (names.foldl addMissing children) = names.foldl addMissing children :=
  foldl_addMissing_self fun _ listed => any_foldl_addMissing listed children

theorem selectWithin_selectWithin (name : String) (names : List String)
    (selections : List Selection) :
    (selectWithin name names selections >>= selectWithin name names) =
      selectWithin name names selections := by
  let change (node : FieldSelection) : FieldSelection :=
    { node with children := names.foldl addMissing node.children }
  have named (node : FieldSelection) : (change node).name = node.name := rfl
  have again (node : FieldSelection) : change (change node) = change node := by
    simp only [change, foldl_addMissing_twice]
  exact updateOwn_updateOwn named again selections

end Missing

/-- The edits of a list touch fields of the name they are given, and nothing else. Toggling a field and
selecting all of its subfields leave the other selections as they are, in their order. The other edits change
the children or the arguments of the first field of the name. To select subfields once more makes no
difference. -/
theorem edits_touch_own (schema : Schema) (policy : Policy) (field : Field) (name type : String)
    (names taken : List String) (children : List Selection) (arguments : List Slot) :
    let all := selectAll schema policy field names
    let spread : Selection := .spread { fragment := Naming.unique (type ++ "Fragment") taken }
    (∀ previous selections, (∀ node ∈ previous, node.name = field.name) →
      besides field.name (toggleField schema policy field previous selections).selections =
        besides field.name selections) ∧
    (∀ selections, besides field.name (all selections) = besides field.name selections ∧
      (∃ node, node.name = field.name ∧
        all selections = besides field.name selections ++ [.field node]) ∧
      all (all selections) = all selections) ∧
    EditsFirst name (fun _ => True)
      (fun node => { node with children := names.foldl addMissing node.children })
      (selectWithin name names) ∧
    (∀ kept, ∃ added : List String, added.Sublist names ∧ added.Nodup ∧
      (∀ name, name ∈ added ↔ name ∈ names ∧ kept.any (·.isFieldNamed name) = false) ∧
      names.foldl addMissing kept = kept ++ added.map Selection.leaf) ∧
    (∀ selections, (selectWithin name names selections >>= selectWithin name names) =
      selectWithin name names selections) ∧
    EditsFirst name (fun _ => True) (fun node => { node with children }) (setChildren name children) ∧
    EditsFirst name (fun _ => True) (fun node => { node with arguments })
      (setArguments name arguments) ∧
    EditsFirst name (·.children ≠ []) (fun node => { node with children := [spread] })
      fun selections => (extract name type taken selections).map (·.1) := by
  intro all spread
  refine ⟨?_, ?_, editsFirst_updateOwn name fun _ => rfl, foldl_addMissing names,
    selectWithin_selectWithin name names, editsFirst_updateOwn name fun _ => rfl,
    editsFirst_updateOwn name fun _ => rfl, editsFirst_extract name type taken⟩
  · intro previous selections named
    exact (toggleField_restores schema policy named selections).others
  · intro selections
    let node : FieldSelection :=
      { name := field.name, arguments := Defaults.arguments schema policy field,
        children := names.map Selection.leaf }
    have same : besides field.name (all selections) = besides field.name selections :=
      besides_append node (filter_named_besides field.name selections)
    refine ⟨same, ⟨node, rfl, rfl⟩, ?_⟩
    show besides field.name (all selections) ++ [.field node] = all selections
    rw [same]
    rfl

theorem edits_touch_own_id :
    let field : Field :=
      { name := "id", location := .introspection, parent := "User", type := .named "ID" true }
    let previous : Option FieldSelection := some { name := "id", aliasName := some "key" }
    let selections : List Selection := [.leaf "id", .spread { fragment := "Rest" }, .leaf "id"]
    (∀ node ∈ previous, node.name = field.name) ∧
      besides "id" (toggleField ⟨.ofList [], "Query", none, none⟩ {} field previous selections).selections =
        [.spread { fragment := "Rest" }] := by
  intro field previous selections
  have named : ∀ node ∈ previous, node.name = field.name := by
    intro node before
    cases Option.some.inj before
    rfl
  have touched := edits_touch_own ⟨.ofList [], "Query", none, none⟩ {} field "id" "User" [] [] [] []
  exact ⟨named, touched.1 previous selections named⟩

end QueryEditor.Selections
