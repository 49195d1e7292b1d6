import QueryEditor.Edit.Basic
import QueryEditor.Proofs.Naming
import QueryEditor.Proofs.Edit.Addressed
import QueryEditor.Proofs.Edit.Resolution

namespace QueryEditor

/-- All that a schema, a host and the edits themselves put into a document passes. -/
structure Check.Suits (check : Check) (schema : Schema) (policy : Policy) : Prop
    extends check.Editable where
  null : check.value .null = true
  field : ∀ field, schema.HasField field → check.field none field.name = true ∧
    Value.allSlots check (Defaults.arguments schema policy field) = true
  slot : ∀ field input, schema.HasField field → schema.HasInput input →
    ∀ slot ∈ Defaults.slot schema policy field input,
      check.slot slot.name = true ∧ slot.value.all check = true
  chosen : ∀ type ∈ schema.types.entries, ∀ name ∈ policy.fieldNames schema type,
    check.field none name = true
  literal : ∀ type ∈ schema.types.entries, ∀ raw, (Coercion.literal type raw).all check = true
  extracted : ∀ type ∈ schema.types.entries, ∀ taken,
    check.spread (Naming.unique (type.name ++ "Fragment") taken) = true ∧
      check.fragment (Naming.unique (type.name ++ "Fragment") taken) type.name false = true
  promoted : ∀ input, schema.HasInput input → ∀ taken,
    check.value (.variable (Naming.unique input.name taken)) = true
  declared : ∀ input, schema.HasInput input → ∀ taken,
    VariableDefinition.all check ⟨Naming.unique input.name taken, input.type.toTypeRef, none⟩ = true
  defaulted : ∀ input, schema.HasInput input → ∀ taken op (current : Value),
    (Definition.operation op).all check = true → current.all check = true →
    VariableDefinition.all check ⟨Naming.unique input.name taken, input.type.toTypeRef.nullable,
      some (current.substitute op.defaultOf)⟩ = true
  copiedOperation : ∀ (name : Option String) isEmpty, check.operation name isEmpty = true →
    check.operation (some (name.getD "" ++ "Copy")) isEmpty = true
  copiedFragment : ∀ name condition isEmpty, check.fragment name condition isEmpty = true →
    check.fragment (name ++ "Copy") condition isEmpty = true
  created : ∀ kind count, check.operation (some (Document.operationName kind count)) false = true

/-- What the user puts in passes. A definition is renamed under a name that passes in its place. -/
def Edit.Supplies (check : Check) : Edit → Prop
  | .setChildren _ _ children => children.all (Selection.all check) = true
  | .toggleSpread _ _ fragment => check.spread fragment = true
  | .setArgument _ _ (.variable name) => check.value (.variable name) = true
  | .setArgument _ _ (.literal value) => value.all check = true
  | .setInputFields _ _ fields => Value.allSlots check fields = true
  | .rename _ name => ∀ definition : Definition, definition.all check = true →
    (definition.renamed name).all check = true
  | _ => True

namespace Memory

variable {κ α : Type} [DecidableEq κ]

def All (memory : Memory κ α) (property : α → Prop) : Prop :=
  ∀ entry ∈ memory.entries, property entry.2

variable {memory : Memory κ α} {property : α → Prop}

theorem All.find? (all : memory.All property) {key : κ} : ∀ a ∈ memory.find? key, property a := by
  intro a found
  obtain ⟨entry, first, rfl⟩ := Option.map_eq_some_iff.mp found
  exact all entry (List.mem_of_find?_eq_some first)

theorem All.forget (all : memory.All property) (key : κ) : (memory.forget key).All property :=
  fun entry member => all entry (List.mem_filter.mp member).1

theorem All.remember (all : memory.All property) (key : κ) {a : α} (put : property a) :
    (memory.remember key a).All property := by
  intro entry member
  rcases List.mem_cons.mp member with rfl | member
  · exact put
  · exact all.forget key entry member

theorem All.update (all : memory.All property) (key : κ) {taken : Option α}
    (put : ∀ a ∈ taken, property a) : (memory.update key taken).All property := by
  cases taken with
  | some a => exact all.remember key (put a rfl)
  | none => exact all.forget key

end Memory

structure Removed.Passes (check : Check) (removed : Removed) : Prop where
  fields : removed.fields.All fun node => (Selection.field node).all check = true
  spreads : removed.spreads.All fun node => (Selection.spread node).all check = true
  arguments : removed.arguments.All fun slot =>
    check.slot slot.name = true ∧ slot.value.all check = true

namespace Document

variable {check : Check}

theorem operationAt_all {doc : Document} {id : DefinitionId} {op : Operation}
    (good : doc.all check = true) (found : doc.operationAt id = .ok op) :
    (Definition.operation op).all check = true := by
  unfold operationAt at found
  split at found
  case h_1 there =>
    cases found
    exact definition?_all good there
  · cases found
  · cases found

theorem declaration_all {op : Operation} (good : (Definition.operation op).all check = true)
    {declared : VariableDefinition} (member : declared ∈ op.declarations) :
    declared.all check = true := by
  simp only [Definition.all, Bool.and_eq_true, List.all_eq_true] at good
  exact good.1.1.2 declared member

theorem updateDeclarations_keeps {change : Operation → List VariableDefinition}
    (changed : ∀ op, (Definition.operation op).all check = true →
      (change op).all (VariableDefinition.all check) = true)
    {doc result : Document} {id : DefinitionId} (good : doc.all check = true)
    (done : doc.updateDeclarations id change = .ok result) : result.all check = true := by
  obtain ⟨op, there, same⟩ := Edited.bind_eq_ok.mp done
  cases same
  have whole := operationAt_all good there
  refine all_set good ?_ id
  have kept := changed op whole
  simp only [Definition.all, Bool.and_eq_true] at whole ⊢
  exact ⟨⟨⟨whole.1.1.1, kept⟩, whole.1.2⟩, whole.2⟩

variable {schema : Schema} {policy : Policy}

theorem promote_keeps (suits : check.Suits schema policy) {doc result : Document} {id : DefinitionId}
    {path : ArgumentPath} (good : doc.all check = true)
    (done : doc.promote id path schema = .ok result) : result.all check = true := by
  obtain ⟨op, there, done⟩ := Edited.bind_eq_ok.mp done
  obtain ⟨⟨field, target⟩, resolved, done⟩ := Edited.bind_eq_ok.mp done
  obtain ⟨current, value, done⟩ := Edited.bind_eq_ok.mp done
  obtain ⟨replaced, put, done⟩ := Edited.bind_eq_ok.mp done
  obtain ⟨_, input, named⟩ := Schema.inputAt_has resolved
  have kept : replaced.all check = true :=
    updateSlots_keeps suits.toEditable (fun slots slots' good done =>
      Slots.replace_keeps (named ▸ suits.promoted _ input _) good done) good put
  refine updateDeclarations_keeps (fun op' good' => ?_) kept done
  rw [List.all_append, Bool.and_eq_true]
  constructor
  · exact List.all_eq_true.mpr fun d member => declaration_all good' (List.mem_filter.mp member).1
  · rw [List.all_cons, List.all_nil, Bool.and_true, ← named]
    split
    · exact suits.declared _ input _
    · exact suits.defaulted _ input _ _ _ (operationAt_all good there) (valueAt_all good value)

theorem inline_keeps (editable : check.Editable) (null : check.value .null = true)
    {doc result : Document} {id : DefinitionId} {path : ArgumentPath} (good : doc.all check = true)
    (done : doc.inline id path = .ok result) : result.all check = true := by
  obtain ⟨op, there, done⟩ := Edited.bind_eq_ok.mp done
  obtain ⟨current, value, done⟩ := Edited.bind_eq_ok.mp done
  split at done
  · cases done
  split at done
  · cases done
  case h_2 declared member =>
    obtain ⟨replaced, put, done⟩ := Edited.bind_eq_ok.mp done
    have initial : (declared.default?.getD .null).all check = true := by
      have passes := declaration_all (operationAt_all good there) (List.mem_of_find?_eq_some member)
      rw [VariableDefinition.all, Bool.and_eq_true] at passes
      cases default : declared.default? with
      | none => exact null
      | some value =>
        rw [default] at passes
        exact passes.2
    have kept : replaced.all check = true :=
      updateSlots_keeps editable (fun slots slots' good done =>
        Slots.replace_keeps initial good done) good put
    refine updateDeclarations_keeps (fun op' good' => ?_) kept done
    rw [List.all_eq_true]
    intro d member
    split at member
    · exact declaration_all good' (List.mem_filter.mp member).1
    · exact declaration_all good' member

end Document

namespace Edit

variable {check : Check} {schema : Schema} {policy : Policy} {removed : Removed} {doc : Document}

structure Passes (check : Check) (outcome : EditOutcome) : Prop where
  document : outcome.document.all check = true
  removed : outcome.removed.Passes check

theorem toggleField_passes (suits : check.Suits schema policy) (remembered : removed.Passes check)
    (good : doc.all check = true) {id : DefinitionId} {path : FieldPath} {outcome : EditOutcome}
    (done : performToggleField schema policy removed doc id path = .ok outcome) :
    Passes check outcome := by
  obtain ⟨⟨parent, _⟩, _, done⟩ := Edited.bind_eq_ok.mp done
  obtain ⟨field, there, done⟩ := Edited.bind_eq_ok.mp done
  obtain ⟨⟨document, taken⟩, edited, same⟩ := Edited.bind_eq_ok.mp done
  cases same
  obtain ⟨anew, filled⟩ := suits.field field (Schema.fieldAt_has there)
  obtain ⟨kept, taken'⟩ := Document.editSelections_keeps suits.toEditable
    (fun taken => ∀ node ∈ taken, (Selection.field node).all check = true)
    (fun selections result a good done => by
      cases done
      exact Selections.toggleField_keeps remembered.fields.find? anew filled good) good edited
  exact ⟨kept, remembered.fields.update _ taken', remembered.spreads, remembered.arguments⟩

theorem selectAll_passes (suits : check.Suits schema policy) (good : doc.all check = true)
    {id : DefinitionId} {path : FieldPath} {result : Document}
    (done : performSelectAll schema policy doc id path = .ok result) : result.all check = true := by
  obtain ⟨⟨parent, _⟩, _, done⟩ := Edited.bind_eq_ok.mp done
  obtain ⟨field, there, done⟩ := Edited.bind_eq_ok.mp done
  obtain ⟨type, typed, done⟩ := Edited.bind_eq_ok.mp done
  obtain ⟨names, listed, done⟩ := Edited.bind_eq_ok.mp done
  obtain ⟨anew, filled⟩ := suits.field field (Schema.fieldAt_has there)
  have leaves : ∀ name ∈ names, check.field none name = true := by
    unfold Selections.subfields at listed
    split at listed
    case h_1 type =>
      cases listed
      intro name member
      rw [Catalog.names_eq] at member
      obtain ⟨inner, inside, rfl⟩ := List.mem_map.mp member
      exact (suits.field inner ⟨_, Schema.typeAt_mem typed, type.fields, rfl, inside⟩).1
    · cases listed
  exact Document.updateSelections_keeps suits.toEditable (fun selections kept good done => by
    cases done
    exact Selections.selectAll_keeps anew filled leaves good) good done

theorem selectDefaults_passes (suits : check.Suits schema policy) (good : doc.all check = true)
    {id : DefinitionId} {path : FieldPath} {result : Document}
    (done : performSelectDefaults schema policy doc id path = .ok result) :
    result.all check = true := by
  obtain ⟨⟨parent, name⟩, _, done⟩ := Edited.bind_eq_ok.mp done
  obtain ⟨type, typed, done⟩ := Edited.bind_eq_ok.mp done
  exact Document.updateSelections_keeps suits.toEditable (fun selections kept good done =>
    Selections.selectWithin_keeps (suits.chosen type (Schema.typeAt_mem typed)) good done) good done

theorem setChildren_passes (editable : check.Editable) (good : doc.all check = true)
    {id : DefinitionId} {path : FieldPath} {children : List Selection} {result : Document}
    (supplied : children.all (Selection.all check) = true)
    (done : performSetChildren doc id path children = .ok result) : result.all check = true := by
  obtain ⟨⟨parent, name⟩, _, done⟩ := Edited.bind_eq_ok.mp done
  exact Document.updateSelections_keeps editable (fun selections kept good done =>
    Selections.setChildren_keeps supplied good done) good done

theorem toggleSpread_passes (editable : check.Editable) (remembered : removed.Passes check)
    (good : doc.all check = true) {id : DefinitionId} {path : FieldPath} {fragment : String}
    (supplied : check.spread fragment = true) {outcome : EditOutcome}
    (done : performToggleSpread removed doc id path fragment = .ok outcome) :
    Passes check outcome := by
  obtain ⟨⟨document, taken⟩, edited, same⟩ := Edited.bind_eq_ok.mp done
  cases same
  obtain ⟨kept, taken'⟩ := Document.editSelections_keeps editable
    (fun taken => ∀ node ∈ taken, (Selection.spread node).all check = true)
    (fun selections result a good done => by
      cases done
      exact Selections.toggleSpread_keeps remembered.spreads.find? supplied good) good edited
  exact ⟨kept, remembered.fields, remembered.spreads.update _ taken', remembered.arguments⟩

theorem extract_passes (suits : check.Suits schema policy) (good : doc.all check = true)
    {id : DefinitionId} {path : FieldPath} {result : Document}
    (done : performExtract schema doc id path = .ok result) : result.all check = true := by
  obtain ⟨⟨parent, name⟩, _, done⟩ := Edited.bind_eq_ok.mp done
  obtain ⟨type, typed, done⟩ := Edited.bind_eq_ok.mp done
  obtain ⟨⟨document, fragment⟩, edited, same⟩ := Edited.bind_eq_ok.mp done
  cases same
  obtain ⟨anew, titled⟩ :=
    suits.extracted type (Schema.typeAt_mem typed) (doc.fragments.map (·.2.name))
  obtain ⟨kept, made⟩ := Document.editSelections_keeps suits.toEditable _
    (fun selections result a good done => Selections.extract_keeps anew good done) good edited
  refine Document.all_append kept ?_
  have filled : fragment.selections.isEmpty = false := List.isEmpty_eq_false_iff.mpr made.nonempty
  simp only [Definition.all, Bool.and_eq_true, made.name, made.condition, made.directives, filled]
  exact ⟨⟨titled, rfl⟩, made.selections⟩

theorem addArgument_passes (suits : check.Suits schema policy) (remembered : removed.Passes check)
    (good : doc.all check = true) {id : DefinitionId} {path : ArgumentPath} {outcome : EditOutcome}
    (done : performAddArgument schema policy removed doc id path = .ok outcome) :
    Passes check outcome := by
  obtain ⟨⟨field, target⟩, resolved, done⟩ := Edited.bind_eq_ok.mp done
  obtain ⟨document, edited, same⟩ := Edited.bind_eq_ok.mp done
  cases same
  obtain ⟨has, input, _⟩ := Schema.inputAt_has resolved
  have kept := Document.updateSlots_keeps suits.toEditable (fun slots slots' good done =>
    Slots.add_keeps remembered.arguments.find? (suits.slot field _ has input) good done) good edited
  exact ⟨kept, remembered.fields, remembered.spreads, remembered.arguments.forget _⟩

theorem removeArgument_passes (editable : check.Editable) (remembered : removed.Passes check)
    (good : doc.all check = true) {id : DefinitionId} {path : ArgumentPath} {outcome : EditOutcome}
    (done : performRemoveArgument removed doc id path = .ok outcome) : Passes check outcome := by
  obtain ⟨⟨document, taken⟩, edited, done⟩ := Edited.bind_eq_ok.mp done
  obtain ⟨kept, taken'⟩ := Document.editSlots_keeps editable
    (fun taken => ∀ slot ∈ taken, check.slot slot.name = true ∧ slot.value.all check = true)
    (fun slots result a good done => by
      have kept := Slots.remove_keeps path.leafName good
      rw [Except.ok.inj done] at kept
      exact kept) good edited
  cases taken with
  | some slot =>
    cases done
    exact ⟨kept, remembered.fields, remembered.spreads,
      remembered.arguments.remember _ (taken' slot rfl)⟩
  | none =>
    cases done
    exact ⟨kept, remembered⟩

theorem setArgument_passes (suits : check.Suits schema policy) (good : doc.all check = true)
    {id : DefinitionId} {path : ArgumentPath} {input : SlotInput} {result : Document}
    (supplied : (setArgument id path input).Supplies check)
    (done : performSetArgument schema doc id path input = .ok result) : result.all check = true := by
  obtain ⟨⟨field, target⟩, _, done⟩ := Edited.bind_eq_ok.mp done
  obtain ⟨type, typed, done⟩ := Edited.bind_eq_ok.mp done
  refine Document.updateSlots_keeps suits.toEditable (fun slots slots' good done => ?_) good done
  obtain ⟨value, put, done⟩ := Edited.bind_eq_ok.mp done
  refine Slots.replace_keeps ?_ good done
  cases input with
  | clear =>
    cases put
    exact suits.null
  | literal given =>
    cases put
    exact supplied
  | raw text =>
    rw [Slots.inputValue] at put
    split at put
    · cases put
      exact suits.literal type (Schema.typeNamed_mem typed) text
    · cases put
  | «variable» name =>
    cases put
    exact supplied

theorem copy_passes (suits : check.Suits schema policy) (good : doc.all check = true)
    {id : DefinitionId} {result : Document} {target : ScrollTarget}
    (done : doc.copy id = .ok (result, target)) : result.all check = true := by
  unfold Document.copy at done
  split at done
  case h_1 definition there =>
    cases done
    have whole := Document.definition?_all good there
    refine Document.all_append good ?_
    cases definition with
    | operation op =>
      simp only [Definition.copied, Definition.all, Bool.and_eq_true] at whole ⊢
      exact ⟨⟨⟨suits.copiedOperation _ _ whole.1.1.1, whole.1.1.2⟩, whole.1.2⟩, whole.2⟩
    | fragment frag =>
      simp only [Definition.copied, Definition.all, Bool.and_eq_true] at whole ⊢
      exact ⟨⟨suits.copiedFragment _ _ _ whole.1.1, whole.1.2⟩, whole.2⟩
  case h_2 => cases done

theorem remove_passes (good : doc.all check = true) {id : DefinitionId} {result : Document}
    (done : doc.remove id = .ok result) : result.all check = true := by
  unfold Document.remove at done
  split at done
  · cases done
    rw [Document.all, List.all_eq_true] at good ⊢
    exact fun d member => good d (List.mem_of_mem_eraseIdx member)
  · cases done

theorem rename_passes (good : doc.all check = true) {id : DefinitionId} {name : String}
    {result : Document} (supplied : (rename id name).Supplies check)
    (done : doc.rename id name = .ok result) : result.all check = true := by
  unfold Document.rename at done
  split at done
  case h_1 definition there =>
    cases done
    exact Document.all_set good (supplied definition (Document.definition?_all good there)) id
  case h_2 => cases done

theorem create_passes (suits : check.Suits schema policy) (good : doc.all check = true)
    (kind : OperationKind) : (doc.create kind).1.all check = true := by
  have made : ∀ count, (Definition.operation
      { kind, name := some (Document.operationName kind count),
        selections := [.leaf typenameField] }).all check = true := by
    intro count
    simp [Definition.all, Selection.all_leaf, suits.typename, suits.created kind count]
  unfold Document.create
  dsimp only
  split
  · rw [Document.all, List.all_cons, made]
    rfl
  · obtain ⟨count, named⟩ := Naming.firstUnused_candidate (Document.operationName kind)
      (doc.definitions.filterMap (·.name?)) (doc.definitions.filterMap (·.name?)).length
      (doc.operations.filter (·.2.kind == kind)).length
    rw [Document.freshOperationName, named]
    exact Document.all_append good (made count)

/-- Every edit keeps the check. -/
theorem perform_passes (suits : check.Suits schema policy) (remembered : removed.Passes check)
    (good : doc.all check = true) {edit : Edit} (supplied : edit.Supplies check)
    {outcome : EditOutcome} (done : edit.perform schema policy removed doc = .ok outcome) :
    Passes check outcome := by
  have plain : ∀ {edited : Edited Document}, perform.plain removed edited = .ok outcome →
      (∀ {result}, edited = .ok result → result.all check = true) → Passes check outcome := by
    intro edited done kept
    obtain ⟨result, made, rfl⟩ := Edited.map_eq_ok.mp done
    exact ⟨kept made, remembered⟩
  cases edit with
  | toggleField id path => exact toggleField_passes suits remembered good done
  | selectAll id path => exact plain done (selectAll_passes suits good)
  | selectDefaults id path => exact plain done (selectDefaults_passes suits good)
  | setChildren id path children =>
    exact plain done (setChildren_passes suits.toEditable good supplied)
  | toggleSpread id path fragment =>
    exact toggleSpread_passes suits.toEditable remembered good supplied done
  | extract id path => exact plain done (extract_passes suits good)
  | addArgument id path => exact addArgument_passes suits remembered good done
  | removeArgument id path => exact removeArgument_passes suits.toEditable remembered good done
  | setArgument id path input => exact plain done (setArgument_passes suits good supplied)
  | setInputFields id path fields =>
    refine plain done (Document.updateSlots_keeps suits.toEditable (fun slots slots' good done =>
      Slots.replace_keeps ?_ good done) good)
    rw [Value.all, suits.objects, Bool.true_and]
    exact supplied
  | promote id path => exact plain done (Document.promote_keeps suits good)
  | inline id path => exact plain done (Document.inline_keeps suits.toEditable suits.null good)
  | rename id name => exact plain done (rename_passes good supplied)
  | copy id =>
    obtain ⟨⟨result, target⟩, made, rfl⟩ := Edited.map_eq_ok.mp done
    exact ⟨copy_passes suits good made, remembered⟩
  | remove id => exact plain done (remove_passes good)
  | create kind =>
    cases done
    exact ⟨create_passes suits good kind, remembered⟩

end Edit

end QueryEditor
