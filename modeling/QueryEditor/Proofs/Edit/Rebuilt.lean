import QueryEditor.Proofs.Document.Image
import QueryEditor.Proofs.Edit.Evaluation
import QueryEditor.Proofs.Edit.Toggles

namespace QueryEditor

/-- The ways to make another document of one. A list of selections or of slots can be edited by any
function. -/
inductive Rebuild where
  | selections (id : DefinitionId) (path : FieldPath)
      (edit : List Selection → Edited (List Selection))
  | slots (id : DefinitionId) (path : ArgumentPath) (edit : List Slot → Edited (List Slot))
  | extract (schema : Schema) (id : DefinitionId) (path : FieldPath)
  | promote (schema : Schema) (id : DefinitionId) (path : ArgumentPath)
  | inline (id : DefinitionId) (path : ArgumentPath)
  | rename (id : DefinitionId) (name : String)
  | copy (id : DefinitionId)
  | remove (id : DefinitionId)
  | create (kind : OperationKind)

namespace Rebuild

def perform (doc : Document) : Rebuild → Edited Document
  | selections id path edit => doc.updateSelections id path edit
  | slots id path edit => doc.updateSlots id path edit
  | extract schema id path => Edit.performExtract schema doc id path
  | promote schema id path => doc.promote id path schema
  | inline id path => doc.inline id path
  | rename id name => doc.rename id name
  | copy id => (doc.copy id).map (·.1)
  | remove id => doc.remove id
  | create kind => .ok (doc.create kind).1

def within? : Rebuild → Option DefinitionId
  | selections id _ _ | slots id _ _ | extract _ id _ | promote _ id _ | inline id _ => some id
  | rename _ _ | copy _ | remove _ | create _ => none

end Rebuild

namespace Definition

def IsFilled : Definition → Prop
  | operation op => op.selections ≠ []
  | fragment _ => True

def IsNormal : Definition → Prop
  | operation op => Selections.normalize op.selections = op.selections
  | fragment _ => True

variable {d : Definition}

theorem IsNormal.filled (normal : d.IsNormal) : d.IsFilled := by
  cases d with
  | operation op =>
    have normal : Selections.normalize op.selections = op.selections := normal
    show op.selections ≠ []
    rw [← normal]
    exact Selections.normalize_ne_nil op.selections
  | fragment frag => trivial

theorem rooted_normal (d : Definition) (selections : List Selection) : (d.rooted selections).IsNormal := by
  cases d with
  | operation op => exact Selections.normalize_normalize selections
  | fragment frag => trivial

theorem IsFilled.renamed (filled : d.IsFilled) (name : String) : (d.renamed name).IsFilled := by
  cases d with
  | operation op => exact filled
  | fragment frag =>
    rw [Definition.renamed]
    split <;> trivial

theorem IsFilled.copied (filled : d.IsFilled) : d.copied.IsFilled := by
  cases d with
  | operation op => exact filled
  | fragment frag => trivial

theorem filled_of_grammatical {float : Binary64 → Bool}
    (grammatical : d.all (.grammatical float) = true) : d.IsFilled := by
  cases d with
  | operation op =>
    show op.selections ≠ []
    intro empty
    simp [all, Check.grammatical, empty] at grammatical
  | fragment frag => trivial

end Definition

namespace Document

variable {doc result : Document} {id : DefinitionId}

def Filled (doc : Document) : Prop :=
  ∀ d ∈ doc.definitions, d.IsFilled

/-- There is another definition in the place of one, with a normal root, and perhaps there are new
fragments at the end. -/
def Replaced (doc : Document) (id : DefinitionId) (result : Document) : Prop :=
  ∃ (d : Definition) (added : List Fragment), id < doc.definitions.length ∧ d.IsNormal ∧
    result = ⟨doc.definitions.set id d ++ added.map .fragment⟩

theorem Replaced.normal (replaced : doc.Replaced id result) {d : Definition}
    (there : result.definition? id = some d) : d.IsNormal := by
  rcases replaced with ⟨new, added, bound, normal, rfl⟩
  have first : id < (doc.definitions.set id new).length := by
    rw [List.length_set]
    exact bound
  have same : (doc.definitions.set id new ++ added.map .fragment)[id]? = some new := by
    rw [List.getElem?_append_left first, List.getElem?_set_self bound]
  cases same.symm.trans there
  exact normal

theorem Replaced.filled (replaced : doc.Replaced id result) (filled : doc.Filled) : result.Filled := by
  rcases replaced with ⟨new, added, -, normal, rfl⟩
  intro d member
  rcases List.mem_append.mp member with member | member
  · rcases List.mem_or_eq_of_mem_set member with old | rfl
    · exact filled d old
    · exact normal.filled
  · rcases List.mem_map.mp member with ⟨frag, -, rfl⟩
    trivial

theorem replaced_rooted {d : Definition} (there : doc.definition? id = some d)
    (selections : List Selection) :
    doc.Replaced id ⟨doc.definitions.set id (d.rooted selections)⟩ := by
  refine ⟨_, [], id_lt_length there, d.rooted_normal selections, ?_⟩
  rw [List.map_nil, List.append_nil]

theorem Replaced.updateDeclarations {replaced : Document} (done : doc.Replaced id replaced)
    {change : Operation → List VariableDefinition}
    (changed : replaced.updateDeclarations id change = .ok result) : doc.Replaced id result := by
  rcases Edited.bind_eq_ok.mp changed with ⟨op, there, same⟩
  cases same
  have normal : (Definition.operation op).IsNormal := done.normal (operationAt_ok.mp there)
  rcases done with ⟨d, added, bound, -, rfl⟩
  have first : id < (doc.definitions.set id d).length := by
    rw [List.length_set]
    exact bound
  refine ⟨.operation { op with declarations := change op }, added, bound, normal, ?_⟩
  rw [List.set_append_left _ _ first, List.set_set]

theorem replaced_updateSlots {path : ArgumentPath} {edit : List Slot → Edited (List Slot)}
    (done : doc.updateSlots id path edit = .ok result) : doc.Replaced id result := by
  rcases updateSlots_list.mp done with ⟨d, slots, new, there, -, -, rfl⟩
  exact replaced_rooted there _

theorem replaced_perform {rebuild : Rebuild} (inside : rebuild.within? = some id)
    (done : rebuild.perform doc = .ok result) : doc.Replaced id result := by
  cases rebuild with
  | selections _ path edit =>
    cases inside
    rcases updateSelections_ok.mp done with ⟨d, selections, new, there, -, -, rfl⟩
    exact replaced_rooted there _
  | slots _ path edit =>
    cases inside
    exact replaced_updateSlots done
  | extract schema _ path =>
    cases inside
    rcases Edited.bind_eq_ok.mp done with ⟨⟨parent, name⟩, -, done⟩
    rcases Edited.bind_eq_ok.mp done with ⟨type, -, done⟩
    rcases Edited.bind_eq_ok.mp done with ⟨⟨document, frag⟩, edited, same⟩
    cases same
    rcases editSelections_ok.mp edited with ⟨d, selections, new, there, -, -, rfl⟩
    exact ⟨_, [frag], id_lt_length there, d.rooted_normal _, rfl⟩
  | promote schema _ path =>
    cases inside
    rcases Edited.bind_eq_ok.mp done with ⟨op, -, done⟩
    rcases Edited.bind_eq_ok.mp done with ⟨⟨field, target⟩, -, done⟩
    rcases Edited.bind_eq_ok.mp done with ⟨current, -, done⟩
    rcases Edited.bind_eq_ok.mp done with ⟨replaced, put, changed⟩
    exact (replaced_updateSlots put).updateDeclarations changed
  | inline _ path =>
    cases inside
    rcases Edited.bind_eq_ok.mp done with ⟨op, -, done⟩
    rcases Edited.bind_eq_ok.mp done with ⟨current, -, done⟩
    split at done
    · cases done
    · split at done
      · cases done
      · rcases Edited.bind_eq_ok.mp done with ⟨replaced, put, changed⟩
        exact (replaced_updateSlots put).updateDeclarations changed
  | rename | copy | remove | create => cases inside

theorem Filled.append (filled : doc.Filled) {d : Definition} (new : d.IsFilled) :
    (doc.append d).Filled := by
  intro other member
  rcases List.mem_append.mp member with old | added
  · exact filled other old
  · rw [List.mem_singleton.mp added]
    exact new

theorem Filled.rename (filled : doc.Filled) {name : String} (done : doc.rename id name = .ok result) :
    result.Filled := by
  unfold Document.rename at done
  split at done
  case h_1 d there =>
    cases done
    intro other member
    rcases List.mem_or_eq_of_mem_set member with old | rfl
    · exact filled other old
    · apply Definition.IsFilled.renamed
      exact filled d (List.mem_of_getElem? there)
  case h_2 => cases done

theorem Filled.copy (filled : doc.Filled) {target : ScrollTarget}
    (done : doc.copy id = .ok (result, target)) : result.Filled := by
  unfold Document.copy at done
  split at done
  case h_1 d there =>
    cases done
    apply filled.append
    apply Definition.IsFilled.copied
    exact filled d (List.mem_of_getElem? there)
  case h_2 => cases done

theorem Filled.remove (filled : doc.Filled) (done : doc.remove id = .ok result) : result.Filled := by
  rcases remove_ok.mp done with ⟨-, rfl⟩
  intro other member
  exact filled other (List.mem_of_mem_eraseIdx member)

theorem Filled.create (filled : doc.Filled) (kind : OperationKind) : (doc.create kind).1.Filled := by
  have placeholder : [Selection.leaf typenameField] ≠ [] := List.cons_ne_nil _ _
  unfold Document.create
  split
  case isTrue =>
    intro d member
    rw [List.mem_singleton.mp member]
    exact placeholder
  case isFalse =>
    apply filled.append
    exact placeholder

theorem Filled.perform (filled : doc.Filled) {rebuild : Rebuild}
    (done : rebuild.perform doc = .ok result) : result.Filled := by
  cases inside : rebuild.within? with
  | some id => exact (replaced_perform inside done).filled filled
  | none =>
    cases rebuild with
    | rename id name => exact filled.rename done
    | copy id =>
      rcases Edited.map_eq_ok.mp done with ⟨⟨made, target⟩, copied, rfl⟩
      exact filled.copy copied
    | remove id => exact filled.remove done
    | create kind =>
      cases done
      exact filled.create kind
    | selections | slots | extract | promote | inline => cases inside

/-- What edits make of the standard document and of those that texts parse to. -/
inductive Made : Document → Prop where
  | standard : Made .standard
  | parsed {text : String} {doc : Document} : parse text = .ok doc → Made doc
  | rebuilt {doc result : Document} {rebuild : Rebuild} : Made doc →
      rebuild.perform doc = .ok result → Made result

theorem Made.filled (made : doc.Made) : doc.Filled := by
  induction made with
  | standard =>
    intro d member
    have grammatical := List.all_eq_true.mp standard_grammatical d member
    exact Definition.filled_of_grammatical grammatical
  | parsed parsed =>
    intro d member
    have grammatical := List.all_eq_true.mp (parse_grammatical parsed).2.1 d member
    exact Definition.filled_of_grammatical grammatical
  | rebuilt _ done filled => exact filled.perform done

theorem exists_rebuild {schema : Schema} {policy : Policy} {removed : Removed} {edit : Edit}
    {outcome : EditOutcome} (done : edit.perform schema policy removed doc = .ok outcome) :
    ∃ rebuild : Rebuild, rebuild.perform doc = .ok outcome.document := by
  cases edit with
  | toggleField id path =>
    rcases Edit.performToggleField_ok done with ⟨parent, field, d, inside, -, -, there, held, rfl⟩
    let toggle (selections : List Selection) : Edited (List Selection) :=
      .ok (Selections.toggleField schema policy field (removed.fields.find? (id, path))
        selections).selections
    refine ⟨.selections id parent toggle, ?_⟩
    exact updateSelections_ok.mpr ⟨d, inside, _, there, held, rfl, rfl⟩
  | toggleSpread id path fragment =>
    rcases Edit.performToggleSpread_ok done with ⟨d, inside, there, held, rfl⟩
    let toggle (selections : List Selection) : Edited (List Selection) :=
      .ok (Selections.toggleSpread fragment (removed.spreads.find? (id, path, fragment))
        selections).selections
    refine ⟨.selections id path toggle, ?_⟩
    exact updateSelections_ok.mpr ⟨d, inside, _, there, held, rfl, rfl⟩
  | addArgument id path =>
    rcases Edit.performAddArgument_ok done with
      ⟨field, target, d, slots, new, -, there, held, added, rfl⟩
    exact ⟨.slots id path _, updateSlots_list.mpr ⟨d, slots, new, there, held, added, rfl⟩⟩
  | removeArgument id path =>
    rcases Edit.performRemoveArgument_ok done with ⟨d, slots, there, held, rfl⟩
    let remove (slots : List Slot) : Edited (List Slot) := .ok (Slots.remove path.leafName slots).1
    exact ⟨.slots id path remove, updateSlots_list.mpr ⟨d, slots, _, there, held, rfl, rfl⟩⟩
  | selectAll id path =>
    rcases Edited.map_eq_ok.mp done with ⟨document, selected, rfl⟩
    rcases Edited.bind_eq_ok.mp selected with ⟨⟨parent, name⟩, -, selected⟩
    rcases Edited.bind_eq_ok.mp selected with ⟨field, -, selected⟩
    rcases Edited.bind_eq_ok.mp selected with ⟨type, -, selected⟩
    rcases Edited.bind_eq_ok.mp selected with ⟨names, -, selected⟩
    exact ⟨.selections id parent _, selected⟩
  | selectDefaults id path =>
    rcases Edited.map_eq_ok.mp done with ⟨document, selected, rfl⟩
    rcases Edited.bind_eq_ok.mp selected with ⟨⟨parent, name⟩, -, selected⟩
    rcases Edited.bind_eq_ok.mp selected with ⟨type, -, selected⟩
    exact ⟨.selections id parent _, selected⟩
  | setChildren id path children =>
    rcases Edited.map_eq_ok.mp done with ⟨document, replaced, rfl⟩
    rcases Edited.bind_eq_ok.mp replaced with ⟨⟨parent, name⟩, -, replaced⟩
    exact ⟨.selections id parent _, replaced⟩
  | setArgument id path input =>
    rcases Edited.map_eq_ok.mp done with ⟨document, put, rfl⟩
    rcases Edited.bind_eq_ok.mp put with ⟨⟨field, target⟩, -, put⟩
    rcases Edited.bind_eq_ok.mp put with ⟨type, -, put⟩
    exact ⟨.slots id path _, put⟩
  | setInputFields id path fields =>
    rcases Edited.map_eq_ok.mp done with ⟨document, put, rfl⟩
    exact ⟨.slots id path _, put⟩
  | extract id path =>
    rcases Edited.map_eq_ok.mp done with ⟨document, extracted, rfl⟩
    exact ⟨.extract schema id path, extracted⟩
  | promote id path =>
    rcases Edited.map_eq_ok.mp done with ⟨document, promoted, rfl⟩
    exact ⟨.promote schema id path, promoted⟩
  | inline id path =>
    rcases Edited.map_eq_ok.mp done with ⟨document, inlined, rfl⟩
    exact ⟨.inline id path, inlined⟩
  | rename id name =>
    rcases Edited.map_eq_ok.mp done with ⟨document, renamed, rfl⟩
    exact ⟨.rename id name, renamed⟩
  | copy id =>
    rcases Edited.map_eq_ok.mp done with ⟨made, copied, rfl⟩
    exact ⟨.copy id, Edited.map_eq_ok.mpr ⟨made, copied, rfl⟩⟩
  | remove id =>
    rcases Edited.map_eq_ok.mp done with ⟨document, removes, rfl⟩
    exact ⟨.remove id, removes⟩
  | create kind =>
    cases done
    exact ⟨.create kind, rfl⟩

theorem Made.edited (made : doc.Made) {schema : Schema} {policy : Policy} {removed : Removed}
    {edit : Edit} {outcome : EditOutcome}
    (done : edit.perform schema policy removed doc = .ok outcome) : outcome.document.Made := by
  rcases exists_rebuild done with ⟨rebuild, rebuilt⟩
  exact made.rebuilt rebuilt

/-- In a document that any edits made of a parsed one or of the standard one every operation has
something at its root. What an edit of its selections leaves there is either free of `__typename` or
nothing but `__typename`. -/
theorem Made.never_empty (made : doc.Made) :
    (∀ op, .operation op ∈ doc.definitions → op.selections ≠ []) ∧
    ∀ (rebuild : Rebuild) (id : DefinitionId) (result : Document) (op : Operation),
      rebuild.within? = some id → rebuild.perform doc = .ok result →
      result.definition? id = some (.operation op) →
      (∀ s ∈ op.selections, s.isFieldNamed typenameField = false) ∨
        op.selections = [.leaf typenameField] := by
  constructor
  · intro op member
    exact made.filled (.operation op) member
  · intro rebuild id result op inside done there
    have normal : (Definition.operation op).IsNormal := (replaced_perform inside done).normal there
    rcases Selections.normalize_eq_self.mp normal with alone | ⟨-, free⟩
    · exact Or.inr alone
    · exact Or.inl free

def oneField : Document :=
  ⟨[.operation { kind := .query, selections := [.leaf "a"] }]⟩

/-- With its only field taken away, `{ a }` becomes `{ __typename }`. -/
theorem oneField_never_empty : ∃ (result : Document) (op : Operation),
    let rebuild : Rebuild := .selections 0 ⟨[]⟩ fun _ => .ok []
    oneField.Made ∧ rebuild.perform oneField = .ok result ∧
    result.definition? 0 = some (.operation op) ∧ op.selections ≠ [] ∧
    ((∀ s ∈ op.selections, s.isFieldNamed typenameField = false) ∨
      op.selections = [.leaf typenameField]) := by
  let rebuild : Rebuild := .selections 0 ⟨[]⟩ fun _ => .ok []
  have parsed : parse "\x7b a \x7d" = .ok oneField := by decide +kernel
  have made : oneField.Made := .parsed parsed
  have done : rebuild.perform oneField = .ok _ := rfl
  have filled := (made.rebuilt done).never_empty.1
  have normal := made.never_empty.2 rebuild 0 _ _ rfl done rfl
  exact ⟨_, _, made, done, rfl, filled _ List.mem_cons_self, normal⟩

end Document

end QueryEditor
