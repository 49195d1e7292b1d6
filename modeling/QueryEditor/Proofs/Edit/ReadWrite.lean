import QueryEditor.Proofs.Edit.Exchange

namespace QueryEditor

open Selections

namespace Selections

theorem normalize_eq_self {selections : List Selection} :
    normalize selections = selections ↔ selections = [.leaf typenameField] ∨
      selections ≠ [] ∧ ∀ s ∈ selections, s.isFieldNamed typenameField = false := by
  unfold normalize
  constructor
  · intro normal
    split at normal
    · exact Or.inl normal.symm
    case h_2 some =>
      refine Or.inr ⟨normal ▸ some, fun s member => ?_⟩
      have kept := List.filter_eq_self.mp normal s member
      simpa using kept
  · rintro (rfl | ⟨nonempty, free⟩)
    · rfl
    · have kept : selections.filter (!·.isFieldNamed typenameField) = selections :=
        List.filter_eq_self.mpr fun s member => by simp [free s member]
      rw [kept]
      split
      · exact absurd rfl nonempty
      · rfl

theorem normalize_of_names {before after : List Selection} (apart : before ≠ [.leaf typenameField])
    (normal : normalize before = before)
    (same : after.map (·.isFieldNamed typenameField) = before.map (·.isFieldNamed typenameField)) :
    normalize after = after := by
  rcases normalize_eq_self.mp normal with alone | ⟨nonempty, free⟩
  · exact absurd alone apart
  · refine normalize_eq_self.mpr (Or.inr ⟨?_, fun s member => ?_⟩)
    · rintro rfl
      exact nonempty (List.map_eq_nil_iff.mp same.symm)
    · have there : s.isFieldNamed typenameField ∈ before.map (·.isFieldNamed typenameField) :=
        same ▸ List.mem_map_of_mem member
      obtain ⟨t, before', equal⟩ := List.mem_map.mp there
      rw [← equal]
      exact free t before'

namespace Exchange

variable {old new : Value} {names segments : List String} {before after : List Selection}

theorem isFieldNamed (exchange : Exchange old new names segments before after) (name : String) :
    after.map (·.isFieldNamed name) = before.map (·.isFieldNamed name) := by
  induction exchange with
  | argument => rfl
  | beneath => rfl
  | behind _ _ ih => simp only [List.map_cons, ih]

theorem normalize (exchange : Exchange old new names segments before after)
    (normal : Selections.normalize before = before) : Selections.normalize after = after := by
  apply normalize_of_names _ normal (exchange.isFieldNamed typenameField)
  rintro rfl
  cases exchange with
  | argument inside => cases inside
  | beneath inside => cases inside
  | behind _ further => cases further

end Exchange

end Selections

/-- A definition with other selections. Those of an operation are normalized. -/
def Definition.rooted (selections : List Selection) : Definition → Definition
  | operation op => .operation { op with selections := Selections.normalize selections }
  | fragment frag => .fragment { frag with selections }

theorem Definition.rooted_rooted (d : Definition) (first second : List Selection) :
    (d.rooted first).rooted second = d.rooted second := by
  cases d <;> rfl

namespace ArgumentPath

def names (path : ArgumentPath) : List String :=
  path.argument :: path.inputFields

/-- Whether one address lies on the way to the other, or is the other. -/
def Overlaps (path other : ArgumentPath) : Prop :=
  path.field = other.field ∧ (path.names <+: other.names ∨ other.names <+: path.names)

end ArgumentPath

namespace Document

variable {doc after : Document} {id : DefinitionId} {path : ArgumentPath} {old new : Value}

theorem valueAt_eq (doc : Document) (id : DefinitionId) (path : ArgumentPath) :
    doc.valueAt id path = match doc.definition? id with
      | none => .error (.unknownDefinition id)
      | some d => (Selections.valueAt? d.selections path.field.segments path.argument
          path.inputFields).getD (.error (.missingField path.field)) := by
  unfold valueAt
  cases doc.definition? id with
  | none => rfl
  | some d =>
    dsimp only [valueAt?]
    cases fieldAt? d.selections path.field.segments <;> rfl

theorem valueAt_ok : doc.valueAt id path = .ok old ↔ ∃ d, doc.definition? id = some d ∧
    Selections.valueAt? d.selections path.field.segments path.argument path.inputFields =
      some (.ok old) := by
  rw [valueAt_eq]
  cases doc.definition? id with
  | none => simp
  | some d =>
    cases there : Selections.valueAt? d.selections path.field.segments path.argument path.inputFields <;>
      simp [there]

theorem updateSlots_replace (doc : Document) (id : DefinitionId) (path : ArgumentPath) (new : Value)
    (nonempty : path.field.segments ≠ []) : ∃ outer missing,
    doc.updateSlots id path (Slots.replace path.leafName new) = match doc.definition? id with
      | none => .error (.unknownDefinition id)
      | some d => (Selections.write outer missing new path.argument path.inputFields
          path.field.segments d.selections).map fun result =>
            ⟨doc.definitions.set id (d.rooted result.1)⟩ := by
  obtain ⟨⟨segments⟩, argument, inputs⟩ := path
  obtain ⟨first, more, rfl⟩ := List.exists_cons_of_ne_nil nonempty
  refine ⟨.missingField ⟨(first :: more).dropLast⟩, .missingField ⟨first :: more⟩, ?_⟩
  have split : splitPath ⟨first :: more⟩ =
      .ok (⟨(first :: more).dropLast⟩, (first :: more).getLastD "") := by
    simp only [splitPath, FieldPath.split?, FieldPath.last?, List.getLast?_cons,
      List.getLastD_eq_getLast?, Option.map_some, Option.getD_some]
  rw [updateSlots, editSlots, split]
  change (doc.updateDefinition id (Definition.updateSelections
    (Selections.write _ _ new argument inputs (first :: more))) >>= fun result => pure result.1) = _
  rw [updateDefinition]
  cases doc.definition? id with
  | none => rfl
  | some d =>
    cases d with
    | operation op =>
      dsimp only [Definition.updateSelections, Definition.selections]
      cases Selections.write _ _ new argument inputs (first :: more) op.selections <;> rfl
    | fragment frag =>
      dsimp only [Definition.updateSelections, Definition.selections]
      cases Selections.write _ _ new argument inputs (first :: more) frag.selections <;> rfl

theorem updateSlots_root (id : DefinitionId) (path : ArgumentPath) (new : Value)
    (root : path.field.segments = []) :
    doc.updateSlots id path (Slots.replace path.leafName new) = .error (.missingField path.field) := by
  obtain ⟨⟨segments⟩, argument, inputs⟩ := path
  cases root
  rfl

theorem updateSlots_ok : doc.updateSlots id path (Slots.replace path.leafName new) = .ok after ↔
    ∃ d old selections, doc.definition? id = some d ∧
      Exchange old new path.names path.field.segments d.selections selections ∧
      after = ⟨doc.definitions.set id (d.rooted selections)⟩ := by
  constructor
  · intro done
    have nonempty : path.field.segments ≠ [] := fun root => by
      rw [updateSlots_root id path new root] at done
      cases done
    obtain ⟨outer, missing, writes⟩ := doc.updateSlots_replace id path new nonempty
    rw [writes] at done
    cases there : doc.definition? id with
    | none =>
      rw [there] at done
      cases done
    | some d =>
      rw [there] at done
      obtain ⟨result, written, rfl⟩ := Edited.map_eq_ok.mp done
      obtain ⟨old, exchange⟩ := exists_exchange_of_write nonempty written
      exact ⟨d, old, result.1, rfl, exchange, rfl⟩
  · rintro ⟨d, old, selections, there, exchange, rfl⟩
    have nonempty : path.field.segments ≠ [] := fun root => by
      rw [root] at exchange
      cases exchange
    obtain ⟨outer, missing, writes⟩ := doc.updateSlots_replace id path new nonempty
    rw [writes, there]
    dsimp only
    rw [exchange.write outer missing]
    rfl

/-- The root selections of every operation are as an edit leaves them. -/
def Normalized (doc : Document) : Prop :=
  ∀ op, .operation op ∈ doc.definitions → Selections.normalize op.selections = op.selections

theorem rooted_selections (normalized : doc.Normalized) {d : Definition}
    (there : doc.definition? id = some d) {names segments : List String} {selections : List Selection}
    (exchange : Exchange old new names segments d.selections selections) :
    (d.rooted selections).selections = selections := by
  cases d with
  | operation op => exact exchange.normalize (normalized op (List.mem_of_getElem? there))
  | fragment frag => rfl

theorem rooted_self (normalized : doc.Normalized) {d : Definition}
    (there : doc.definition? id = some d) : d.rooted d.selections = d := by
  cases d with
  | operation op =>
    have normal := normalized op (List.mem_of_getElem? there)
    rw [Definition.rooted, Definition.selections, normal]
  | fragment frag => rfl

theorem id_lt_length {d : Definition} (there : doc.definition? id = some d) :
    id < doc.definitions.length :=
  (List.getElem?_eq_some_iff.mp there).1

theorem definition?_set {d other : Definition} (there : doc.definition? id = some d)
    (id' : DefinitionId) :
    definition? ⟨doc.definitions.set id other⟩ id' =
      if id' = id then some other else doc.definition? id' := by
  have bound := id_lt_length there
  rw [definition?, List.getElem?_set]
  by_cases same : id' = id
  · subst same
    simp [bound]
  · rw [if_neg (Ne.symm same), if_neg same]
    rfl

theorem set_definition_self {d : Definition} (there : doc.definition? id = some d) :
    (⟨doc.definitions.set id d⟩ : Document) = doc := by
  obtain ⟨bound, rfl⟩ := List.getElem?_eq_some_iff.mp there
  rw [List.set_getElem_self]

theorem set_definition_inj {d e : Definition} (bound : id < doc.definitions.length) :
    (⟨doc.definitions.set id d⟩ : Document) = ⟨doc.definitions.set id e⟩ ↔ d = e := by
  constructor
  · intro same
    have there := congrArg (fun doc : Document => doc.definitions[id]?) same
    dsimp only at there
    rw [List.getElem?_set_self bound, List.getElem?_set_self bound] at there
    exact Option.some.inj there
  · rintro rfl
    rfl

theorem valueAt_written (normalized : doc.Normalized)
    (done : doc.updateSlots id path (Slots.replace path.leafName new) = .ok after) :
    after.valueAt id path = .ok new := by
  obtain ⟨d, old, selections, there, exchange, rfl⟩ := updateSlots_ok.mp done
  refine valueAt_ok.mpr ⟨d.rooted selections, ?_, ?_⟩
  · rw [definition?_set there, if_pos rfl]
  · rw [rooted_selections normalized there exchange]
    exact exchange.symm.valueAt?

theorem valueAt_apart (normalized : doc.Normalized)
    (done : doc.updateSlots id path (Slots.replace path.leafName new) = .ok after)
    {id' : DefinitionId} {path' : ArgumentPath} (apart : id' ≠ id ∨ ¬ path'.Overlaps path) :
    after.valueAt id' path' = doc.valueAt id' path' := by
  obtain ⟨d, old, selections, there, exchange, rfl⟩ := updateSlots_ok.mp done
  rw [valueAt_eq, valueAt_eq, definition?_set there]
  by_cases same : id' = id
  · subst same
    have elsewhere := apart.resolve_left fun differs => differs rfl
    have apart' : path'.field.segments ≠ path.field.segments ∨
        ¬ path.names <+: path'.names ∧ ¬ path'.names <+: path.names := by
      by_cases field : path'.field = path.field
      · exact Or.inr ⟨fun longer => elsewhere ⟨field, Or.inr longer⟩,
          fun shorter => elsewhere ⟨field, Or.inl shorter⟩⟩
      · exact Or.inl fun segments => field (congrArg FieldPath.mk segments)
    rw [if_pos rfl, there]
    dsimp only
    rw [rooted_selections normalized there exchange, exchange.valueAt?_apart apart']
  · rw [if_neg same]

theorem write_read (normalized : doc.Normalized) (found : doc.valueAt id path = .ok old) :
    doc.updateSlots id path (Slots.replace path.leafName old) = .ok doc := by
  obtain ⟨d, there, found⟩ := valueAt_ok.mp found
  refine updateSlots_ok.mpr ⟨d, old, d.selections, there, exchange_of_valueAt? found, ?_⟩
  rw [rooted_self normalized there, set_definition_self there]

theorem valueAt_ok_iff_updateSlots (doc : Document) (id : DefinitionId) (path : ArgumentPath)
    (new : Value) : (∃ old, doc.valueAt id path = .ok old) ↔
      ∃ after, doc.updateSlots id path (Slots.replace path.leafName new) = .ok after := by
  constructor
  · rintro ⟨old, found⟩
    obtain ⟨d, there, found⟩ := valueAt_ok.mp found
    obtain ⟨selections, exchange⟩ := exists_exchange_of_valueAt? found new
    exact ⟨_, updateSlots_ok.mpr ⟨d, old, selections, there, exchange, rfl⟩⟩
  · rintro ⟨after, done⟩
    obtain ⟨d, old, selections, there, exchange, rfl⟩ := updateSlots_ok.mp done
    exact ⟨old, valueAt_ok.mpr ⟨d, there, exchange.valueAt?⟩⟩

/-- A value can be written where one can be read. It is then what is read there; what is read at any
other address stays, unless one address lies on the way to the other; and writing what was read changes
nothing. -/
theorem read_write_slot (normalized : doc.Normalized) (id : DefinitionId) (path : ArgumentPath)
    (value : Value) :
    let write (v : Value) := doc.updateSlots id path (Slots.replace path.leafName v)
    ((∃ held, doc.valueAt id path = .ok held) ↔ ∃ after, write value = .ok after) ∧
    (∀ after, write value = .ok after → after.valueAt id path = .ok value ∧
      ∀ id' path', id' ≠ id ∨ ¬ path'.Overlaps path →
        after.valueAt id' path' = doc.valueAt id' path') ∧
    (∀ held, doc.valueAt id path = .ok held → write held = .ok doc) :=
  ⟨doc.valueAt_ok_iff_updateSlots id path value,
    fun _ done => ⟨valueAt_written normalized done, fun _ _ => valueAt_apart normalized done⟩,
    fun _ => write_read normalized⟩

/-- The document `{ a(x: {k: 1, k: 2}, x: 3) a(x: 4) b }`. -/
def repeatedSlots : Document :=
  ⟨[.operation { kind := .query, selections := [
    .field { name := "a", arguments := [
      ⟨"x", .object [⟨"k", .int 1⟩, ⟨"k", .int 2⟩]⟩, ⟨"x", .int 3⟩] },
    .field { name := "a", arguments := [⟨"x", .int 4⟩] }, .leaf "b"] }]⟩

theorem repeatedSlots_normalized : repeatedSlots.Normalized := by
  intro op member
  rw [repeatedSlots, List.mem_singleton] at member
  cases member
  rfl

/-- Of the slots of one name the first is read and written. -/
theorem read_write_repeatedSlots :
    let path : ArgumentPath := ⟨⟨["a"]⟩, "x", ["k"]⟩
    repeatedSlots.Normalized ∧ repeatedSlots.valueAt 0 path = .ok (.int 1) ∧
    repeatedSlots.updateSlots 0 path (Slots.replace path.leafName (.int 1)) = .ok repeatedSlots ∧
    ∃ after, repeatedSlots.updateSlots 0 path (Slots.replace path.leafName (.int 5)) = .ok after ∧
      after.valueAt 0 path = .ok (.int 5) := by
  have held : repeatedSlots.valueAt 0 ⟨⟨["a"]⟩, "x", ["k"]⟩ = .ok (.int 1) := rfl
  obtain ⟨possible, written, unchanged⟩ :=
    read_write_slot repeatedSlots_normalized 0 ⟨⟨["a"]⟩, "x", ["k"]⟩ (.int 5)
  obtain ⟨after, done⟩ := possible.mp ⟨_, held⟩
  exact ⟨repeatedSlots_normalized, held, unchanged _ held, after, done, (written after done).1⟩

end Document

end QueryEditor
