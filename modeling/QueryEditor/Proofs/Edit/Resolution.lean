import QueryEditor.Edit.Resolution
import QueryEditor.Proofs.Edit.Slots

namespace QueryEditor

open HasName

theorem FieldPath.split?_some {path parent : FieldPath} {name : String}
    (split : path.split? = some (parent, name)) : path.segments = parent.segments ++ [name] := by
  rcases Option.map_eq_some_iff.mp split with ⟨last, there, same⟩
  cases same
  rcases List.getLast?_eq_some_iff.mp there with ⟨front, whole⟩
  rw [whole, List.dropLast_concat]

theorem Document.splitPath_ok {path parent : FieldPath} {name : String} :
    splitPath path = .ok (parent, name) ↔ path.split? = some (parent, name) := by
  unfold splitPath
  cases path.split? with
  | none => exact ⟨nofun, nofun⟩
  | some split => rw [Except.ok.injEq, Option.some.injEq]

namespace Schema

variable {schema : Schema}

def HasField (schema : Schema) (field : Field) : Prop :=
  ∃ type ∈ schema.types.entries, ∃ fields, fields? type = some fields ∧ field ∈ fields.entries

/-- An argument of a field, or a field of an input object type of the schema. -/
inductive HasInput (schema : Schema) : InputTarget → Prop where
  | argument {field : Field} {input : InputTarget} (has : schema.HasField field)
      (member : input ∈ field.inputs) : HasInput schema input
  | inputField {type : InputObjectType} {input : InputTarget}
      (has : .input type ∈ schema.types.entries) (member : input ∈ type.inputs) :
      HasInput schema input

theorem typeNamed_mem {name : String} {type : TypeDefinition}
    (found : schema.typeNamed name = .ok type) : type ∈ schema.types.entries := by
  unfold typeNamed at found
  split at found
  case h_1 there =>
    cases found
    exact (Catalog.find?_mem there).1
  · cases found

theorem rootTypeOf_mem {doc : Document} {id : DefinitionId} {type : TypeDefinition}
    (found : schema.rootTypeOf doc id = .ok type) : type ∈ schema.types.entries := by
  unfold rootTypeOf at found
  split at found
  · cases found
  · exact typeNamed_mem found
  · split at found
    · exact typeNamed_mem found
    · cases found

theorem fieldOn_named {type : TypeDefinition} {name : String} {field : Field}
    (found : fieldOn type name = .ok field) :
    field.name = name ∧ ∃ fields, fields? type = some fields ∧ field ∈ fields.entries := by
  unfold fieldOn at found
  split at found
  case h_1 there =>
    cases found
    obtain ⟨fields, some, there⟩ := Option.bind_eq_some_iff.mp there
    obtain ⟨member, named⟩ := Catalog.find?_mem there
    exact ⟨named, fields, some, member⟩
  · cases found

theorem descend_mem {type beneath : TypeDefinition} {name : String}
    (found : schema.descend type name = .ok beneath) : beneath ∈ schema.types.entries := by
  obtain ⟨field, _, found⟩ := Edited.bind_eq_ok.mp found
  exact typeNamed_mem found

theorem descents_mem {segments : List String} {type beneath : TypeDefinition}
    (there : type ∈ schema.types.entries)
    (found : segments.foldlM schema.descend type = .ok beneath) : beneath ∈ schema.types.entries := by
  induction segments generalizing type with
  | nil =>
    cases found
    exact there
  | cons name inner ih =>
    rw [List.foldlM_cons] at found
    obtain ⟨next, first, found⟩ := Edited.bind_eq_ok.mp found
    exact ih (descend_mem first) found

theorem typeAt_mem {doc : Document} {id : DefinitionId} {path : FieldPath} {type : TypeDefinition}
    (found : schema.typeAt doc id path = .ok type) : type ∈ schema.types.entries := by
  obtain ⟨root, start, found⟩ := Edited.bind_eq_ok.mp found
  exact descents_mem (rootTypeOf_mem start) found

theorem fieldAt_has {doc : Document} {id : DefinitionId} {path : FieldPath} {field : Field}
    (found : schema.fieldAt doc id path = .ok field) : schema.HasField field := by
  obtain ⟨⟨parent, name⟩, _, found⟩ := Edited.bind_eq_ok.mp found
  obtain ⟨type, there, found⟩ := Edited.bind_eq_ok.mp found
  exact ⟨type, typeAt_mem there, (fieldOn_named found).2⟩

theorem inputFieldOf_has {target inner : InputTarget} {name : String}
    (found : schema.inputFieldOf target name = .ok inner) :
    schema.HasInput inner ∧ inner.name = name := by
  obtain ⟨type, there, found⟩ := Edited.bind_eq_ok.mp found
  split at found
  case h_1 type =>
    split at found
    case h_1 field member =>
      cases found
      obtain ⟨member, named⟩ := Catalog.find?_mem member
      exact ⟨.inputField (typeNamed_mem there) (List.mem_map_of_mem member), named⟩
    · cases found
  · cases found

theorem inputFields_has {names : List String} {target inner : InputTarget}
    (has : schema.HasInput target)
    (found : names.foldlM schema.inputFieldOf target = .ok inner) :
    schema.HasInput inner ∧ inner.name = names.getLastD target.name := by
  induction names generalizing target with
  | nil =>
    cases found
    exact ⟨has, rfl⟩
  | cons name names ih =>
    rw [List.foldlM_cons] at found
    obtain ⟨next, first, found⟩ := Edited.bind_eq_ok.mp found
    obtain ⟨has, named⟩ := inputFieldOf_has first
    rw [List.getLastD_cons, ← named]
    exact ih has found

theorem inputAt_has {doc : Document} {id : DefinitionId} {path : ArgumentPath} {field : Field}
    {target : InputTarget} (found : schema.inputAt doc id path = .ok (field, target)) :
    schema.HasField field ∧ schema.HasInput target ∧ target.name = path.leafName := by
  obtain ⟨field', there, found⟩ := Edited.bind_eq_ok.mp found
  split at found
  · cases found
  case h_2 argument member =>
    obtain ⟨target', inner, same⟩ := Edited.bind_eq_ok.mp found
    cases same
    obtain ⟨member, named⟩ := Catalog.find?_mem member
    have has := fieldAt_has there
    have start : schema.HasInput (.argument argument) :=
      .argument has (List.mem_map_of_mem member)
    obtain ⟨input, called⟩ := inputFields_has start inner
    refine ⟨has, input, called.trans ?_⟩
    rw [ArgumentPath.leafName, ← named]
    rfl

/-- Names lead from a type to a field, each but the last through a field to the type that the next is
selected on. -/
inductive LeadsToField (schema : Schema) : TypeDefinition → List String → Field → Prop where
  | here {type : TypeDefinition} {fields : Catalog Field} {field : Field}
      (selects : fields? type = some fields) (member : field ∈ fields.entries) :
      LeadsToField schema type [field.name] field
  | through {type inner : TypeDefinition} {fields : Catalog Field} {outer field : Field}
      {names : List String} (selects : fields? type = some fields) (member : outer ∈ fields.entries)
      (inside : schema.innermost? outer.type = some inner)
      (further : LeadsToField schema inner names field) :
      LeadsToField schema type (outer.name :: names) field

/-- Names lead from an input value through fields of input object types to an input value. -/
inductive LeadsToInput (schema : Schema) : InputTarget → List String → InputTarget → Prop where
  | here (target : InputTarget) : LeadsToInput schema target [] target
  | through {outer field target : InputTarget} {type : InputObjectType} {names : List String}
      (inside : schema.innermost? outer.type = some (.input type)) (member : field ∈ type.inputs)
      (further : LeadsToInput schema field names target) :
      LeadsToInput schema outer (field.name :: names) target

/-- In an operation of a kind, an address is of an input value for a field. -/
def LeadsTo (schema : Schema) (kind : OperationKind) (path : ArgumentPath) (field : Field)
    (target : InputTarget) : Prop :=
  ∃ root argument, schema.root? kind = some root ∧
    schema.LeadsToField (.object root) path.field.segments field ∧
    argument ∈ field.inputs ∧ argument.name = path.argument ∧
    schema.LeadsToInput argument path.inputFields target

theorem typeNamed_ok {name : String} {type : TypeDefinition} :
    schema.typeNamed name = .ok type ↔ schema.type? name = some type := by
  unfold typeNamed
  cases schema.type? name with
  | none => exact ⟨nofun, nofun⟩
  | some known => rw [Except.ok.injEq, Option.some.injEq]

theorem leadsToField_descents {segments : List String} {type beneath : TypeDefinition} {name : String}
    {field : Field} (descents : segments.foldlM schema.descend type = .ok beneath)
    (last : fieldOn beneath name = .ok field) :
    schema.LeadsToField type (segments ++ [name]) field := by
  induction segments generalizing type with
  | nil =>
    cases descents
    obtain ⟨rfl, fields, selects, member⟩ := fieldOn_named last
    exact .here selects member
  | cons first inner ih =>
    rw [List.foldlM_cons] at descents
    obtain ⟨next, descent, further⟩ := Edited.bind_eq_ok.mp descents
    obtain ⟨outer, on, inside⟩ := Edited.bind_eq_ok.mp descent
    obtain ⟨rfl, fields, selects, member⟩ := fieldOn_named on
    exact .through selects member (typeNamed_ok.mp inside) (ih further)

theorem leadsToInput_inputFields {names : List String} {outer target : InputTarget}
    (found : names.foldlM schema.inputFieldOf outer = .ok target) :
    schema.LeadsToInput outer names target := by
  induction names generalizing outer with
  | nil =>
    cases found
    exact .here _
  | cons name names ih =>
    rw [List.foldlM_cons] at found
    obtain ⟨next, first, further⟩ := Edited.bind_eq_ok.mp found
    obtain ⟨type, inside, first⟩ := Edited.bind_eq_ok.mp first
    split at first
    case h_1 type =>
      split at first
      case h_1 field there =>
        cases first
        obtain ⟨member, called⟩ := Catalog.find?_mem there
        rw [← called]
        exact .through (typeNamed_ok.mp inside) (List.mem_map_of_mem member) (ih further)
      · cases first
    · cases first

theorem rootTypeOf_operation {doc : Document} {id : DefinitionId} {op : Operation} {type : TypeDefinition}
    (there : doc.definition? id = some (.operation op)) (found : schema.rootTypeOf doc id = .ok type) :
    ∃ root, schema.root? op.kind = some root ∧ type = .object root := by
  rw [rootTypeOf, there] at found
  dsimp only at found
  split at found
  case h_1 root rooted =>
    refine ⟨root, rooted, ?_⟩
    obtain ⟨name, -, object⟩ := Option.bind_eq_some_iff.mp rooted
    obtain ⟨known, named, same⟩ := Option.bind_eq_some_iff.mp object
    cases known with
    | object known =>
      cases same
      obtain ⟨-, called⟩ := Catalog.find?_mem named
      have again : schema.type? root.name = some (.object root) := by rwa [← called] at named
      exact (Option.some.inj (again.symm.trans (typeNamed_ok.mp found))).symm
    | _ => cases same
  · cases found

theorem inputAt_leadsTo {doc : Document} {id : DefinitionId} {path : ArgumentPath} {op : Operation}
    {field : Field} {target : InputTarget} (there : doc.definition? id = some (.operation op))
    (found : schema.inputAt doc id path = .ok (field, target)) :
    schema.LeadsTo op.kind path field target := by
  obtain ⟨field', selected, found⟩ := Edited.bind_eq_ok.mp found
  split at found
  · cases found
  case h_2 argument member =>
    obtain ⟨target', inner, same⟩ := Edited.bind_eq_ok.mp found
    cases same
    obtain ⟨⟨parent, name⟩, split, selected⟩ := Edited.bind_eq_ok.mp selected
    obtain ⟨type, typed, last⟩ := Edited.bind_eq_ok.mp selected
    obtain ⟨start, rooted, descents⟩ := Edited.bind_eq_ok.mp typed
    obtain ⟨root, known, rfl⟩ := rootTypeOf_operation there rooted
    obtain ⟨member, named⟩ := Catalog.find?_mem member
    have whole := FieldPath.split?_some (Document.splitPath_ok.mp split)
    refine ⟨root, .argument argument, known, ?_, List.mem_map_of_mem member, named,
      leadsToInput_inputFields inner⟩
    rw [whole]
    exact leadsToField_descents descents last

end Schema

end QueryEditor
