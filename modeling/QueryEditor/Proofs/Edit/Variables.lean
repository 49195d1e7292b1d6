import QueryEditor.Edit.Variables
import QueryEditor.Proofs.DeclaredType
import QueryEditor.Proofs.Document.Mentions
import QueryEditor.Proofs.Edit.ReadWrite
import QueryEditor.Proofs.Naming

namespace QueryEditor

theorem Value.isNull_iff {value : Value} : value.isNull = true ↔ value = .null := by
  cases value <;> simp [isNull]

/-- What a variable stands for by its declarations: the default in the first of its name, or null. -/
inductive StandsFor (name : String) : List VariableDefinition → Value → Prop
  | undeclared : StandsFor name [] .null
  | first {d : VariableDefinition} {others : List VariableDefinition} (own : d.name = name) :
      StandsFor name (d :: others) (d.default?.getD .null)
  | later {d : VariableDefinition} {others : List VariableDefinition} {value : Value}
      (other : d.name ≠ name) (further : StandsFor name others value) :
      StandsFor name (d :: others) value

theorem standsFor_iff {op : Operation} {name : String} {value : Value} :
    StandsFor name op.declarations value ↔ value = op.defaultOf name := by
  rw [Operation.defaultOf, Operation.declaration?]
  generalize op.declarations = declarations
  constructor
  · intro stands
    induction stands with
    | undeclared => rfl
    | first own => rw [List.find?_cons_of_pos (by simpa using own), Option.bind_some]
    | later other _ ih => rw [List.find?_cons_of_neg (by simpa using other), ih]
  · rintro rfl
    induction declarations with
    | nil => exact .undeclared
    | cons d others ih =>
      by_cases own : d.name = name
      · rw [List.find?_cons_of_pos (by simpa using own), Option.bind_some]
        exact .first own
      · rw [List.find?_cons_of_neg (by simpa using own)]
        exact .later own ih

theorem StandsFor.constant {name : String} {declarations : List VariableDefinition} {value : Value}
    (stands : StandsFor name declarations value)
    (constant : ∀ d ∈ declarations, ∀ value ∈ d.default?, ∀ name, ¬ value.Mentions name) :
    ∀ name, ¬ value.Mentions name := by
  induction stands with
  | undeclared => exact nofun
  | @first d others own =>
    cases default : d.default? with
    | none => exact nofun
    | some value => exact constant d List.mem_cons_self value default
  | later other _ ih => exact ih fun d member => constant d (List.mem_cons_of_mem _ member)

/-- A declaration for a value of a declared type: of a new name, with the value as its default, in which
each variable has given way to what it stands for, unless that leaves null, and of the type, which may be
null where there is a default. -/
structure Operation.Introduces (op : Operation) (type : DeclaredType) (value : Value)
    (declaration : VariableDefinition) : Prop where
  new : declaration.name ∉ op.declarations.map (·.name)
  default : ∃ standsFor filled, (∀ name, StandsFor name op.declarations (standsFor name)) ∧
    value.Filled standsFor filled ∧
    declaration.default? = if filled = .null then none else some filled
  type : (if declaration.default? = none then type else type.orNull).WrittenAs declaration.type

namespace Operation.Introduces

variable {op : Operation} {type : DeclaredType} {value : Value} {declaration : VariableDefinition}

theorem of_eq (new : declaration.name ∉ op.declarations.map (·.name))
    (default : declaration.default? =
      if value.substitute op.defaultOf = .null then none else some (value.substitute op.defaultOf))
    (written : declaration.type =
      if declaration.default? = none then type.toTypeRef else type.toTypeRef.nullable) :
    op.Introduces type value declaration where
  new := new
  default := ⟨op.defaultOf, _, fun _ => standsFor_iff.mpr rfl, (Value.filled_iff _ _).mpr rfl, default⟩
  type := by
    rw [DeclaredType.writtenAs_iff, written]
    split
    · rfl
    · exact type.toTypeRef_orNull.symm

theorem default_eq (introduces : op.Introduces type value declaration) :
    declaration.default?.getD .null = value.substitute op.defaultOf := by
  obtain ⟨standsFor, filled, stands, fills, default⟩ := introduces.default
  have same : standsFor = op.defaultOf := funext fun name => standsFor_iff.mp (stands name)
  rw [default, ← same, ← (Value.filled_iff value filled).mp fills]
  split
  case isTrue null => exact null.symm
  case isFalse => rfl

end Operation.Introduces

namespace Document

variable {doc after : Document} {id : DefinitionId} {path : ArgumentPath} {op : Operation}
  {schema : Schema}

theorem operationAt_ok : doc.operationAt id = .ok op ↔ doc.definition? id = some (.operation op) := by
  unfold operationAt
  split <;> simp_all

theorem operationAt_set (there : doc.definition? id = some (.operation op)) (edited : Operation) :
    operationAt ⟨doc.definitions.set id (.operation edited)⟩ id = .ok edited := by
  rw [operationAt_ok, definition?_set there, if_pos rfl]

theorem set_operation_inj {edited edited' : Operation}
    (there : doc.definition? id = some (.operation op))
    (same : (⟨doc.definitions.set id (.operation edited)⟩ : Document) =
      ⟨doc.definitions.set id (.operation edited')⟩) : edited = edited' := by
  exact Definition.operation.inj ((set_definition_inj (id_lt_length there)).mp same)

theorem updateDeclarations_written (there : doc.definition? id = some (.operation op))
    (written : Operation) (change : Operation → List VariableDefinition) :
    updateDeclarations ⟨doc.definitions.set id (.operation written)⟩ id change =
      .ok ⟨doc.definitions.set id (.operation { written with declarations := change written })⟩ := by
  rw [updateDeclarations, operationAt_set there]
  show Except.ok _ = _
  rw [List.set_set]

theorem updateSlots_operation {value : Value} (there : doc.definition? id = some (.operation op))
    (done : doc.updateSlots id path (Slots.replace path.leafName value) = .ok after) :
    ∃ selections, after = ⟨doc.definitions.set id (.operation { op with selections })⟩ := by
  rcases updateSlots_ok.mp done with ⟨d, _, selections, there', _, made⟩
  cases there.symm.trans there'
  exact ⟨_, made⟩

theorem promote_written (there : doc.definition? id = some (.operation op))
    (done : doc.promote id path schema = .ok after) : ∃ field target current declaration selections,
    schema.inputAt doc id path = .ok (field, target) ∧ doc.valueAt id path = .ok current ∧
    declaration.name = Naming.unique path.leafName (op.declarations.map (·.name)) ∧
    op.Introduces target.type current declaration ∧
    doc.updateSlots id path (Slots.replace path.leafName (.variable declaration.name)) =
      .ok ⟨doc.definitions.set id (.operation { op with selections })⟩ ∧
    after = ⟨doc.definitions.set id (.operation { op with
      declarations := op.declarations.filter (!isUsedOnlyIn op current ·.name) ++ [declaration]
      selections })⟩ := by
  rcases Edited.bind_eq_ok.mp done with ⟨_, operation, done⟩
  cases there.symm.trans (operationAt_ok.mp operation)
  rcases Edited.bind_eq_ok.mp done with ⟨⟨field, target⟩, resolved, done⟩
  rcases Edited.bind_eq_ok.mp done with ⟨current, found, done⟩
  rcases Edited.bind_eq_ok.mp done with ⟨replaced, put, done⟩
  rcases updateSlots_operation there put with ⟨selections, rfl⟩
  rw [updateDeclarations_written there] at done
  cases done
  have new := Naming.unique_not_mem path.leafName (op.declarations.map (·.name))
  generalize Naming.unique path.leafName (op.declarations.map (·.name)) = name at put new ⊢
  by_cases null : current.substitute op.defaultOf = .null
  · have introduces : op.Introduces target.type current { name, type := target.type.toTypeRef } :=
      .of_eq new (by rw [if_pos null]) rfl
    rw [if_pos (Value.isNull_iff.mpr null)]
    exact ⟨field, target, current, _, selections, resolved, found, rfl, introduces, put, rfl⟩
  · have introduces : op.Introduces target.type current
        { name, type := target.type.toTypeRef.nullable,
          default? := some (current.substitute op.defaultOf) } :=
      .of_eq new (by rw [if_neg null]) rfl
    rw [if_neg (mt Value.isNull_iff.mp null)]
    exact ⟨field, target, current, _, selections, resolved, found, rfl, introduces, put, rfl⟩

theorem inline_written (there : doc.definition? id = some (.operation op)) :
    doc.inline id path = .ok after ↔ ∃ name selections,
      doc.valueAt id path = .ok (.variable name) ∧ (op.declaration? name).isSome ∧
      doc.updateSlots id path (Slots.replace path.leafName (op.defaultOf name)) =
        .ok ⟨doc.definitions.set id (.operation { op with selections })⟩ ∧
      after = ⟨doc.definitions.set id (.operation { op with
        declarations := if Operation.uses { op with selections } name = 0
          then op.declarations.filter (·.name != name) else op.declarations
        selections })⟩ := by
  rw [inline, operationAt_ok.mpr there]
  show (doc.valueAt id path >>= _) = _ ↔ _
  rw [Edited.bind_eq_ok]
  constructor
  · rintro ⟨value, found, done⟩
    split at done
    case h_1 => cases done
    case h_2 name mentions =>
      split at done
      case h_1 => cases done
      case h_2 declaration declared =>
        have variableRead : value = .variable name := by
          cases value <;> cases mentions
          rfl
        have default : declaration.default?.getD .null = op.defaultOf name := by
          rw [Operation.defaultOf, declared, Option.bind_some]
        rcases Edited.bind_eq_ok.mp done with ⟨replaced, put, done⟩
        rcases updateSlots_operation there put with ⟨selections, rfl⟩
        rw [updateDeclarations_written there] at done
        cases done
        rw [variableRead] at found
        rw [default] at put
        exact ⟨name, selections, found, by rw [declared, Option.isSome_some], put, rfl⟩
  · rintro ⟨name, selections, found, declared, put, rfl⟩
    rcases Option.isSome_iff_exists.mp declared with ⟨declaration, declared⟩
    have default : declaration.default?.getD .null = op.defaultOf name := by
      rw [Operation.defaultOf, declared, Option.bind_some]
    refine ⟨_, found, ?_⟩
    dsimp only [Value.variableName?]
    rw [declared]
    dsimp only
    rw [default, put]
    exact updateDeclarations_written there _ _

end Document

end QueryEditor
