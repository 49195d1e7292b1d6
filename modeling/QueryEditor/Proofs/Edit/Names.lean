import QueryEditor.Proofs.DeclaredType
import QueryEditor.Proofs.Defaults
import QueryEditor.Proofs.Document.WellFormed
import QueryEditor.Proofs.Edit.Perform
import QueryEditor.Proofs.Value.Substitution

namespace QueryEditor

open Text

def InputTarget.isWellNamed (input : InputTarget) : Bool :=
  isName input.name && isName input.type.typeName

def Field.isWellNamed (field : Field) : Bool :=
  isName field.name && field.inputs.all InputTarget.isWellNamed

def TypeDefinition.isWellNamed : TypeDefinition → Bool
  | .enum type => isName type.name && type.values.entries.all (isName ·.name)
  | .input type => isName type.name && type.inputs.all InputTarget.isWellNamed
  | .interface type => isName type.name && type.fields.entries.all Field.isWellNamed
  | .object type => isName type.name && type.fields.entries.all Field.isWellNamed
  | type => isName type.name

def Schema.isWellNamed (schema : Schema) : Bool :=
  schema.types.entries.all TypeDefinition.isWellNamed

/-- The fields that a host chooses go by names, and so does all in the values that it fills in. -/
structure Policy.WellNamed (policy : Policy) (schema : Schema) : Prop where
  fieldNames : ∀ type ∈ schema.types.entries, ∀ name ∈ policy.fieldNames schema type,
    isName name = true
  scalarValue : ∀ type ∈ schema.types.entries, ∀ field input,
    (policy.scalarValue field input type).all .names = true

/-- What is left of being well formed after any edit. The user may leave out the name of a variable or
of a fragment that is spread, and may take away all that a fragment selects. -/
@[simps]
def Check.edited : Check where
  value
    | .enum name => isName name
    | .variable name => name == "" || isName name
    | _ => true
  slot := isName
  directive := isName
  field aliasName name := aliasName.all isName && isName name
  spread fragment := fragment == "" || isName fragment
  inline condition isEmpty := condition.all isName && !isEmpty
  declaration d := isName d.name && isName d.type.innermost && d.type.isRegular &&
    d.default?.all (·.mentioned.isEmpty)
  operation name isEmpty := name.all isName && !isEmpty
  fragment name condition _ := isName name && isName condition

theorem Value.names_edited {value : Value} (names : value.all .names = true) :
    value.all .edited = true := by
  induction value using Value.inductionOn with
  | list items ih =>
    rw [all, Bool.and_eq_true, allItems_iff] at names ⊢
    exact ⟨rfl, fun item member => ih item member (names.2 item member)⟩
  | object fields ih =>
    rw [all, Bool.and_eq_true, allSlots_iff] at names ⊢
    exact ⟨rfl, fun slot member =>
      ⟨(names.2 slot member).1, ih slot member (names.2 slot member).2⟩⟩
  | «variable» name =>
    have valid : isName name = true := names
    simp [all, Check.edited, valid]
  | enum name => exact names
  | _ => rfl

namespace Value

theorem substitute_all {replacement : String → Value}
    (put : ∀ name, (replacement name).all .edited = true) {value : Value}
    (good : value.all .edited = true) : (value.substitute replacement).all .edited = true := by
  induction value using Value.inductionOn with
  | «variable» name => exact put name
  | list items ih =>
    rw [all, Bool.and_eq_true, allItems_iff] at good
    rw [substitute, substituteItems_eq, all, Bool.and_eq_true, allItems_iff]
    refine ⟨rfl, fun item member => ?_⟩
    obtain ⟨before, there, rfl⟩ := List.mem_map.mp member
    exact ih before there (good.2 before there)
  | object fields ih =>
    rw [all, Bool.and_eq_true, allSlots_iff] at good
    rw [substitute, substituteSlots_eq, all, Bool.and_eq_true, allSlots_iff]
    refine ⟨rfl, fun slot member => ?_⟩
    obtain ⟨before, there, rfl⟩ := List.mem_map.mp member
    exact ⟨(good.2 before there).1, ih before there (good.2 before there).2⟩
  | _ => exact good

end Value

theorem Operation.defaultOf_edited {op : Operation}
    (good : (Definition.operation op).all .edited = true) (name : String) :
    (op.defaultOf name).mentioned = [] ∧ (op.defaultOf name).all .edited = true := by
  unfold defaultOf
  cases declared : op.declaration? name with
  | none => exact ⟨rfl, rfl⟩
  | some d =>
    have whole := Document.declaration_all good (List.mem_of_find?_eq_some declared)
    rw [VariableDefinition.all, Bool.and_eq_true] at whole
    cases default : d.default? with
    | none => simp [default, Value.mentioned, Value.all, Check.edited]
    | some value =>
      simp only [Check.edited, default, Option.all_some, Bool.and_eq_true, List.isEmpty_iff] at whole
      simpa [default] using ⟨whole.1.2, whole.2⟩

namespace Schema

variable {schema : Schema}

theorem HasField.isWellNamed {field : Field} (has : schema.HasField field)
    (named : schema.isWellNamed = true) : field.isWellNamed = true := by
  obtain ⟨type, there, fields, some, member⟩ := has
  rw [Schema.isWellNamed, List.all_eq_true] at named
  have whole := named type there
  cases type with
  | interface type =>
    cases some
    rw [TypeDefinition.isWellNamed, Bool.and_eq_true, List.all_eq_true] at whole
    exact whole.2 field member
  | object type =>
    cases some
    rw [TypeDefinition.isWellNamed, Bool.and_eq_true, List.all_eq_true] at whole
    exact whole.2 field member
  | union type =>
    cases some
    cases member
  | _ => cases some

theorem HasInput.isWellNamed {input : InputTarget} (has : schema.HasInput input)
    (named : schema.isWellNamed = true) : input.isWellNamed = true := by
  cases has with
  | argument has member =>
    have whole := has.isWellNamed named
    rw [Field.isWellNamed, Bool.and_eq_true, List.all_eq_true] at whole
    exact whole.2 input member
  | inputField has member =>
    rw [Schema.isWellNamed, List.all_eq_true] at named
    have whole := named _ has
    rw [TypeDefinition.isWellNamed, Bool.and_eq_true, List.all_eq_true] at whole
    exact whole.2 _ member

theorem isName_type {type : TypeDefinition} (there : type ∈ schema.types.entries)
    (named : schema.isWellNamed = true) : isName type.name = true := by
  rw [Schema.isWellNamed, List.all_eq_true] at named
  have whole := named type there
  cases type <;> simp only [TypeDefinition.isWellNamed, Bool.and_eq_true] at whole <;>
    first | exact whole | exact whole.1

end Schema

namespace Defaults

variable {schema : Schema} {policy : Policy} (named : schema.isWellNamed = true)
  (host : policy.WellNamed schema)

include named host

variable {parent : Field} {expanding after : List String} {input : InputTarget} {filled : Slot}

theorem slotOver_edited {fields : InputObjectType → Filling (List Slot)}
    (inside : ∀ type inner, .input type ∈ schema.types.entries →
      fields type expanding = some (inner, after) → Value.allSlots .edited inner = true)
    (has : schema.HasInput input)
    (done : slotOver schema policy parent fields input expanding = some (some filled, after)) :
    isName filled.name = true ∧ filled.value.all .edited = true := by
  have called := has.isWellNamed named
  rw [InputTarget.isWellNamed, Bool.and_eq_true] at called
  rcases slotOver_cases done with ⟨type, inner, there, fields, same⟩ | ⟨-, leaf⟩
  · cases same
    refine ⟨called.1, ?_⟩
    rw [Value.all, Bool.and_eq_true]
    exact ⟨rfl, inside type inner (Catalog.find?_mem there).1 fields⟩
  · obtain ⟨type, there, -, same⟩ := leaf filled rfl
    cases same
    exact ⟨called.1,
      Value.names_edited (host.scalarValue type (Catalog.find?_mem there).1 parent input)⟩

theorem slotWithin_edited (depth : Nat) (has : schema.HasInput input)
    (done : slotWithin schema policy parent depth input expanding = some (some filled, after)) :
    isName filled.name = true ∧ filled.value.all .edited = true := by
  -- Input types may contain themselves: the depth that is left bounds how deep they are filled in.
  induction depth generalizing expanding after input filled with
  | zero =>
    refine slotOver_edited named host (fun _ _ _ none => ?_) has done
    cases none
  | succ depth ih =>
    refine slotOver_edited named host (fun type inner there fields => ?_) has done
    rcases fieldsOver_cases fields with ⟨-, rfl, -⟩ | ⟨-, full, -, fields⟩
    · rfl
    · rw [Value.allSlots_iff]
      intro slot member
      obtain ⟨input, member, done⟩ := (slotsOver_cases fields).2 slot member
      exact ih (.inputField there member) done

theorem slot_edited (has : schema.HasInput input) :
    ∀ filled ∈ slot schema policy parent input,
      isName filled.name = true ∧ filled.value.all .edited = true := by
  intro filled done
  have run := slot_run schema policy parent input
  rw [done] at run
  exact slotWithin_edited named host _ has run

theorem arguments_edited {field : Field} (has : schema.HasField field) :
    Value.allSlots .edited (arguments schema policy field) = true := by
  rw [Value.allSlots_iff]
  intro filled member
  obtain ⟨input, listed, done⟩ := (slotsOver_cases (arguments_run schema policy field)).2 filled member
  exact slotWithin_edited named host _ (.argument has listed) done

end Defaults

theorem TypeDefinition.defaultValue_names {schema : Schema} (named : schema.isWellNamed = true)
    {type : TypeDefinition} (there : type ∈ schema.types.entries) :
    type.defaultValue.all .names = true := by
  cases type with
  | builtin kind => cases kind <;> rfl
  | enum type =>
    rw [Schema.isWellNamed, List.all_eq_true] at named
    have whole := named _ there
    rw [isWellNamed, Bool.and_eq_true, List.all_eq_true] at whole
    rw [defaultValue]
    split
    case h_1 first others listed =>
      exact whole.2 first (by rw [listed]; exact List.mem_cons_self)
    · rfl
  | _ => rfl

theorem Coercion.literal_names {schema : Schema} (named : schema.isWellNamed = true)
    {type : TypeDefinition} (there : type ∈ schema.types.entries) (raw : String) :
    (literal type raw).all .names = true := by
  have usual := TypeDefinition.defaultValue_names named there
  unfold literal
  split
  · rfl
  · cases intStart? raw <;> rfl
  · cases floatStart? raw <;> rfl
  case h_4 values =>
    split
    case isTrue listed =>
      rw [Catalog.contains, Option.isSome_iff_exists] at listed
      obtain ⟨value, found⟩ := listed
      obtain ⟨member, called⟩ := Catalog.find?_mem found
      rw [Schema.isWellNamed, List.all_eq_true] at named
      have whole := named _ there
      rw [TypeDefinition.isWellNamed, Bool.and_eq_true, List.all_eq_true] at whole
      have valid := whole.2 value member
      rw [← called]
      exact valid
    · exact usual
  · rfl

theorem Schema.identifyingFields_names {schema : Schema} (named : schema.isWellNamed = true)
    {type : TypeDefinition} (there : type ∈ schema.types.entries) :
    ∀ name ∈ schema.identifyingFields type, isName name = true := by
  unfold identifyingFields
  split
  · exact nofun
  case h_2 fields listed =>
    split
    · split
      · decide
      · split <;> decide
    · split
      case h_1 conventional found =>
        have usual : ∀ name ∈ ["edges", "node", "nodes"], isName name = true := by decide
        intro name member
        rw [List.mem_singleton.mp member]
        exact usual conventional (List.mem_of_find?_eq_some found)
      · dsimp only
        split
        · decide
        · intro name member
          obtain ⟨field, leaf, rfl⟩ := List.mem_map.mp member
          have has : schema.HasField field :=
            ⟨type, there, fields, listed, (List.mem_filter.mp (List.mem_of_mem_take leaf)).1⟩
          have whole := has.isWellNamed named
          rw [Field.isWellNamed, Bool.and_eq_true] at whole
          exact whole.1

theorem Policy.default_wellNamed {schema : Schema} (named : schema.isWellNamed = true) :
    ({} : Policy).WellNamed schema where
  fieldNames _ there name member := Schema.identifyingFields_names named there name member
  scalarValue _ there _ _ := TypeDefinition.defaultValue_names named there

theorem Check.edited_suits {schema : Schema} {policy : Policy} (named : schema.isWellNamed = true)
    (host : policy.WellNamed schema) : Check.edited.Suits schema policy where
  objects _ := rfl
  typename := by decide
  operation _ _ good := by
    rw [Check.edited_operation, Bool.and_eq_true] at good ⊢
    exact ⟨good.1, rfl⟩
  fragment _ _ _ _ good := good
  null := rfl
  field field has := by
    have called := has.isWellNamed named
    rw [Field.isWellNamed, Bool.and_eq_true] at called
    exact ⟨called.1, Defaults.arguments_edited named host has⟩
  slot _ _ _ has := Defaults.slot_edited named host has
  chosen type there name member := host.fieldNames type there name member
  literal type there raw := Value.names_edited (Coercion.literal_names named there raw)
  extracted type there taken := by
    have stem : isName (type.name ++ "Fragment") = true :=
      isName_append (Schema.isName_type there named) (by decide)
    have fresh := Naming.isName_unique stem taken
    simp [Check.edited, fresh, Schema.isName_type there named]
  promoted input has taken := by
    have called := has.isWellNamed named
    rw [InputTarget.isWellNamed, Bool.and_eq_true] at called
    simp [Check.edited, Naming.isName_unique called.1 taken]
  declared input has taken := by
    have called := has.isWellNamed named
    rw [InputTarget.isWellNamed, Bool.and_eq_true] at called
    have regular := input.type.toTypeRef_isRegular
    have innermost := input.type.toTypeRef_innermost
    simp [VariableDefinition.all, Check.edited, Naming.isName_unique called.1 taken, innermost,
      called.2, regular]
  defaulted input has taken op current good passes := by
    have called := has.isWellNamed named
    rw [InputTarget.isWellNamed, Bool.and_eq_true] at called
    have regular := TypeRef.nullable_isRegular input.type.toTypeRef_isRegular
    have innermost := (TypeRef.nullable_innermost _).trans input.type.toTypeRef_innermost
    have constant : (current.substitute op.defaultOf).mentioned = [] :=
      Value.mentioned_substitute_eq_nil_iff.mpr fun name _ => (op.defaultOf_edited good name).1
    have kept := Value.substitute_all (fun name => (op.defaultOf_edited good name).2) passes
    rw [VariableDefinition.all, Bool.and_eq_true]
    exact ⟨by simp [Check.edited, Naming.isName_unique called.1 taken, innermost, called.2, regular,
      constant], kept⟩
  copiedOperation name isEmpty good := by
    rw [Check.edited_operation, Bool.and_eq_true] at good ⊢
    refine ⟨?_, good.2⟩
    cases name with
    | none => decide
    | some name => exact isName_append good.1 (by decide)
  copiedFragment name condition _ good := by
    rw [Check.edited_fragment, Bool.and_eq_true] at good ⊢
    exact ⟨isName_append good.1 (by decide), good.2⟩
  created kind count := by
    have stem : isName ("My" ++ kind.capitalized) = true := by cases kind <;> decide
    rw [Check.edited_operation, Document.operationName]
    split
    · rw [String.append_empty]
      simp [stem]
    · have valid := Naming.isName_append_number stem (count + 1)
      rw [Option.all_some, valid]
      rfl

end QueryEditor
