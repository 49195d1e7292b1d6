import QueryEditor.Proofs.Schema.Extended

namespace QueryEditor

def WrittenType.fields (file? : Option String) (type : WrittenType) : List Field :=
  match type.body with
  | .object _ fields => fields.map (·.field file? type.name)
  | .interface _ fields => fields.map (·.field file? type.name)
  | _ => []

def WrittenType.inputFields (file? : Option String) (type : WrittenType) : List InputField :=
  match type.body with
  | .input fields => fields.map (·.inputField file? type.name)
  | _ => []

def TypeDefinition.inputFields? : TypeDefinition → Option (Catalog InputField)
  | input type => some type.fields
  | _ => none

/-- The catalog lists what a definition gives, then what only additions give, each name where it comes
first; under a name stands what is given last. -/
structure Catalog.Lists {α : Type} [HasName α] (catalog : Catalog α) (own added : List α) : Prop where
  names : catalog.names = (own.map HasName.nameOf).eraseDups ++
    ((added.map HasName.nameOf).removeAll (own.map HasName.nameOf)).eraseDups
  last : ∀ name, catalog.find? name = lastNamed (own ++ added) name

theorem Catalog.insertAll_lists {α : Type} [HasName α] (own added : List α) :
    ((ofList own).insertAll added).Lists own added where
  names := by
    have among : ∀ name, (own.map HasName.nameOf).eraseDups.elem name =
        (own.map HasName.nameOf).elem name := by
      intro name
      rw [Bool.eq_iff_iff, List.elem_iff, List.elem_iff, List.mem_eraseDups]
    rw [names_insertAll, names_ofList]
    unfold List.removeAll
    simp only [among]
  last name := by rw [find?_insertAll, find?_ofList, lastNamed_append]

namespace TypeDefinition

variable {type extended result : TypeDefinition} {file? : Option String} {addition : WrittenType}
  {extensions : List (Option String × WrittenType)}

theorem extended?_fields (done : type.extended? file? addition = some extended) :
    extended.fields? = type.fields?.map (·.insertAll (addition.fields file?)) ∧
      extended.inputFields? = type.inputFields?.map (·.insertAll (addition.inputFields file?)) := by
  unfold extended? at done
  dsimp only at done
  unfold WrittenType.fields WrittenType.inputFields
  cases body : addition.body <;> rw [body] at done <;> cases type <;> cases done <;>
    exact ⟨rfl, rfl⟩

theorem extendedBy?_fields (done : type.extendedBy? extensions = some result) :
    result.fields? = type.fields?.map
        (·.insertAll (extensions.flatMap fun (file?, addition) => addition.fields file?)) ∧
      result.inputFields? = type.inputFields?.map
        (·.insertAll (extensions.flatMap fun (file?, addition) => addition.inputFields file?)) := by
  induction extensions generalizing type with
  | nil =>
    cases done
    exact ⟨Option.map_id'.symm, Option.map_id'.symm⟩
  | cons extension extensions ih =>
    obtain ⟨file?, addition⟩ := extension
    rw [extendedBy?_cons] at done
    obtain ⟨extended, first, rest⟩ := Option.bind_eq_some_iff.mp done
    obtain ⟨fields, inputFields⟩ := extended?_fields first
    rw [(ih rest).1, (ih rest).2, fields, inputFields, Option.map_map, Option.map_map]
    simp only [List.flatMap_cons, Catalog.insertAll_append]
    exact ⟨rfl, rfl⟩

structure Completes (file? : Option String) (type : WrittenType)
    (extensions : List (Option String × WrittenType)) (built : TypeDefinition) : Prop where
  kind : built.kind = (type.definition file?).kind
  unextended : extensions = [] → built = type.definition file?
  fields : ∀ fields, built.fields? = some fields → fields.Lists (type.fields file?)
    (extensions.flatMap fun (file?, addition) => addition.fields file?)
  inputFields : ∀ fields, built.inputFields? = some fields → fields.Lists (type.inputFields file?)
    (extensions.flatMap fun (file?, addition) => addition.inputFields file?)

end TypeDefinition

theorem WrittenType.definition_fields (file? : Option String) (type : WrittenType) :
    (∀ fields, (type.definition file?).fields? = some fields → fields = .ofList (type.fields file?)) ∧
      ∀ fields, (type.definition file?).inputFields? = some fields →
        fields = .ofList (type.inputFields file?) := by
  unfold definition fields inputFields
  dsimp only
  cases type.body <;> constructor <;> intro fields same <;> cases same <;> rfl

theorem WrittenType.extendedBy?_completes {file? : Option String} {type : WrittenType}
    {extensions : List (Option String × WrittenType)} {result : TypeDefinition}
    (done : (type.definition file?).extendedBy? extensions = some result) :
    result.Completes file? type extensions where
  kind := TypeDefinition.extendedBy?_kind done
  unextended none := by
    subst none
    cases done
    rfl
  fields fields known := by
    rw [(TypeDefinition.extendedBy?_fields done).1] at known
    obtain ⟨own, there, rfl⟩ := Option.map_eq_some_iff.mp known
    rw [(type.definition_fields file?).1 own there]
    exact Catalog.insertAll_lists _ _
  inputFields fields known := by
    rw [(TypeDefinition.extendedBy?_fields done).2] at known
    obtain ⟨own, there, rfl⟩ := Option.map_eq_some_iff.mp known
    rw [(type.definition_fields file?).2 own there]
    exact Catalog.insertAll_lists _ _

end QueryEditor
