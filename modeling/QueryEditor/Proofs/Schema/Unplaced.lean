import QueryEditor.Proofs.Schema.Extended

namespace QueryEditor

def Position.start : Position :=
  ⟨1, 1⟩

def Location.unplaced : Location → Location
  | source _ => Position.start.located none
  | builtin => builtin
  | introspection => introspection

def InputValue.unplaced (input : InputValue) : InputValue :=
  { input with location := input.location.unplaced }

theorem InputValue.nameOf_unplaced (input : InputValue) :
    HasName.nameOf input.unplaced = HasName.nameOf input :=
  rfl

def InputField.unplaced (field : InputField) : InputField :=
  { field with location := field.location.unplaced }

theorem InputField.nameOf_unplaced (field : InputField) :
    HasName.nameOf field.unplaced = HasName.nameOf field :=
  rfl

def Field.unplaced (field : Field) : Field :=
  { field with
    location := field.location.unplaced
    arguments := field.arguments.map InputValue.unplaced InputValue.nameOf_unplaced }

theorem Field.nameOf_unplaced (field : Field) :
    HasName.nameOf field.unplaced = HasName.nameOf field :=
  rfl

def FieldsType.unplaced (type : FieldsType) : FieldsType :=
  { type with
    location := type.location.unplaced
    fields := type.fields.map Field.unplaced Field.nameOf_unplaced }

def InputObjectType.unplaced (type : InputObjectType) : InputObjectType :=
  { type with
    location := type.location.unplaced
    fields := type.fields.map InputField.unplaced InputField.nameOf_unplaced }

namespace TypeDefinition

def unplaced : TypeDefinition → TypeDefinition
  | builtin kind => builtin kind
  | scalar type => scalar { type with location := type.location.unplaced }
  | enum type => enum { type with location := type.location.unplaced }
  | input type => input type.unplaced
  | interface type => interface type.unplaced
  | object type => object type.unplaced
  | union type => union { type with location := type.location.unplaced }

theorem unplaced_name (type : TypeDefinition) : type.unplaced.name = type.name := by
  cases type <;> rfl

theorem unplaced_location (type : TypeDefinition) :
    type.unplaced.location = type.location.unplaced := by
  cases type <;> rfl

end TypeDefinition

def Catalog.unplaced (types : Catalog TypeDefinition) : Catalog TypeDefinition :=
  types.map TypeDefinition.unplaced TypeDefinition.unplaced_name

theorem Catalog.find?_unplaced (types : Catalog TypeDefinition) (name : String) :
    types.unplaced.find? name = (types.find? name).map TypeDefinition.unplaced :=
  find?_map TypeDefinition.unplaced TypeDefinition.unplaced_name types name

theorem Catalog.unplaced_insert (types : Catalog TypeDefinition) (type : TypeDefinition) :
    (types.insert type).unplaced = types.unplaced.insert type.unplaced :=
  map_insert TypeDefinition.unplaced TypeDefinition.unplaced_name types type

def Schema.unplaced (schema : Schema) : Schema :=
  { schema with types := schema.types.unplaced }

def SourcePosition.unplaced (_ : SourcePosition) : SourcePosition :=
  ⟨none, .start⟩

def SchemaError.unplaced : SchemaError → SchemaError
  | duplicateSchemaDefinition first second =>
    duplicateSchemaDefinition first.unplaced second.unplaced
  | duplicateTypeDefinition type first second =>
    duplicateTypeDefinition type first.unplaced second.unplaced
  | extensionOfUndefinedType type place => extensionOfUndefinedType type place.unplaced
  | extensionOfAnotherKind type place => extensionOfAnotherKind type place.unplaced
  | malformedSource _ => malformedSource none
  | failure => failure

def WrittenInput.unplaced (input : WrittenInput) : WrittenInput :=
  { input with position := .start }

def WrittenField.unplaced (field : WrittenField) : WrittenField :=
  { field with position := .start, arguments := field.arguments.map WrittenInput.unplaced }

def WrittenBody.unplaced : WrittenBody → WrittenBody
  | scalar => scalar
  | object interfaces fields => object interfaces (fields.map WrittenField.unplaced)
  | interface interfaces fields => interface interfaces (fields.map WrittenField.unplaced)
  | union members => union members
  | enum values => enum values
  | input fields => input (fields.map WrittenInput.unplaced)

def WrittenType.unplaced (type : WrittenType) : WrittenType :=
  { type with position := .start, body := type.body.unplaced }

def SchemaDefinition.unplaced : SchemaDefinition → SchemaDefinition
  | schema _ roots => schema .start roots
  | type definition => type definition.unplaced
  | extension addition => extension addition.unplaced
  | directive => directive

section Converted

variable (file? : Option String)

theorem WrittenField.field_unplaced (parent : String) (field : WrittenField) :
    (field.field file? parent).unplaced = field.unplaced.field none parent := by
  unfold WrittenField.field Field.unplaced WrittenField.unplaced
  dsimp only
  rw [Catalog.map_ofList, List.map_map, List.map_map]
  rfl

theorem fields_unplaced (parent : String) (fields : List WrittenField) :
    (fields.map (·.field file? parent)).map Field.unplaced =
      (fields.map WrittenField.unplaced).map (·.field none parent) := by
  rw [List.map_map, List.map_map]
  exact List.map_congr_left fun field _ => field.field_unplaced file? parent

theorem inputFields_unplaced (parent : String) (fields : List WrittenInput) :
    (fields.map (·.inputField file? parent)).map InputField.unplaced =
      (fields.map WrittenInput.unplaced).map (·.inputField none parent) := by
  rw [List.map_map, List.map_map]
  rfl

theorem WrittenType.definition_unplaced (type : WrittenType) :
    (type.definition file?).unplaced = type.unplaced.definition none := by
  obtain ⟨position, description, name, directives, body⟩ := type
  cases body with
  | object interfaces fields =>
    have same := fields_unplaced file? name fields
    simp only [definition, unplaced, TypeDefinition.unplaced, FieldsType.unplaced,
      WrittenBody.unplaced, Catalog.map_ofList, same]
    rfl
  | interface interfaces fields =>
    have same := fields_unplaced file? name fields
    simp only [definition, unplaced, TypeDefinition.unplaced, FieldsType.unplaced,
      WrittenBody.unplaced, Catalog.map_ofList, same]
    rfl
  | input fields =>
    have same := inputFields_unplaced file? name fields
    simp only [definition, unplaced, TypeDefinition.unplaced, InputObjectType.unplaced,
      WrittenBody.unplaced, Catalog.map_ofList, same]
    rfl
  | _ => rfl

theorem TypeDefinition.extended?_unplaced (type : TypeDefinition) (addition : WrittenType) :
    (type.extended? file? addition).map unplaced =
      type.unplaced.extended? none addition.unplaced := by
  obtain ⟨position, description, name, directives, body⟩ := addition
  cases type with
  | object type =>
    cases body with
    | object interfaces fields =>
      have same := fields_unplaced file? name fields
      simp only [extended?, unplaced, FieldsType.unplaced, WrittenType.unplaced,
        WrittenBody.unplaced, Option.map_some, Catalog.map_insertAll, same]
    | _ => rfl
  | interface type =>
    cases body with
    | interface interfaces fields =>
      have same := fields_unplaced file? name fields
      simp only [extended?, unplaced, FieldsType.unplaced, WrittenType.unplaced,
        WrittenBody.unplaced, Option.map_some, Catalog.map_insertAll, same]
    | _ => rfl
  | input type =>
    cases body with
    | input fields =>
      have same := inputFields_unplaced file? name fields
      simp only [extended?, unplaced, InputObjectType.unplaced, WrittenType.unplaced,
        WrittenBody.unplaced, Option.map_some, Catalog.map_insertAll, same]
    | _ => rfl
  | _ => cases body <;> rfl

end Converted

/-- What comes of a step, without places: neither in what is made nor in what is wrong. -/
def unplacedBy {α : Type} (f : α → α) : Except SchemaError α → Except SchemaError α
  | .ok a => .ok (f a)
  | .error failure => .error failure.unplaced

theorem unplacedBy_bind {α β : Type} {f : α → α} {g : β → β} {first first' : Except SchemaError α}
    {next next' : α → Except SchemaError β} (same : unplacedBy f first = first')
    (each : ∀ a, unplacedBy g (next a) = next' (f a)) :
    unplacedBy g (first >>= next) = first' >>= next' := by
  subst same
  cases first with
  | error failure => rfl
  | ok a => exact each a

theorem unplacedBy_foldlM {α β : Type} {f : α → α} {g : β → β}
    {step step' : α → β → Except SchemaError α}
    (each : ∀ a b, unplacedBy f (step a b) = step' (f a) (g b)) (a : α) (items : List β) :
    unplacedBy f (items.foldlM step a) = (items.map g).foldlM step' (f a) := by
  induction items generalizing a with
  | nil => rfl
  | cons item items ih =>
    rw [List.map_cons, List.foldlM_cons, List.foldlM_cons]
    exact unplacedBy_bind (each a item) ih

namespace SchemaBuilder

def unplacedExtension (extension : Option String × WrittenType) : Option String × WrittenType :=
  (none, extension.2.unplaced)

def unplaced (builder : SchemaBuilder) : SchemaBuilder :=
  { builder with
    types := builder.types.unplaced
    schemaPlace := builder.schemaPlace.map SourcePosition.unplaced
    extensions := builder.extensions.map unplacedExtension }

theorem addType_unplaced (builder : SchemaBuilder) (type : TypeDefinition) :
    unplacedBy unplaced (builder.addType type) = builder.unplaced.addType type.unplaced := by
  have found : builder.unplaced.types.find? type.unplaced.name =
      (builder.types.find? type.name).map TypeDefinition.unplaced := by
    rw [type.unplaced_name]
    exact builder.types.find?_unplaced type.name
  unfold addType
  rw [found]
  cases builder.types.find? type.name with
  | some existing =>
    simp only [Option.map_some, unplacedBy, SchemaError.unplaced,
      TypeDefinition.unplaced_location, TypeDefinition.unplaced_name]
  | none =>
    simp only [Option.map_none, unplacedBy, unplaced, Catalog.unplaced_insert]

theorem add_unplaced (file? : Option String) (builder : SchemaBuilder)
    (definition : SchemaDefinition) :
    unplacedBy unplaced (builder.add file? definition) =
      builder.unplaced.add none definition.unplaced := by
  cases definition with
  | schema position roots =>
    obtain ⟨types, oldRoots, declared, place, extensions⟩ := builder
    cases place <;> rfl
  | type definition =>
    have converted := definition.definition_unplaced file?
    show unplacedBy unplaced (builder.addType (definition.definition file?)) = _
    rw [addType_unplaced, converted]
    rfl
  | extension addition =>
    show Except.ok _ = Except.ok _
    congr 1
    unfold unplaced
    dsimp only
    rw [List.map_append]
    rfl
  | directive => rfl

theorem applyExtension_unplaced (types : Catalog TypeDefinition)
    (extension : Option String × WrittenType) :
    unplacedBy Catalog.unplaced (applyExtension types extension) =
      applyExtension types.unplaced (unplacedExtension extension) := by
  obtain ⟨file?, addition⟩ := extension
  have found : types.unplaced.find? addition.unplaced.name =
      (types.find? addition.name).map TypeDefinition.unplaced :=
    types.find?_unplaced addition.name
  unfold applyExtension unplacedExtension
  dsimp only
  rw [found]
  cases types.find? addition.name with
  | none => rfl
  | some type =>
    rw [Option.map_some]
    dsimp only
    rw [← type.extended?_unplaced file? addition]
    cases type.extended? file? addition with
    | none => rfl
    | some extended =>
      exact congrArg Except.ok (types.unplaced_insert extended)

theorem queryRoot_unplaced (types : Catalog TypeDefinition) (roots : RootNames) :
    unplacedBy id (queryRoot types roots) = queryRoot types.unplaced roots := by
  unfold queryRoot
  dsimp only
  rw [Catalog.find?_unplaced]
  cases types.find? (roots.query.getD OperationKind.query.capitalized) with
  | none => rfl
  | some type => cases type <;> rfl

theorem optionalRoot_unplaced (types : Catalog TypeDefinition) (declared : Bool)
    (kind : OperationKind) (explicit : Option String) :
    unplacedBy id (optionalRoot types declared kind explicit) =
      optionalRoot types.unplaced declared kind explicit := by
  unfold optionalRoot
  cases explicit with
  | some name =>
    dsimp only
    rw [Catalog.find?_unplaced]
    cases types.find? name with
    | none => rfl
    | some type => cases type <;> rfl
  | none =>
    dsimp only
    rw [Catalog.find?_unplaced]
    cases declared with
    | true => rfl
    | false =>
      cases types.find? kind.capitalized with
      | none => rfl
      | some type => cases type <;> rfl

theorem build_unplaced (builder : SchemaBuilder) :
    unplacedBy Schema.unplaced builder.build = builder.unplaced.build := by
  unfold build
  refine unplacedBy_bind (unplacedBy_foldlM applyExtension_unplaced _ _) fun types => ?_
  refine unplacedBy_bind (queryRoot_unplaced types builder.roots) fun query => ?_
  refine unplacedBy_bind (optionalRoot_unplaced types _ .mutation _) fun mutation => ?_
  exact unplacedBy_bind (optionalRoot_unplaced types _ .subscription _) fun subscription => rfl

end SchemaBuilder

end QueryEditor
