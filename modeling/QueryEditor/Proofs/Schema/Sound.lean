import QueryEditor.Proofs.Schema.Extended

namespace QueryEditor

def Catalog.Keyed {α : Type} [HasName α] (catalog : Catalog α) : Prop :=
  ∀ slot ∈ catalog.slots, HasName.nameOf slot.value = slot.name

namespace TypeDefinition

def Keyed : TypeDefinition → Prop
  | enum type => type.values.Keyed
  | input type => type.fields.Keyed
  | interface type => type.fields.Keyed ∧ ∀ field ∈ type.fields.entries, field.arguments.Keyed
  | object type => type.fields.Keyed ∧ ∀ field ∈ type.fields.entries, field.arguments.Keyed
  | _ => True

/-- The fields of a type know that it holds them. -/
def OwnsFields : TypeDefinition → Prop
  | input type => ∀ field ∈ type.fields.entries, field.parent = type.name
  | interface type => ∀ field ∈ type.fields.entries, field.parent = type.name
  | object type => ∀ field ∈ type.fields.entries, field.parent = type.name
  | _ => True

theorem keyed (type : TypeDefinition) : type.Keyed := by
  cases type with
  | enum type => exact type.values.keyed
  | input type => exact type.fields.keyed
  | interface type => exact ⟨type.fields.keyed, fun field _ => field.arguments.keyed⟩
  | object type => exact ⟨type.fields.keyed, fun field _ => field.arguments.keyed⟩
  | _ => exact True.intro

end TypeDefinition

/-- What every later look-up in a schema relies on. -/
structure Schema.Sound (schema : Schema) : Prop where
  keyed : schema.types.Keyed
  inside : ∀ type ∈ schema.types.entries, type.Keyed
  owned : ∀ type ∈ schema.types.entries, type.OwnsFields
  builtins : ∀ name kind, schema.type? name = some (.builtin kind) ↔ name = kind.name
  query : (schema.root? .query).isSome
  roots : ∀ kind name, schema.rootName? kind = some name →
    ∃ type, schema.type? name = some (.object type)
  recorded : ∀ kind, (schema.root? kind).isSome ↔ (schema.rootName? kind).isSome

theorem mem_of_mapM_ok {ε α β : Type} {f : α → Except ε β} {items : List α} {results : List β}
    (done : items.mapM f = .ok results) {b : β} (member : b ∈ results) :
    ∃ item ∈ items, f item = .ok b := by
  induction items generalizing results with
  | nil =>
    cases done
    cases member
  | cons item items ih =>
    rw [List.mapM_cons] at done
    obtain ⟨first, here, done⟩ := bind_eq_ok.mp done
    obtain ⟨others, rest, done⟩ := bind_eq_ok.mp done
    cases done
    rcases List.mem_cons.mp member with rfl | member
    · exact ⟨item, List.mem_cons_self, here⟩
    · obtain ⟨other, there, result⟩ := ih rest member
      exact ⟨other, List.mem_cons_of_mem _ there, result⟩

namespace WrittenType

theorem definition_owns (file? : Option String) (type : WrittenType) :
    (type.definition file?).OwnsFields := by
  unfold definition
  dsimp only
  cases type.body with
  | object interfaces fields => exact Catalog.insertAll_all nofun fun _ _ => rfl
  | interface interfaces fields => exact Catalog.insertAll_all nofun fun _ _ => rfl
  | input fields => exact Catalog.insertAll_all nofun fun _ _ => rfl
  | _ => exact True.intro

end WrittenType

namespace Introspection

theorem field_parent {parent : String} {entry : FieldEntry} {result : Field}
    (done : field parent entry = .ok result) : result.parent = parent := by
  unfold field at done
  obtain ⟨arguments, -, done⟩ := bind_eq_ok.mp done
  obtain ⟨type, -, done⟩ := bind_eq_ok.mp done
  cases done
  rfl

theorem inputField_parent {parent : String} {entry : InputEntry} {result : InputField}
    (done : inputField parent entry = .ok result) : result.parent = parent := by
  unfold inputField at done
  obtain ⟨input, -, done⟩ := bind_eq_ok.mp done
  cases done
  rfl

theorem type_owns {entry : TypeEntry} {result : TypeDefinition}
    (done : type entry = .ok result) : result.OwnsFields := by
  rcases type_cases done with
    ⟨values, rfl⟩ | rfl | rfl | ⟨fields, read, rfl⟩ | ⟨fields, read, kinds⟩
  · exact True.intro
  · exact True.intro
  · exact True.intro
  · intro field member
    obtain ⟨_, -, described⟩ := mem_of_mapM_ok read (Catalog.mem_ofList member)
    exact inputField_parent described
  · have owned : ∀ field ∈ (Catalog.ofList fields).entries, field.parent = entry.name := by
      intro field member
      obtain ⟨_, -, described⟩ := mem_of_mapM_ok read (Catalog.mem_ofList member)
      exact field_parent described
    rcases kinds with rfl | rfl <;> exact owned

end Introspection

theorem Declaration.type?_owns {declaration : Declaration} {type : TypeDefinition}
    (declared : declaration.type? = some type) : type.OwnsFields := by
  cases declaration with
  | written file? written =>
    cases declared
    exact written.definition_owns file?
  | described entry =>
    exact Introspection.type_owns (toOption_eq_some.mp declared)

namespace TypeDefinition

variable {type extended result : TypeDefinition} {file? : Option String} {addition : WrittenType}

theorem extended?_owns (owned : type.OwnsFields) (own : addition.name = type.name)
    (done : type.extended? file? addition = some extended) : extended.OwnsFields := by
  unfold extended? at done
  dsimp only at done
  split at done <;> cases done
  · exact True.intro
  · exact Catalog.insertAll_all owned fun _ _ => own
  · exact Catalog.insertAll_all owned fun _ _ => own
  · exact True.intro
  · exact True.intro
  · exact Catalog.insertAll_all owned fun _ _ => own

theorem extendedBy?_owns {extensions : List (Option String × WrittenType)}
    (owned : type.OwnsFields) (own : ∀ extension ∈ extensions, extension.2.name = type.name)
    (done : type.extendedBy? extensions = some result) : result.OwnsFields := by
  have kept : result.OwnsFields ∧ result.name = type.name := by
    apply extendedBy?_keeps ?_ ⟨owned, rfl⟩ done
    intro before file? addition after member ⟨owned, called⟩ extended
    have own : addition.name = before.name := (own _ member).trans called.symm
    exact ⟨extended?_owns owned own extended, (extended?_name extended).trans called⟩
  exact kept.1

end TypeDefinition

namespace SchemaBuilder

variable {types : Catalog TypeDefinition} {name : String}

theorem queryRoot_ok {roots : RootNames} (done : queryRoot types roots = .ok name) :
    ∃ type, types.find? name = some (.object type) := by
  unfold queryRoot at done
  dsimp only at done
  split at done
  case h_1 type there =>
    cases done
    exact ⟨type, there⟩
  · cases done
  · cases done

theorem optionalRoot_ok {declared : Bool} {kind : OperationKind} {explicit : Option String}
    (done : optionalRoot types declared kind explicit = .ok (some name)) :
    ∃ type, types.find? name = some (.object type) := by
  unfold optionalRoot at done
  split at done
  · split at done
    case h_1 type there =>
      cases done
      exact ⟨type, there⟩
    · cases done
    · cases done
  · split at done
    · cases done
    · split at done
      case h_1 type there =>
        cases done
        exact ⟨type, there⟩
      · cases done

variable {sources : List Source} {builder : SchemaBuilder} {schema : Schema}

theorem loaded_builtin (loaded : sources.foldlM load {} = .ok builder) (kind : BuiltinScalar) :
    builder.types.find? kind.name = some (.builtin kind) := by
  have member : .builtin kind ∈ builder.types.entries := by
    rw [(sources_loaded loaded).types, start_types]
    apply List.mem_append_left
    cases kind <;> decide
  exact Catalog.mem_entries_iff.mp member

theorem built_owns (loaded : sources.foldlM load {} = .ok builder)
    (built : builder.build = .ok schema) {type : TypeDefinition}
    (known : schema.type? name = some type) : type.OwnsFields := by
  obtain ⟨start, there, extended⟩ := built_from built known
  obtain ⟨member, called⟩ := Catalog.find?_mem there
  apply TypeDefinition.extendedBy?_owns ?_ ?_ extended
  · rcases entries_cases loaded member with ⟨kind, rfl⟩ | ⟨declaration, -, declared⟩
    · exact True.intro
    · exact Declaration.type?_owns declared
  · intro extension member
    have own := (List.mem_filter.mp member).2
    exact (eq_of_beq own).trans called.symm

theorem built_builtin (loaded : sources.foldlM load {} = .ok builder)
    (built : builder.build = .ok schema) (kind : BuiltinScalar) :
    schema.type? kind.name = some (.builtin kind) := by
  obtain ⟨result, extended, known⟩ := built_type built (loaded_builtin loaded kind)
  rwa [TypeDefinition.extendedBy?_builtin extended] at known

theorem built_root (built : builder.build = .ok schema) (kind : OperationKind)
    (recorded : schema.rootName? kind = some name) :
    ∃ type, schema.type? name = some (.object type) := by
  obtain ⟨-, query, mutation, subscription⟩ := build_ok built
  cases kind with
  | query =>
    cases recorded
    exact queryRoot_ok query
  | mutation =>
    rw [show schema.mutationName = some name from recorded] at mutation
    exact optionalRoot_ok mutation
  | subscription =>
    rw [show schema.subscriptionName = some name from recorded] at subscription
    exact optionalRoot_ok subscription

theorem root?_isSome (built : builder.build = .ok schema) (kind : OperationKind) :
    (schema.root? kind).isSome ↔ (schema.rootName? kind).isSome := by
  unfold Schema.root?
  cases recorded : schema.rootName? kind with
  | none => exact Iff.rfl
  | some name =>
    obtain ⟨type, there⟩ := built_root built kind recorded
    have found : schema.object? name = some type := by
      rw [Schema.object?, there]
      rfl
    rw [Option.bind_some, found]
    exact Iff.rfl

/-- Whatever sources a schema is built from, it is sound. -/
theorem built_sound (loaded : sources.foldlM load {} = .ok builder)
    (built : builder.build = .ok schema) : schema.Sound where
  keyed := schema.types.keyed
  inside type _ := type.keyed
  owned type member := built_owns loaded built (Catalog.mem_entries_iff.mp member)
  builtins name kind := by
    constructor
    · intro known
      exact (Catalog.find?_mem known).2.symm
    · rintro rfl
      exact built_builtin loaded built kind
  query := (root?_isSome built .query).mpr rfl
  roots kind name recorded := built_root built kind recorded
  recorded := root?_isSome built

/-- An extension before its type, which an introspection result describes, and a type after both. -/
def mixedSources : List Source :=
  [.text none "extend type Query { more(of: Int): [T!] }",
    .introspection ("\x7b\"__schema\":\x7b\"queryType\":\x7b\"name\":\"Query\"\x7d,\"types\":[" ++
      "\x7b\"kind\":\"OBJECT\",\"name\":\"Query\",\"fields\":[]\x7d]\x7d\x7d"),
    .text (some "t.graphql") "type T { id: ID }"]

theorem built_sound_mixed : ∃ builder schema,
    mixedSources.foldlM load {} = .ok builder ∧ builder.build = .ok schema ∧ schema.Sound ∧
      (schema.field? "Query" "more").map (·.parent) = some "Query" := by
  have done : (mixedSources.foldlM load {} >>= build).toOption.bind
      (fun schema => (schema.field? "Query" "more").map (·.parent)) = some "Query" := by
    decide +kernel
  obtain ⟨schema, result, field⟩ := Option.bind_eq_some_iff.mp done
  obtain ⟨builder, loaded, built⟩ := bind_eq_ok.mp (toOption_eq_some.mp result)
  exact ⟨builder, schema, loaded, built, built_sound loaded built, field⟩

end SchemaBuilder

end QueryEditor
