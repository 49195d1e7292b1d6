import QueryEditor.Proofs.Schema.Loaded

namespace QueryEditor

namespace TypeDefinition

def extendedBy? (type : TypeDefinition) (extensions : List (Option String × WrittenType)) :
    Option TypeDefinition :=
  extensions.foldlM (fun type (file?, addition) => type.extended? file? addition) type

variable {type extended result : TypeDefinition} {file? : Option String} {addition : WrittenType}
  {extensions : List (Option String × WrittenType)}

theorem extendedBy?_cons :
    type.extendedBy? ((file?, addition) :: extensions) =
      (type.extended? file? addition).bind (·.extendedBy? extensions) :=
  List.foldlM_cons

theorem extendedBy?_keeps {property : TypeDefinition → Prop}
    (step : ∀ type file? addition extended, (file?, addition) ∈ extensions → property type →
      type.extended? file? addition = some extended → property extended)
    (start : property type) (done : type.extendedBy? extensions = some result) : property result := by
  induction extensions generalizing type with
  | nil =>
    cases done
    exact start
  | cons extension extensions ih =>
    obtain ⟨file?, addition⟩ := extension
    rw [extendedBy?_cons] at done
    obtain ⟨extended, first, rest⟩ := Option.bind_eq_some_iff.mp done
    have next := step type file? addition extended List.mem_cons_self start first
    exact ih (fun type file? addition extended member =>
      step type file? addition extended (List.mem_cons_of_mem _ member)) next rest

theorem extended?_name (done : type.extended? file? addition = some extended) :
    extended.name = type.name := by
  unfold extended? at done
  dsimp only at done
  split at done <;> cases done <;> rfl

def kind : TypeDefinition → Introspection.Kind
  | builtin _ => .scalar
  | scalar _ => .scalar
  | enum _ => .enum
  | input _ => .inputObject
  | interface _ => .interface
  | object _ => .object
  | union _ => .union

theorem extended?_kind (done : type.extended? file? addition = some extended) :
    extended.kind = type.kind := by
  unfold extended? at done
  dsimp only at done
  split at done <;> cases done <;> rfl

theorem extendedBy?_kind (done : type.extendedBy? extensions = some result) :
    result.kind = type.kind := by
  apply extendedBy?_keeps ?_ (Eq.refl type.kind) done
  intro before file? addition after _ same extended
  exact (extended?_kind extended).trans same

theorem extended?_builtin (kind : BuiltinScalar) (file? : Option String) (addition : WrittenType) :
    (builtin kind).extended? file? addition = none :=
  rfl

theorem extendedBy?_builtin {kind : BuiltinScalar} {extensions : List (Option String × WrittenType)}
    (done : (builtin kind).extendedBy? extensions = some result) : result = builtin kind := by
  cases extensions with
  | nil =>
    cases done
    rfl
  | cons extension extensions =>
    rw [extendedBy?_cons, extended?_builtin] at done
    cases done

end TypeDefinition

namespace SchemaBuilder

theorem applyExtension_ok {types built : Catalog TypeDefinition} {file? : Option String}
    {addition : WrittenType} (done : applyExtension types (file?, addition) = .ok built) :
    ∃ type extended, types.find? addition.name = some type ∧
      type.extended? file? addition = some extended ∧ built = types.insert extended := by
  unfold applyExtension at done
  dsimp only at done
  split at done
  · cases done
  case h_2 type there =>
    split at done
    · cases done
    case h_2 extended applied =>
      cases done
      exact ⟨type, extended, there, applied, rfl⟩

/-- Applying extensions leaves each name its place, and makes of each type what its own extensions
make of it. -/
theorem applied_types {types built : Catalog TypeDefinition}
    {extensions : List (Option String × WrittenType)}
    (done : extensions.foldlM applyExtension types = .ok built) :
    built.names = types.names ∧ ∀ name type, types.find? name = some type → ∃ result,
      type.extendedBy? (extensions.filter (·.2.name == name)) = some result ∧
        built.find? name = some result := by
  induction extensions generalizing types with
  | nil =>
    cases done
    exact ⟨rfl, fun _ type there => ⟨type, rfl, there⟩⟩
  | cons extension extensions ih =>
    obtain ⟨file?, addition⟩ := extension
    rw [List.foldlM_cons] at done
    obtain ⟨between, first, rest⟩ := bind_eq_ok.mp done
    obtain ⟨type, extended, there, applied, rfl⟩ := applyExtension_ok first
    obtain ⟨names, each⟩ := ih rest
    have called : extended.name = addition.name :=
      (TypeDefinition.extended?_name applied).trans (Catalog.find?_mem there).2
    refine ⟨?_, fun name other known => ?_⟩
    · have among : HasName.nameOf extended ∈ types.names := by
        show extended.name ∈ types.names
        rw [called]
        exact Catalog.mem_names_of_find? there
      rw [names, Catalog.names_insert, if_pos among]
    · -- An extension of another name is passed over, and leaves this type as it was.
      by_cases same : addition.name = name
      · subst same
        cases there.symm.trans known
        have found : (types.insert extended).find? addition.name = some extended := by
          rw [Catalog.find?_insert]
          exact if_pos called
        obtain ⟨result, done, built⟩ := each _ _ found
        refine ⟨result, ?_, built⟩
        rw [List.filter_cons, if_pos (beq_self_eq_true addition.name),
          TypeDefinition.extendedBy?_cons, applied]
        exact done
      · have found : (types.insert extended).find? name = some other := by
          rw [Catalog.find?_insert]
          exact (if_neg fun taken => same (called.symm.trans taken)).trans known
        obtain ⟨result, done, built⟩ := each _ _ found
        refine ⟨result, ?_, built⟩
        rwa [List.filter_cons, if_neg (mt eq_of_beq same)]

theorem build_ok {builder : SchemaBuilder} {schema : Schema} (done : builder.build = .ok schema) :
    builder.extensions.foldlM applyExtension builder.types = .ok schema.types ∧
      queryRoot schema.types builder.roots = .ok schema.queryName ∧
      optionalRoot schema.types builder.rootsDeclared .mutation builder.roots.mutation =
        .ok schema.mutationName ∧
      optionalRoot schema.types builder.rootsDeclared .subscription builder.roots.subscription =
        .ok schema.subscriptionName := by
  unfold build at done
  obtain ⟨types, applied, done⟩ := bind_eq_ok.mp done
  obtain ⟨query, first, done⟩ := bind_eq_ok.mp done
  obtain ⟨mutation, second, done⟩ := bind_eq_ok.mp done
  obtain ⟨subscription, third, done⟩ := bind_eq_ok.mp done
  cases done
  exact ⟨applied, first, second, third⟩

def extensionsOf (builder : SchemaBuilder) (name : String) : List (Option String × WrittenType) :=
  builder.extensions.filter (·.2.name == name)

section Built

variable {builder : SchemaBuilder} {schema : Schema} {name : String} {type : TypeDefinition}

theorem built_names (done : builder.build = .ok schema) : schema.types.names = builder.types.names :=
  (applied_types (build_ok done).1).1

theorem built_type (done : builder.build = .ok schema) (known : builder.types.find? name = some type) :
    ∃ result, type.extendedBy? (builder.extensionsOf name) = some result ∧
      schema.type? name = some result :=
  (applied_types (build_ok done).1).2 name type known

theorem built_from (done : builder.build = .ok schema) (known : schema.type? name = some type) :
    ∃ start, builder.types.find? name = some start ∧
      start.extendedBy? (builder.extensionsOf name) = some type := by
  have among : name ∈ builder.types.names := by
    rw [← built_names done]
    exact Catalog.mem_names_of_find? known
  obtain ⟨start, there⟩ := Catalog.find?_of_mem_names among
  obtain ⟨result, extended, same⟩ := built_type done there
  cases known.symm.trans same
  exact ⟨start, there, extended⟩

/-- A type of the schema that is no builtin scalar comes from a declaration in one of the sources. -/
theorem built_declared {sources : List Source} (loaded : sources.foldlM load {} = .ok builder)
    (built : builder.build = .ok schema) (known : schema.type? name = some type)
    (own : ∀ kind, type ≠ .builtin kind) :
    ∃ declaration ∈ sources.flatMap (·.declarations), declaration.name = name ∧
      ∃ start, declaration.type? = some start ∧
        start.extendedBy? (builder.extensionsOf name) = some type := by
  obtain ⟨start, there, extended⟩ := built_from built known
  obtain ⟨member, called⟩ := Catalog.find?_mem there
  rcases entries_cases loaded member with ⟨kind, rfl⟩ | ⟨declaration, among, declared⟩
  · exact absurd (TypeDefinition.extendedBy?_builtin extended) (own kind)
  · exact ⟨declaration, among, (Declaration.type?_name declared).symm.trans called, start, declared,
      extended⟩

end Built

end SchemaBuilder

end QueryEditor
