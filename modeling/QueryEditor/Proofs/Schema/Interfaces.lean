import QueryEditor.Proofs.Schema.Sound

namespace QueryEditor

def WrittenType.interfaces (type : WrittenType) : List String :=
  match type.body with
  | .object interfaces _ => interfaces
  | .interface interfaces _ => interfaces
  | _ => []

def Introspection.TypeEntry.interfaceNames (entry : TypeEntry) : List String :=
  entry.interfaces.filterMap TypeReference.name

namespace Declaration

def interfaces : Declaration → List String
  | written _ type => type.interfaces
  | described entry => entry.interfaceNames

/-- The interfaces that are kept where the type is itself an interface. -/
def keptInterfaces : Declaration → List String
  | written _ _ => []
  | described entry => entry.interfaceNames

end Declaration

def TypeDefinition.interfaces : TypeDefinition → List String
  | interface type => type.interfaces
  | object type => type.interfaces
  | _ => []

theorem WrittenType.definition_interfaces (file? : Option String) (type : WrittenType) :
    (type.definition file?).interfaces =
      if (type.definition file?).kind = .object then type.interfaces else [] := by
  unfold definition interfaces
  dsimp only
  cases type.body <;> rfl

theorem Introspection.type_interfaces {entry : TypeEntry} {type : TypeDefinition}
    (done : Introspection.type entry = .ok type)
    (implements : type.kind = .object ∨ type.kind = .interface) :
    type.interfaces = entry.interfaceNames := by
  rcases Introspection.type_cases done with
    ⟨values, rfl⟩ | rfl | rfl | ⟨fields, -, rfl⟩ | ⟨fields, -, rfl | rfl⟩
  any_goals rfl
  all_goals rcases implements with other | other <;> cases other

namespace Declaration

variable {declaration : Declaration} {type : TypeDefinition}

theorem type?_object (declared : declaration.type? = some type) (object : type.kind = .object) :
    type.interfaces = declaration.interfaces := by
  cases declaration with
  | written file? written =>
    cases declared
    rw [written.definition_interfaces file?, if_pos object]
    rfl
  | described entry =>
    exact Introspection.type_interfaces (toOption_eq_some.mp declared) (Or.inl object)

theorem type?_interface (declared : declaration.type? = some type)
    (interface : type.kind = .interface) : type.interfaces = declaration.keptInterfaces := by
  cases declaration with
  | written file? written =>
    cases declared
    rw [written.definition_interfaces file?, interface, if_neg nofun]
    rfl
  | described entry =>
    exact Introspection.type_interfaces (toOption_eq_some.mp declared) (Or.inr interface)

end Declaration

namespace TypeDefinition

theorem extended?_interfaces {type extended : TypeDefinition} {file? : Option String}
    {addition : WrittenType} (done : type.extended? file? addition = some extended) :
    extended.interfaces =
      type.interfaces ++ if type.kind = .object then addition.interfaces else [] := by
  unfold extended? at done
  dsimp only at done
  unfold WrittenType.interfaces
  cases body : addition.body <;> rw [body] at done <;> cases type <;> cases done
  case object.object => rfl
  all_goals exact (List.append_nil _).symm

theorem extendedBy?_interfaces {type result : TypeDefinition}
    {extensions : List (Option String × WrittenType)}
    (done : type.extendedBy? extensions = some result) :
    result.interfaces = type.interfaces ++
      if type.kind = .object then extensions.flatMap (·.2.interfaces) else [] := by
  induction extensions generalizing type with
  | nil =>
    cases done
    split <;> exact (List.append_nil _).symm
  | cons extension extensions ih =>
    obtain ⟨file?, addition⟩ := extension
    rw [extendedBy?_cons] at done
    obtain ⟨extended, first, rest⟩ := Option.bind_eq_some_iff.mp done
    rw [ih rest, extended?_interfaces first, extended?_kind first, List.append_assoc]
    split <;> rfl

theorem kind_object {type : TypeDefinition} (kind : type.kind = .object) :
    ∃ own, type = .object own := by
  cases type <;> cases kind
  exact ⟨_, rfl⟩

theorem kind_interface {type : TypeDefinition} (kind : type.kind = .interface) :
    ∃ own, type = .interface own := by
  cases type <;> cases kind
  exact ⟨_, rfl⟩

end TypeDefinition

namespace SchemaBuilder

variable {sources : List Source} {builder : SchemaBuilder} {schema : Schema}

/-- No type is declared twice. An object type implements what its declaration names, then what its
extensions name; an interface what an introspection result lists, and nothing that a schema text
names. -/
theorem built_interfaces (loaded : sources.foldlM load {} = .ok builder)
    (built : builder.build = .ok schema) :
    ((sources.flatMap (·.declarations)).map Declaration.name).Nodup ∧
    (∀ name type, schema.type? name = some (.object type) →
      ∃ declaration ∈ sources.flatMap (·.declarations), declaration.name = name ∧
        type.interfaces = declaration.interfaces ++
          ((sources.flatMap (·.extensions)).filter (·.2.name == name)).flatMap (·.2.interfaces)) ∧
    ∀ name type, schema.type? name = some (.interface type) →
      ∃ declaration ∈ sources.flatMap (·.declarations), declaration.name = name ∧
        type.interfaces = declaration.keptInterfaces := by
  have extensions : ∀ name, builder.extensionsOf name =
      (sources.flatMap (·.extensions)).filter (·.2.name == name) := by
    intro name
    rw [extensionsOf, (sources_loaded loaded).extensions]
    rfl
  refine ⟨?_, fun name type known => ?_, fun name type known => ?_⟩
  · have distinct : builder.types.names.Nodup := builder.types.distinct
    rw [loaded_names loaded] at distinct
    exact (List.nodup_append.mp distinct).2.1
  · obtain ⟨declaration, among, called, start, declared, extended⟩ :=
      built_declared loaded built known nofun
    have object : start.kind = .object := (TypeDefinition.extendedBy?_kind extended).symm
    have kept := TypeDefinition.extendedBy?_interfaces extended
    rw [if_pos object, Declaration.type?_object declared object, extensions name] at kept
    exact ⟨declaration, among, called, kept⟩
  · obtain ⟨declaration, among, called, start, declared, extended⟩ :=
      built_declared loaded built known nofun
    have interface : start.kind = .interface := (TypeDefinition.extendedBy?_kind extended).symm
    have kept := TypeDefinition.extendedBy?_interfaces extended
    rw [Declaration.type?_interface declared interface, interface, if_neg nofun,
      List.append_nil] at kept
    exact ⟨declaration, among, called, kept⟩

def implementingSources : List Source :=
  [.text none ("interface A interface B implements A type Query implements B " ++
      "extend type Query implements A \x7b a: Int \x7d"),
    .introspection ("\x7b\"__schema\":\x7b\"types\":[\x7b\"kind\":\"INTERFACE\",\"name\":\"C\"," ++
      "\"interfaces\":[\x7b\"kind\":\"INTERFACE\",\"name\":\"A\"\x7d]\x7d]\x7d\x7d")]

theorem built_interfaces_implementing : ∃ builder schema query written described,
    implementingSources.foldlM load {} = .ok builder ∧ builder.build = .ok schema ∧
    ((implementingSources.flatMap (·.declarations)).map Declaration.name).Nodup ∧
    schema.type? "Query" = some (.object query) ∧ query.interfaces = ["B", "A"] ∧
    (∃ declaration ∈ implementingSources.flatMap (·.declarations), declaration.name = "Query" ∧
      query.interfaces = declaration.interfaces ++ ((implementingSources.flatMap (·.extensions)).filter
        (·.2.name == "Query")).flatMap (·.2.interfaces)) ∧
    schema.type? "B" = some (.interface written) ∧ written.interfaces = [] ∧
    (∃ declaration ∈ implementingSources.flatMap (·.declarations), declaration.name = "B" ∧
      written.interfaces = declaration.keptInterfaces) ∧
    schema.type? "C" = some (.interface described) ∧ described.interfaces = ["A"] ∧
    ∃ declaration ∈ implementingSources.flatMap (·.declarations), declaration.name = "C" ∧
      described.interfaces = declaration.keptInterfaces := by
  have done : ((implementingSources.foldlM load {} >>= build).toOption.map fun schema =>
      ["Query", "B", "C"].map fun name =>
        (schema.type? name).map fun type => (type.kind, type.interfaces)) =
      some [some (.object, ["B", "A"]), some (.interface, []), some (.interface, ["A"])] := by
    decide +kernel
  obtain ⟨schema, result, types⟩ := Option.map_eq_some_iff.mp done
  obtain ⟨builder, loaded, built⟩ := bind_eq_ok.mp (toOption_eq_some.mp result)
  simp only [List.map_cons, List.map_nil, List.cons.injEq, Option.map_eq_some_iff, Prod.mk.injEq,
    and_true] at types
  obtain ⟨⟨type, isQuery, kind, own⟩, ⟨first, isWritten, firstKind, none⟩,
    ⟨second, isDescribed, secondKind, listed⟩⟩ := types
  obtain ⟨query, rfl⟩ := TypeDefinition.kind_object kind
  obtain ⟨written, rfl⟩ := TypeDefinition.kind_interface firstKind
  obtain ⟨described, rfl⟩ := TypeDefinition.kind_interface secondKind
  obtain ⟨distinct, objects, interfaces⟩ := built_interfaces loaded built
  exact ⟨builder, schema, query, written, described, loaded, built, distinct, isQuery, own,
    objects _ _ isQuery, isWritten, none, interfaces _ _ isWritten, isDescribed, listed,
    interfaces _ _ isDescribed⟩

def reportedInterfaces (source : Source) (name : String) : Option (List String) :=
  ((load {} source >>= build).toOption.bind (·.type? name)).map (·.interfaces)

def chainedText : String :=
  "interface A interface B implements A type Query"

def chainedResult : String :=
  "\x7b\"__schema\":\x7b\"types\":[\x7b\"kind\":\"INTERFACE\",\"name\":\"A\"\x7d," ++
    "\x7b\"kind\":\"INTERFACE\",\"name\":\"B\",\"interfaces\":" ++
      "[\x7b\"kind\":\"INTERFACE\",\"name\":\"A\"\x7d]\x7d," ++
    "\x7b\"kind\":\"OBJECT\",\"name\":\"Query\"\x7d]\x7d\x7d"

/-- The text says that `B` implements `A`, as the introspection result does; only from the result is it
reported. -/
theorem written_interfaces_lost :
    (Source.text none chainedText).declarations.map (fun type => (type.name, type.interfaces)) =
      [("A", []), ("B", ["A"]), ("Query", [])] ∧
    reportedInterfaces (.text none chainedText) "B" = some [] ∧
    reportedInterfaces (.introspection chainedResult) "B" = some ["A"] := by
  refine ⟨?_, ?_, ?_⟩ <;> decide +kernel

end SchemaBuilder

end QueryEditor
