import QueryEditor.Proofs.Catalog
import QueryEditor.Schema.Builder

namespace QueryEditor

theorem bind_eq_ok {ε α β : Type} {first : Except ε α} {next : α → Except ε β} {b : β} :
    first >>= next = .ok b ↔ ∃ a, first = .ok a ∧ next a = .ok b := by
  cases first with
  | error failure => exact ⟨nofun, nofun⟩
  | ok a => exact ⟨fun done => ⟨a, rfl, done⟩, fun ⟨_, same, done⟩ => by cases same; exact done⟩

theorem toOption_eq_some {ε α : Type} {result : Except ε α} {a : α} :
    result.toOption = some a ↔ result = .ok a := by
  cases result with
  | error failure => exact ⟨nofun, nofun⟩
  | ok b => exact ⟨fun same => congrArg _ (Option.some.inj same), fun same => by cases same; rfl⟩

theorem Introspection.type_cases {entry : TypeEntry} {type : TypeDefinition}
    (done : Introspection.type entry = .ok type) :
    let head : TypeHead :=
      { name := entry.name, location := .introspection, description := entry.description }
    let interfaces := entry.interfaces.filterMap TypeReference.name
    let members := entry.possibleTypes.filterMap TypeReference.name
    (∃ values, type = .enum { toTypeHead := head, values }) ∨ type = .scalar head ∨
      type = .union { toTypeHead := head, members } ∨
      (∃ fields, entry.inputFields.mapM (inputField entry.name) = .ok fields ∧
        type = .input { toTypeHead := head, fields := .ofList fields }) ∨
      ∃ fields, entry.fields.mapM (field entry.name) = .ok fields ∧
        (type = .interface { toTypeHead := head, fields := .ofList fields, interfaces } ∨
          type = .object { toTypeHead := head, fields := .ofList fields, interfaces }) := by
  unfold Introspection.type at done
  dsimp only at done ⊢
  cases kind : entry.kind <;> rw [kind] at done
  case enum =>
    cases done
    exact Or.inl ⟨_, rfl⟩
  case scalar =>
    cases done
    exact Or.inr (Or.inl rfl)
  case union =>
    cases done
    exact Or.inr (Or.inr (Or.inl rfl))
  case inputObject =>
    obtain ⟨fields, read, done⟩ := bind_eq_ok.mp done
    cases done
    exact Or.inr (Or.inr (Or.inr (Or.inl ⟨fields, read, rfl⟩)))
  case interface =>
    obtain ⟨fields, read, done⟩ := bind_eq_ok.mp done
    cases done
    exact Or.inr (Or.inr (Or.inr (Or.inr ⟨fields, read, Or.inl rfl⟩)))
  case object =>
    obtain ⟨fields, read, done⟩ := bind_eq_ok.mp done
    cases done
    exact Or.inr (Or.inr (Or.inr (Or.inr ⟨fields, read, Or.inr rfl⟩)))
  case list | nonNull => cases done

inductive Source where
  | text (file? : Option String) (content : String)
  | introspection (content : String)

inductive Declaration where
  | written (file? : Option String) (type : WrittenType)
  | described (entry : Introspection.TypeEntry)

namespace Declaration

def name : Declaration → String
  | written _ type => type.name
  | described entry => entry.name

def type? : Declaration → Option TypeDefinition
  | written file? type => some (type.definition file?)
  | described entry => (Introspection.type entry).toOption

theorem type?_name {declaration : Declaration} {type : TypeDefinition}
    (declared : declaration.type? = some type) : type.name = declaration.name := by
  cases declaration with
  | written file? written =>
    cases declared
    unfold WrittenType.definition
    dsimp only
    cases written.body <;> rfl
  | described entry =>
    rcases Introspection.type_cases (toOption_eq_some.mp declared) with
      ⟨values, rfl⟩ | rfl | rfl | ⟨fields, -, rfl⟩ | ⟨fields, -, rfl | rfl⟩ <;> rfl

theorem names_type? {declarations : List Declaration}
    (sound : ∀ declaration ∈ declarations, declaration.type?.isSome) :
    (declarations.filterMap type?).map TypeDefinition.name = declarations.map name := by
  induction declarations with
  | nil => rfl
  | cons declaration declarations ih =>
    obtain ⟨type, declared⟩ := Option.isSome_iff_exists.mp (sound declaration List.mem_cons_self)
    rw [List.filterMap_cons_some declared, List.map_cons, List.map_cons, type?_name declared,
      ih fun other member => sound other (List.mem_cons_of_mem _ member)]

end Declaration

namespace SchemaDefinition

variable (file? : Option String)

def declarations : SchemaDefinition → List Declaration
  | type definition => [.written file? definition]
  | _ => []

def extensions : SchemaDefinition → List (Option String × WrittenType)
  | extension addition => [(file?, addition)]
  | _ => []

end SchemaDefinition

namespace Source

def declarations : Source → List Declaration
  | text file? content =>
    ((SchemaSource.definitions? content).getD []).flatMap (·.declarations file?)
  | introspection content =>
    match Introspection.decode content with
    | .ok entry => (entry.types.filter Introspection.isOwn).map .described
    | .error _ => []

def extensions : Source → List (Option String × WrittenType)
  | text file? content => ((SchemaSource.definitions? content).getD []).flatMap (·.extensions file?)
  | introspection _ => []

theorem declarations_text {file? : Option String} {content : String}
    {definitions : List SchemaDefinition}
    (read : SchemaSource.definitions? content = some definitions) :
    (text file? content).declarations = definitions.flatMap (·.declarations file?) := by
  rw [declarations, read]
  rfl

theorem extensions_text {file? : Option String} {content : String}
    {definitions : List SchemaDefinition}
    (read : SchemaSource.definitions? content = some definitions) :
    (text file? content).extensions = definitions.flatMap (·.extensions file?) := by
  rw [extensions, read]
  rfl

theorem declarations_introspection {content : String} {entry : Introspection.SchemaEntry}
    (decoded : Introspection.decode content = .ok entry) :
    (introspection content).declarations =
      (entry.types.filter Introspection.isOwn).map .described := by
  rw [declarations, decoded]

end Source

namespace SchemaBuilder

def load (builder : SchemaBuilder) : Source → Except SchemaError SchemaBuilder
  | .text file? content => builder.loadText file? content
  | .introspection content => builder.loadIntrospection content

/-- After loading, the types that are declared stand behind those before, each under a new name, and
so do the extensions. -/
structure Loaded (before : SchemaBuilder) (declarations : List Declaration)
    (extensions : List (Option String × WrittenType)) (after : SchemaBuilder) : Prop where
  types : after.types.entries = before.types.entries ++ declarations.filterMap Declaration.type?
  sound : ∀ declaration ∈ declarations, declaration.type?.isSome
  extensions : after.extensions = before.extensions ++ extensions

namespace Loaded

variable {before between after : SchemaBuilder} {first second : List Declaration}
  {early late : List (Option String × WrittenType)}

theorem nothing (types : after.types = before.types)
    (extensions : after.extensions = before.extensions) : Loaded before [] [] after where
  types := by rw [types]; exact (List.append_nil _).symm
  sound := nofun
  extensions := by rw [extensions, List.append_nil]

theorem trans (start : Loaded before first early between) (rest : Loaded between second late after) :
    Loaded before (first ++ second) (early ++ late) after where
  types := by rw [rest.types, start.types, List.filterMap_append, List.append_assoc]
  sound := by
    intro declaration member
    rcases List.mem_append.mp member with member | member
    · exact start.sound declaration member
    · exact rest.sound declaration member
  extensions := by rw [rest.extensions, start.extensions, List.append_assoc]

theorem foldlM {α : Type} {step : SchemaBuilder → α → Except SchemaError SchemaBuilder}
    {declared : α → List Declaration} {extending : α → List (Option String × WrittenType)}
    (each : ∀ before item after, step before item = .ok after →
      Loaded before (declared item) (extending item) after)
    {items : List α} (done : items.foldlM step before = .ok after) :
    Loaded before (items.flatMap declared) (items.flatMap extending) after := by
  induction items generalizing before with
  | nil =>
    cases done
    exact nothing rfl rfl
  | cons item items ih =>
    rw [List.foldlM_cons] at done
    obtain ⟨between, first, rest⟩ := bind_eq_ok.mp done
    exact (each before item between first).trans (ih rest)

end Loaded

variable {builder after : SchemaBuilder}

theorem addType_ok {type : TypeDefinition} (done : builder.addType type = .ok after) :
    builder.types.find? type.name = none ∧
      after = { builder with types := builder.types.insert type } := by
  unfold addType at done
  split at done
  · cases done
  case h_2 new =>
    cases done
    exact ⟨new, rfl⟩

theorem addType_loaded {type : TypeDefinition} {declaration : Declaration}
    (sound : declaration.type? = some type) (done : builder.addType type = .ok after) :
    Loaded builder [declaration] [] after := by
  obtain ⟨new, rfl⟩ := addType_ok done
  refine ⟨?_, ?_, (List.append_nil _).symm⟩
  · rw [List.filterMap_cons_some sound]
    exact Catalog.entries_insert_new new
  · intro other member
    rw [List.mem_singleton.mp member, sound]
    rfl

theorem add_loaded (file? : Option String) (definition : SchemaDefinition)
    (done : builder.add file? definition = .ok after) :
    Loaded builder (definition.declarations file?) (definition.extensions file?) after := by
  cases definition with
  | schema position roots =>
    unfold add at done
    dsimp only at done
    split at done
    · cases done
    · cases done
      exact .nothing rfl rfl
  | type definition => exact addType_loaded rfl done
  | extension addition =>
    cases done
    exact ⟨(List.append_nil _).symm, nofun, rfl⟩
  | directive =>
    cases done
    exact .nothing rfl rfl

theorem loadText_ok {file? : Option String} {text : String}
    (done : builder.loadText file? text = .ok after) :
    ∃ definitions, SchemaSource.definitions? text = some definitions ∧
      definitions.foldlM (add file?) builder = .ok after := by
  unfold loadText at done
  split at done
  · cases done
  case h_2 definitions read => exact ⟨definitions, read, done⟩

theorem loadIntrospection_ok {text : String} (done : builder.loadIntrospection text = .ok after) :
    ∃ entry, Introspection.decode text = .ok entry ∧
      (entry.types.filter Introspection.isOwn).foldlM
        (fun builder entry => do builder.addType (← Introspection.type entry))
        (builder.declareRoots ⟨entry.queryType, entry.mutationType, entry.subscriptionType⟩) =
          .ok after := by
  unfold loadIntrospection at done
  exact bind_eq_ok.mp done

theorem load_loaded (source : Source) (done : builder.load source = .ok after) :
    Loaded builder source.declarations source.extensions after := by
  cases source with
  | text file? content =>
    obtain ⟨definitions, read, done⟩ := loadText_ok done
    rw [Source.declarations_text read, Source.extensions_text read]
    exact .foldlM (fun _ definition _ => add_loaded file? definition) done
  | introspection content =>
    obtain ⟨entry, decoded, done⟩ := loadIntrospection_ok done
    have each : ∀ (before : SchemaBuilder) (entry : Introspection.TypeEntry) after,
        (do before.addType (← Introspection.type entry)) = .ok after →
          Loaded before [.described entry] [] after := by
      intro before entry after done
      obtain ⟨type, described, done⟩ := bind_eq_ok.mp done
      have sound : (Declaration.described entry).type? = some type := by
        rw [Declaration.type?, described]
        rfl
      exact addType_loaded sound done
    have loaded := Loaded.foldlM each done
    rw [← List.map_eq_flatMap, ← Source.declarations_introspection decoded,
      List.flatMap_eq_nil_iff.mpr fun _ _ => rfl] at loaded
    exact ⟨loaded.types, loaded.sound, loaded.extensions⟩

theorem sources_loaded {sources : List Source} (done : sources.foldlM load builder = .ok after) :
    Loaded builder (sources.flatMap (·.declarations)) (sources.flatMap (·.extensions)) after :=
  .foldlM (fun _ source _ => load_loaded source) done

section New

variable {sources : List Source}

theorem start_types : ({} : SchemaBuilder).types.entries = BuiltinScalar.all.map .builtin := by
  decide

theorem entries_cases (loaded : sources.foldlM load {} = .ok builder) {type : TypeDefinition}
    (member : type ∈ builder.types.entries) :
    (∃ kind, type = .builtin kind) ∨
      ∃ declaration ∈ sources.flatMap (·.declarations), declaration.type? = some type := by
  rw [(sources_loaded loaded).types, start_types] at member
  rcases List.mem_append.mp member with member | member
  · obtain ⟨kind, -, rfl⟩ := List.mem_map.mp member
    exact Or.inl ⟨kind, rfl⟩
  · exact Or.inr (List.mem_filterMap.mp member)

theorem loaded_names (loaded : sources.foldlM load {} = .ok builder) :
    builder.types.names = BuiltinScalar.all.map BuiltinScalar.name ++
      (sources.flatMap (·.declarations)).map Declaration.name := by
  have all := sources_loaded loaded
  rw [builder.types.names_eq, all.types, start_types, List.map_append, List.map_map,
    ← Declaration.names_type? all.sound]
  rfl

end New

end SchemaBuilder

end QueryEditor
