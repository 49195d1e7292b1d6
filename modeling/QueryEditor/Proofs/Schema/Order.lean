import QueryEditor.Proofs.Schema.Fields
import QueryEditor.Proofs.Schema.Unplaced

namespace QueryEditor

namespace SchemaDefinition

def defines : SchemaDefinition → Bool
  | schema _ _ => true
  | type _ => true
  | _ => false

theorem unplaced_defines (definition : SchemaDefinition) :
    definition.unplaced.defines = definition.defines := by
  cases definition <;> rfl

theorem extensions_of_defines {definition : SchemaDefinition} (defines : definition.defines = true)
    (file? : Option String) : definition.extensions file? = [] := by
  cases definition <;> first | rfl | cases defines

end SchemaDefinition

namespace SchemaBuilder

def addAll (builder : SchemaBuilder) (written : List (Option String × SchemaDefinition)) :
    Except SchemaError SchemaBuilder :=
  written.foldlM (fun builder (file?, definition) => builder.add file? definition) builder

def extensionsIn (written : List (Option String × SchemaDefinition)) :
    List (Option String × WrittenType) :=
  written.flatMap fun (file?, definition) => definition.extensions file?

def withExtensions (extensions : List (Option String × WrittenType)) (builder : SchemaBuilder) :
    SchemaBuilder :=
  { builder with extensions }

variable {builder after : SchemaBuilder} {file? : Option String} {definition : SchemaDefinition}
  {written : List (Option String × SchemaDefinition)}

theorem addAll_cons :
    builder.addAll ((file?, definition) :: written) =
      builder.add file? definition >>= (·.addAll written) :=
  List.foldlM_cons

theorem extensionsIn_cons :
    extensionsIn ((file?, definition) :: written) =
      definition.extensions file? ++ extensionsIn written :=
  rfl

theorem addAll_loaded (done : builder.addAll written = .ok after) :
    Loaded builder (written.flatMap fun (file?, definition) => definition.declarations file?)
      (extensionsIn written) after :=
  .foldlM (fun _ (file?, definition) _ => add_loaded file? definition) done

theorem addType_withExtensions (extensions : List (Option String × WrittenType))
    (type : TypeDefinition) :
    (builder.withExtensions extensions).addType type =
      (builder.addType type).map (withExtensions extensions) := by
  have same : (builder.withExtensions extensions).types = builder.types := rfl
  unfold addType
  rw [same]
  cases builder.types.find? type.name <;> rfl

theorem add_withExtensions (defines : definition.defines = true)
    (extensions : List (Option String × WrittenType)) :
    (builder.withExtensions extensions).add file? definition =
      (builder.add file? definition).map (withExtensions extensions) := by
  cases definition with
  | schema position roots =>
    obtain ⟨types, oldRoots, declared, place, old⟩ := builder
    cases place <;> rfl
  | type definition =>
    exact addType_withExtensions extensions (definition.definition file?)
  | extension addition => cases defines
  | directive => cases defines

theorem addAll_withExtensions (defines : ∀ item ∈ written, item.2.defines = true)
    (extensions : List (Option String × WrittenType)) :
    (builder.withExtensions extensions).addAll written =
      (builder.addAll written).map (withExtensions extensions) := by
  induction written generalizing builder with
  | nil => rfl
  | cons item written ih =>
    obtain ⟨file?, definition⟩ := item
    rw [addAll_cons, addAll_cons, add_withExtensions (defines _ List.mem_cons_self)]
    cases builder.add file? definition with
    | error failure => rfl
    | ok next => exact ih fun item member => defines item (List.mem_cons_of_mem _ member)

/-- Extensions can all be loaded after the definitions. -/
theorem addAll_apart (builder : SchemaBuilder) (written : List (Option String × SchemaDefinition)) :
    builder.addAll written =
      (builder.addAll (written.filter (·.2.defines))).map
        (withExtensions (builder.extensions ++ extensionsIn written)) := by
  induction written generalizing builder with
  | nil =>
    show Except.ok builder = Except.ok _
    rw [show extensionsIn [] = [] from rfl, List.append_nil]
    rfl
  | cons item written ih =>
    obtain ⟨file?, definition⟩ := item
    by_cases defines : definition.defines = true
    · rw [List.filter_cons_of_pos (by exact defines), addAll_cons, addAll_cons, extensionsIn_cons,
        SchemaDefinition.extensions_of_defines defines, List.nil_append]
      cases step : builder.add file? definition with
      | error failure => rfl
      | ok next =>
        have kept := (add_loaded file? definition step).extensions
        rw [SchemaDefinition.extensions_of_defines defines, List.append_nil] at kept
        rw [← kept]
        exact ih next
    · rw [List.filter_cons_of_neg (by exact defines), addAll_cons, extensionsIn_cons]
      have only : ∀ item ∈ written.filter (·.2.defines), item.2.defines = true :=
        fun item member => (List.mem_filter.mp member).2
      cases definition with
      | schema position roots => exact absurd rfl defines
      | type definition => exact absurd rfl defines
      | extension addition =>
        -- The definitions that follow do not look at it, so it may as well come after them.
        show (builder.withExtensions (builder.extensions ++ [(file?, addition)])).addAll written = _
        rw [ih, addAll_withExtensions only]
        cases builder.addAll (written.filter (·.2.defines)) with
        | error failure => rfl
        | ok next =>
          show Except.ok _ = Except.ok _
          unfold withExtensions SchemaDefinition.extensions
          dsimp only
          rw [List.append_assoc]
      | directive => exact ih builder

def writtenIn (texts : List (Option String × String)) : List (Option String × SchemaDefinition) :=
  texts.flatMap fun (file?, text) => ((SchemaSource.definitions? text).getD []).map (file?, ·)

def loadTexts (builder : SchemaBuilder) (texts : List (Option String × String)) :
    Except SchemaError SchemaBuilder :=
  texts.foldlM (fun builder (file?, text) => builder.loadText file? text) builder

theorem loadTexts_eq {texts : List (Option String × String)}
    (read : ∀ text ∈ texts, (SchemaSource.definitions? text.2).isSome) (builder : SchemaBuilder) :
    builder.loadTexts texts = builder.addAll (writtenIn texts) := by
  induction texts generalizing builder with
  | nil => rfl
  | cons text texts ih =>
    obtain ⟨file?, text⟩ := text
    obtain ⟨definitions, parsed⟩ := Option.isSome_iff_exists.mp (read _ List.mem_cons_self)
    have first : builder.loadText file? text = builder.addAll (definitions.map (file?, ·)) := by
      unfold loadText addAll
      rw [parsed, List.foldlM_map]
    have written : writtenIn ((file?, text) :: texts) =
        definitions.map (file?, ·) ++ writtenIn texts := by
      unfold writtenIn
      rw [List.flatMap_cons]
      dsimp only
      rw [parsed, Option.getD_some]
    have rest := ih fun text member => read text (List.mem_cons_of_mem _ member)
    unfold loadTexts
    rw [List.foldlM_cons, written, addAll, List.foldlM_append]
    dsimp only
    rw [first]
    exact bind_congr rest

def definedIn (written : List (Option String × SchemaDefinition)) : List SchemaDefinition :=
  (written.filter (·.2.defines)).map (·.2.unplaced)

def extendedIn (written : List (Option String × SchemaDefinition)) : List WrittenType :=
  (extensionsIn written).map (·.2.unplaced)

def unplacedItem (item : Option String × SchemaDefinition) : Option String × SchemaDefinition :=
  (none, item.2.unplaced)

theorem addAll_unplaced (builder : SchemaBuilder)
    (written : List (Option String × SchemaDefinition)) :
    unplacedBy unplaced (builder.addAll written) =
      builder.unplaced.addAll (written.map unplacedItem) :=
  unplacedBy_foldlM (fun builder (file?, definition) => add_unplaced file? builder definition)
    builder written

theorem filter_unplacedItem (written : List (Option String × SchemaDefinition)) :
    (written.map unplacedItem).filter (·.2.defines) = (definedIn written).map (none, ·) := by
  have same : ∀ item, (unplacedItem item).2.defines = item.2.defines :=
    fun item => item.2.unplaced_defines
  unfold definedIn
  rw [List.filter_map, List.map_map]
  exact congrArg (List.map _) (List.filter_congr fun item _ => same item)

theorem extensionsIn_unplacedItem (written : List (Option String × SchemaDefinition)) :
    extensionsIn (written.map unplacedItem) = (extendedIn written).map (none, ·) := by
  induction written with
  | nil => rfl
  | cons item written ih =>
    obtain ⟨file?, definition⟩ := item
    have step : extensionsIn (unplacedItem (file?, definition) :: written.map unplacedItem) =
        definition.unplaced.extensions none ++ extensionsIn (written.map unplacedItem) := rfl
    unfold extendedIn at ih ⊢
    rw [List.map_cons, step, ih, extensionsIn_cons, List.map_append, List.map_append]
    cases definition <;> rfl

/-- What comes of definitions depends on those of types and roots and on the extensions. -/
theorem build_addAll (builder : SchemaBuilder) (written : List (Option String × SchemaDefinition)) :
    unplacedBy Schema.unplaced (builder.addAll written >>= build) =
      (builder.unplaced.addAll ((definedIn written).map (none, ·))).map (withExtensions
        (builder.unplaced.extensions ++ (extendedIn written).map (none, ·))) >>= build := by
  rw [unplacedBy_bind (addAll_unplaced builder written) build_unplaced, addAll_apart,
    filter_unplacedItem, extensionsIn_unplacedItem]

theorem built_written {loaded : SchemaBuilder} {schema : Schema}
    {written : List (Option String × SchemaDefinition)} {file? : Option String} {type : WrittenType}
    (done : builder.addAll written = .ok loaded) (built : loaded.build = .ok schema)
    (member : (file?, .type type) ∈ written) :
    ∃ result, schema.type? type.name = some result ∧ result.Completes file? type
      ((builder.extensions ++ extensionsIn written).filter (·.2.name == type.name)) := by
  have all := addAll_loaded done
  have named := Declaration.type?_name (show (Declaration.written file? type).type? = _ from rfl)
  have among : type.definition file? ∈ loaded.types.entries := by
    rw [all.types]
    apply List.mem_append_right
    apply List.mem_filterMap.mpr
    refine ⟨.written file? type, List.mem_flatMap.mpr ⟨_, member, List.mem_cons_self⟩, rfl⟩
  have known : loaded.types.find? type.name = some (type.definition file?) := by
    rw [← show (type.definition file?).name = type.name from named]
    exact Catalog.mem_entries_iff.mp among
  obtain ⟨result, extended, there⟩ := built_type built known
  rw [extensionsOf, all.extensions] at extended
  exact ⟨result, there, type.extendedBy?_completes extended⟩

theorem built_before {loaded : SchemaBuilder} {schema : Schema}
    {written : List (Option String × SchemaDefinition)} {type : TypeDefinition}
    (done : builder.addAll written = .ok loaded) (built : loaded.build = .ok schema)
    (known : type ∈ builder.types.entries)
    (unextended : ∀ extension ∈ builder.extensions ++ extensionsIn written,
      extension.2.name ≠ type.name) :
    schema.type? type.name = some type := by
  have all := addAll_loaded done
  have among : type ∈ loaded.types.entries := by
    rw [all.types]
    exact List.mem_append_left _ known
  obtain ⟨result, extended, there⟩ := built_type built (Catalog.mem_entries_iff.mp among)
  have none : loaded.extensionsOf type.name = [] := by
    rw [extensionsOf, all.extensions]
    exact List.filter_eq_nil_iff.mpr fun extension member called =>
      unextended extension member (eq_of_beq called)
  rw [show loaded.extensionsOf (HasName.nameOf type) = [] from none] at extended
  cases extended
  exact there

/-- Texts with the same definitions of types and roots, in the same order, and the same extensions, in
the same order, come to the same up to places, whether a schema or an error. In the schema each type
lists its own fields, then those that only its extensions give, each as it was given last; a type that
nothing extends is as it was defined. -/
theorem build_any_order (builder : SchemaBuilder) {first second : List (Option String × String)}
    (readFirst : ∀ text ∈ first, (SchemaSource.definitions? text.2).isSome)
    (readSecond : ∀ text ∈ second, (SchemaSource.definitions? text.2).isSome)
    (defined : definedIn (writtenIn first) = definedIn (writtenIn second))
    (extended : extendedIn (writtenIn first) = extendedIn (writtenIn second)) :
    unplacedBy Schema.unplaced (builder.loadTexts first >>= build) =
      unplacedBy Schema.unplaced (builder.loadTexts second >>= build) ∧
    ∀ loaded schema, builder.loadTexts first = .ok loaded → loaded.build = .ok schema →
      (∀ file? type, (file?, .type type) ∈ writtenIn first →
        ∃ result, schema.type? type.name = some result ∧
          result.Completes file? type ((builder.extensions ++ extensionsIn (writtenIn first)).filter
            (·.2.name == type.name))) ∧
      ∀ type ∈ builder.types.entries,
        (∀ extension ∈ builder.extensions ++ extensionsIn (writtenIn first),
          extension.2.name ≠ type.name) →
        schema.type? type.name = some type := by
  rw [loadTexts_eq readFirst, loadTexts_eq readSecond]
  refine ⟨?_, fun loaded schema done built => ⟨?_, ?_⟩⟩
  · rw [build_addAll, build_addAll, defined, extended]
  · exact fun file? type member => built_written done built member
  · exact fun type known unextended => built_before done built known unextended

def together : List (Option String × String) :=
  [(none, "type Query { a: Int c: Int } extend type Query { b: Int a: ID }")]

def divided : List (Option String × String) :=
  [(some "more.graphql", "extend type Query { b: Int a: ID }"),
    (none, "type Query { a: Int c: Int }")]

theorem build_any_order_divided :
    unplacedBy Schema.unplaced (loadTexts {} together >>= build) =
      unplacedBy Schema.unplaced (loadTexts {} divided >>= build) ∧
    ∃ schema result, (loadTexts {} together >>= build) = .ok schema ∧
      schema.type? "Query" = some result ∧ (result.fields?.map (·.names)) = some ["a", "c", "b"] := by
  have readTogether : ∀ text ∈ together, (SchemaSource.definitions? text.2).isSome := by
    decide +kernel
  have readDivided : ∀ text ∈ divided, (SchemaSource.definitions? text.2).isSome := by
    decide +kernel
  have defined : definedIn (writtenIn together) = definedIn (writtenIn divided) := by
    decide +kernel
  have extended : extendedIn (writtenIn together) = extendedIn (writtenIn divided) := by
    decide +kernel
  have done : ((loadTexts {} together >>= build).toOption.bind fun schema =>
      (schema.type? "Query").bind fun result => result.fields?.map (·.names)) =
        some ["a", "c", "b"] := by
    decide +kernel
  obtain ⟨schema, result, rest⟩ := Option.bind_eq_some_iff.mp done
  obtain ⟨type, known, names⟩ := Option.bind_eq_some_iff.mp rest
  exact ⟨(build_any_order {} readTogether readDivided defined extended).1, schema, type,
    toOption_eq_some.mp result, known, names⟩

end SchemaBuilder

end QueryEditor
