import QueryEditor.Proofs.Defaults.Objects

namespace QueryEditor

namespace TypeDefinition

/-- Whether a value can stand for a type, not looking into the fields of an object. -/
def admits : TypeDefinition → Value → Bool
  | .builtin .boolean, .boolean _ => true
  | .builtin .float, .float _ => true
  | .builtin .int, .int _ => true
  | .builtin .id, .string _ => true
  | .builtin .string, .string _ => true
  | .scalar _, .string _ => true
  | .enum type, .enum name => type.values.names.contains name
  | .input _, .object _ => true
  | _, _ => false

def isInhabited : TypeDefinition → Bool
  | .enum type => !type.values.entries.isEmpty
  | _ => true

theorem admits_defaultValue {type : TypeDefinition} (leaf : type.isLeaf = true)
    (inhabited : type.isInhabited = true) : type.admits type.defaultValue = true := by
  cases type with
  | builtin kind => cases kind <;> rfl
  | scalar head => rfl
  | enum type =>
    obtain ⟨first, others, declared⟩ : ∃ first others, type.values.entries = first :: others := by
      refine List.exists_cons_of_ne_nil fun none => ?_
      rw [isInhabited, none] at inhabited
      cases inhabited
    have value : (TypeDefinition.enum type).defaultValue = .enum first.name := by
      rw [defaultValue, declared]
    have named : first.name ∈ type.values.names := by
      rw [type.values.names_eq, declared]
      exact List.mem_cons_self
    rw [value]
    exact List.contains_iff_mem.mpr named
  | _ => cases leaf

end TypeDefinition

namespace Defaults

variable {schema : Schema} {policy : Policy} {parent : Field} {expanding after : List String}
  {inputs : List InputTarget} {slots fields : List Slot} {around : List Step} {step : Step}

/-- Slots that fit input values: they go by declared names, in the declared order and none twice, and
each is for an input value that is required or asked for, with a value of its type. -/
structure Fits (schema : Schema) (policy : Policy) (parent : Field) (inputs : List InputTarget)
    (slots : List Slot) : Prop where
  declared : (slots.map (·.name)).Sublist (inputs.map (·.name))
  distinct : (slots.map (·.name)).Nodup
  fitting : ∀ slot ∈ slots, ∃ input ∈ inputs, input.name = slot.name ∧
    (input.isRequired = true ∨ policy.fillsOptional parent input = true) ∧
    ∃ type, schema.innermost? input.type = some type ∧ type.admits slot.value = true

section Usual

variable (inhabited : ∀ type ∈ schema.types.entries, type.isInhabited = true)
  (usual : policy.scalarValue = fun _ _ type => type.defaultValue)
include inhabited usual

theorem slotOver_fits {fields : InputObjectType → Filling (List Slot)} {input : InputTarget} {slot : Slot}
    (done : slotOver schema policy parent fields input expanding = some (some slot, after)) :
    ∃ type, schema.innermost? input.type = some type ∧ type.admits slot.value = true := by
  rcases slotOver_cases done with ⟨type, inner, known, -, same⟩ | ⟨-, leaf⟩
  · cases same
    exact ⟨_, known, rfl⟩
  · obtain ⟨type, known, isLeaf, same⟩ := leaf slot rfl
    refine ⟨type, known, ?_⟩
    rw [same, usual]
    exact TypeDefinition.admits_defaultValue isLeaf (inhabited type (Catalog.find?_mem known).1)

theorem slotWithin_fits {depth : Nat} {input : InputTarget} {slot : Slot}
    (done : slotWithin schema policy parent depth input expanding = some (some slot, after)) :
    ∃ type, schema.innermost? input.type = some type ∧ type.admits slot.value = true := by
  cases depth with
  | zero => exact slotOver_fits inhabited usual done
  | succ depth => exact slotOver_fits inhabited usual done

theorem slotsOver_fits {depth : Nat} (distinct : (inputs.map (·.name)).Nodup)
    (run : slotsOver policy parent (slotWithin schema policy parent depth) inputs expanding =
      some (slots, after)) : Fits schema policy parent inputs slots := by
  have sublist : (slots.map (·.name)).Sublist (inputs.map (·.name)) := by
    rw [slotsOver_names run]
    exact List.filter_sublist.map _
  refine ⟨sublist, distinct.sublist sublist, fun slot member => ?_⟩
  obtain ⟨input, among, done⟩ := (slotsOver_cases run).2 slot member
  have called := slotWithin_name done
  have filled := isFilled_of_slot distinct run among (List.mem_map.mpr ⟨slot, member, called⟩)
  rw [isFilled, Bool.or_eq_true] at filled
  exact ⟨input, among, called.symm, filled, slotWithin_fits inhabited usual done⟩

end Usual

theorem fits_nil : Fits schema policy parent inputs [] :=
  ⟨List.nil_sublist _, List.nodup_nil, nofun⟩

/-- Where every enum has a value and the host leaves the values of leaves to the defaults, the arguments
that are filled in fit those that the field declares: just those are there that are required or asked
for and whose type literals are of. The fields of every object, at whatever depth it stands, fit its
type; but for an object inside one of its own type, they are all that are required or asked for. -/
theorem arguments_fit (schema : Schema) (policy : Policy) (field : Field)
    (inhabited : ∀ type ∈ schema.types.entries, type.isInhabited = true)
    (usual : policy.scalarValue = fun _ _ type => type.defaultValue) :
    Fits schema policy field field.inputs (arguments schema policy field) ∧
    (arguments schema policy field).map (·.name) =
      (listed schema policy field field.inputs).map (·.name) ∧
    ∀ around step fields,
      Holds schema field.inputs (arguments schema policy field) around step fields →
      Fits schema policy field step.type.inputs fields ∧
      (step.type.name ∉ around.map (·.type.name) →
        fields.map (·.name) = (listed schema policy field step.type.inputs).map (·.name)) := by
  have top := arguments_run schema policy field
  refine ⟨slotsOver_fits inhabited usual field.inputs_distinct top, slotsOver_names top, ?_⟩
  intro around step fields holds
  obtain ⟨depth, after, run⟩ := holds.run (arguments_made schema policy field) field.inputs_distinct
  rcases fieldsOver_cases run with ⟨again, rfl, -⟩ | ⟨-, _, -, filled⟩
  · exact ⟨fits_nil, fun new => absurd (mem_inside_nil.mp again) new⟩
  · exact ⟨slotsOver_fits inhabited usual step.type.inputs_distinct filled,
      fun _ => slotsOver_names filled⟩

def sortOrder : EnumType where
  name := "Sort"
  location := .introspection
  values := .ofList [{ name := "ASC" }, { name := "DESC" }]

def nestedFilter : InputObjectType :=
  inputObject "Filter" [requiredInput "sort" "Sort", nullableInput "since" (.named "Date" true),
    nullableInput "near" (.named "Point" true), nullableInput "not" (.named "Filter" true)]

def filterSchema : Schema where
  types := .ofList [.builtin .float, .scalar { name := "Date", location := .introspection },
    .enum sortOrder, .input nestedFilter, .object { name := "Query", location := .introspection }]
  queryName := "Query"

def filterField : Field where
  name := "f"
  location := .introspection
  arguments := .ofList [nullableInput "root" (.named "Query" true), requiredInput "filter" "Filter",
    nullableInput "boost" (.list (.named "Float" true) true)]
  parent := "Query"
  type := .named "Int" true

theorem arguments_fit_filter : (∀ type ∈ filterSchema.types.entries, type.isInhabited = true) ∧
    eager.scalarValue = (fun _ _ type => type.defaultValue) ∧
    arguments filterSchema eager filterField =
      [⟨"filter", .object [⟨"sort", .enum "ASC"⟩, ⟨"since", .string ""⟩, ⟨"not", .object []⟩]⟩,
        ⟨"boost", .float (.ofTenths 15)⟩] ∧
    Fits filterSchema eager filterField filterField.inputs
      (arguments filterSchema eager filterField) ∧
    Fits filterSchema eager filterField nestedFilter.inputs
      [⟨"sort", .enum "ASC"⟩, ⟨"since", .string ""⟩, ⟨"not", .object []⟩] := by
  have inhabited : ∀ type ∈ filterSchema.types.entries, type.isInhabited = true := by decide +kernel
  have fit := arguments_fit filterSchema eager filterField inhabited rfl
  have filled : arguments filterSchema eager filterField =
      [⟨"filter", .object [⟨"sort", .enum "ASC"⟩, ⟨"since", .string ""⟩, ⟨"not", .object []⟩]⟩,
        ⟨"boost", .float (.ofTenths 15)⟩] := by
    decide +kernel
  have inside : Holds filterSchema filterField.inputs
      (arguments filterSchema eager filterField) [] ⟨requiredInput "filter" "Filter", nestedFilter⟩
      [⟨"sort", .enum "ASC"⟩, ⟨"since", .string ""⟩, ⟨"not", .object []⟩] :=
    .here (by decide +kernel) (by decide +kernel) (by rw [filled]; exact List.mem_cons_self)
  exact ⟨inhabited, rfl, filled, fit.1, (fit.2.2 _ _ _ inside).1⟩

end Defaults

end QueryEditor
