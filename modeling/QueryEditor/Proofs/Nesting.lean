import QueryEditor.Proofs.Defaults
import Mathlib.Data.List.Nodup

namespace QueryEditor

theorem Catalog.inputs_distinct {α : Type} [HasName α] (catalog : Catalog α) {input : α → InputTarget}
    (named : ∀ entry, (input entry).name = HasName.nameOf entry) :
    ((catalog.entries.map input).map (·.name)).Nodup := by
  have names : (catalog.entries.map input).map (·.name) = catalog.names := by
    rw [catalog.names_eq, List.map_map]
    exact List.map_congr_left fun entry _ => named entry
  rw [names]
  exact catalog.distinct

theorem InputObjectType.inputs_distinct (type : InputObjectType) :
    (type.inputs.map (·.name)).Nodup :=
  type.fields.inputs_distinct fun _ => rfl

theorem Field.inputs_distinct (field : Field) : (field.inputs.map (·.name)).Nodup :=
  field.arguments.inputs_distinct fun _ => rfl

namespace Defaults

variable {schema : Schema} {policy : Policy} {parent : Field} {expanding after : List String}

/-- The names of input object types whose objects, each with fields, stand inside one another on one
way down through the slots of input values, the outermost first. -/
inductive Nested (schema : Schema) : List InputTarget → List Slot → List String → Prop
  | stop {inputs : List InputTarget} {slots : List Slot} : Nested schema inputs slots []
  | down {inputs : List InputTarget} {slots fields : List Slot} {input : InputTarget}
      {type : InputObjectType} {chain : List String} :
      input ∈ inputs →
      schema.innermost? input.type = some (.input type) →
      ⟨input.name, .object fields⟩ ∈ slots →
      fields ≠ [] →
      Nested schema type.inputs fields chain →
      Nested schema inputs slots (type.name :: chain)

theorem slotWithin_object {depth : Nat} {input : InputTarget} {type : InputObjectType}
    {fields : List Slot} (known : schema.innermost? input.type = some (.input type))
    (done : slotWithin schema policy parent depth input expanding =
      some (some ⟨input.name, .object fields⟩, after)) :
    ∃ depth, fieldsOver policy parent (slotWithin schema policy parent depth) type expanding =
      some (fields, after) := by
  have noLeaf : ∀ other, schema.innermost? input.type = some other → other.isLeaf ≠ true := by
    intro other there leaf
    cases known.symm.trans there
    cases leaf
  cases depth with
  | zero =>
    rcases slotOver_cases done with ⟨_, _, -, none, -⟩ | ⟨-, leaf⟩
    · cases none
    · obtain ⟨other, there, leaf, -⟩ := leaf _ rfl
      exact absurd leaf (noLeaf other there)
  | succ depth =>
    rcases slotOver_cases done with ⟨other, inner, there, done, same⟩ | ⟨-, leaf⟩
    · cases known.symm.trans there
      cases same
      exact ⟨depth, done⟩
    · obtain ⟨other, there, leaf, -⟩ := leaf _ rfl
      exact absurd leaf (noLeaf other there)

theorem Settled.unique {α : Type} {bound : Nat} {filling : Nat → Filling α} {first second : α}
    (one : Settled bound expanding filling first) (other : Settled bound expanding filling second) :
    first = second := by
  have same := (one bound (Nat.le_refl bound)).symm.trans (other bound (Nat.le_refl bound))
  exact congrArg Prod.fst (Option.some.inj same)

theorem fieldsOver_new {slot : InputTarget → Filling (Option Slot)} {type : InputObjectType}
    {fields : List Slot} (full : fields ≠ [])
    (done : fieldsOver policy parent slot type expanding = some (fields, after)) :
    type.name ∉ expanding ∧ ∃ after,
      slotsOver policy parent slot type.inputs (type.name :: expanding) = some (fields, after) := by
  rcases fieldsOver_cases done with ⟨-, empty, -⟩ | ⟨new, after, -, filled⟩
  · exact absurd empty full
  · exact ⟨new, after, filled⟩

/-- Down through what is filled in, no type comes twice, and none that is being filled in around
it. -/
theorem Nested.new {inputs : List InputTarget} {slots : List Slot} {chain : List String}
    (nested : Nested schema inputs slots chain) (distinct : (inputs.map (·.name)).Nodup)
    {depth : Nat}
    (each : ∀ filled ∈ slots, ∃ input ∈ inputs,
      slotWithin schema policy parent depth input expanding = some (some filled, expanding)) :
    chain.Nodup ∧ ∀ name ∈ chain, name ∉ expanding := by
  induction nested generalizing depth expanding with
  | stop => exact ⟨List.nodup_nil, nofun⟩
  | @down inputs slots fields input type chain listed known filled full _ ih =>
    obtain ⟨other, among, run⟩ := each _ filled
    have same : other = input :=
      List.inj_on_of_nodup_map distinct among listed (slotWithin_name run).symm
    subst same
    obtain ⟨depth, run⟩ := slotWithin_object known run
    obtain ⟨new, _, run⟩ := fieldsOver_new full run
    -- Beneath, this type is being filled in, so whatever comes there is another.
    obtain ⟨beneath, apart⟩ := ih type.inputs_distinct (slotsOver_cases run).2
    refine ⟨List.nodup_cons.mpr ⟨fun twice => apart _ twice List.mem_cons_self, beneath⟩, ?_⟩
    intro name member
    rcases List.mem_cons.mp member with rfl | member
    · exact new
    · exact fun around => apart name member (List.mem_cons_of_mem _ around)

section Results

variable (schema : Schema) (policy : Policy) (parent : Field)

theorem slot_nested (input : InputTarget) {chain : List String}
    (nested : Nested schema [input] (slot schema policy parent input).toList chain) :
    chain.Nodup := by
  have run := slot_run schema policy parent input
  have each : ∀ filled ∈ (slot schema policy parent input).toList, ∃ other ∈ [input],
      slotWithin schema policy parent (maxDepth schema) other [] = some (some filled, []) := by
    intro filled member
    rw [Option.mem_toList.mp member] at run
    exact ⟨input, List.mem_singleton_self _, run⟩
  exact (nested.new (List.nodup_singleton _) each).1

theorem inputFields_nested (type : InputObjectType) {chain : List String}
    (nested : Nested schema type.inputs (inputFields schema policy parent type) chain) :
    (type.name :: chain).Nodup := by
  rcases fieldsOver_cases (inputFields_run schema policy parent type) with
    ⟨around, -, -⟩ | ⟨-, _, -, run⟩
  · cases around
  · obtain ⟨beneath, apart⟩ := nested.new type.inputs_distinct (slotsOver_cases run).2
    exact List.nodup_cons.mpr ⟨fun twice => apart _ twice List.mem_cons_self, beneath⟩

theorem arguments_nested (field : Field) {chain : List String}
    (nested : Nested schema field.inputs (arguments schema policy field) chain) :
    chain.Nodup :=
  (nested.new field.inputs_distinct (slotsOver_cases (arguments_run schema policy field)).2).1

theorem arguments_each (field : Field) :
    arguments schema policy field =
      (field.inputs.filter (isFilled policy field)).filterMap
        (slot schema policy field) := by
  have together := result_settled (slotsOver_maxDepth schema policy field [] field.inputs)
  have apart := slotsOver_settled policy field fun input (_ : input ∈ field.inputs) =>
    result_settled (slotWithin_maxDepth schema policy field [] input)
  exact together.unique apart

end Results

/-- Filling in comes to an end for every schema, host and field: with depth for as many objects inside
one another as there are input object types left, and one more, each input value has its result, and
what is being filled in afterwards is what was before. Down through the result no type with fields
comes twice. The arguments of a field, one after the other, are what each of those that are filled in
is by itself. -/
theorem filling_local (schema : Schema) (policy : Policy) (field : Field) :
    ((∀ expanding input, ∃ filled, Settled ((unexpanded schema expanding).length + 1) expanding
        (slotWithin schema policy field · input) filled) ∧
      (∀ input, Settled (maxDepth schema) [] (slotWithin schema policy field · input)
        (slot schema policy field input)) ∧
      (∀ type, Settled (maxDepth schema) []
        (fun depth => fieldsOver policy field (slotWithin schema policy field depth) type)
        (inputFields schema policy field type)) ∧
      Settled (maxDepth schema) []
        (fun depth => slotsOver policy field (slotWithin schema policy field depth)
          field.inputs)
        (arguments schema policy field)) ∧
    ((∀ input chain, Nested schema [input] (slot schema policy field input).toList chain →
        chain.Nodup) ∧
      (∀ type chain, Nested schema type.inputs (inputFields schema policy field type) chain →
        (type.name :: chain).Nodup) ∧
      ∀ chain, Nested schema field.inputs (arguments schema policy field) chain →
        chain.Nodup) ∧
    arguments schema policy field =
      (field.inputs.filter fun input =>
        input.isRequired || policy.fillsOptional field input).filterMap
        (slot schema policy field) := by
  refine ⟨⟨?_, ?_, ?_, ?_⟩, ⟨?_, ?_, ?_⟩, arguments_each schema policy field⟩
  · exact slotWithin_settled schema policy field
  · exact fun input => result_settled (slotWithin_maxDepth schema policy field [] input)
  · exact fun type => result_settled (fieldsOver_maxDepth schema policy field [] type)
  · exact result_settled (slotsOver_maxDepth schema policy field [] field.inputs)
  · exact fun input _ => slot_nested schema policy field input
  · exact fun type _ => inputFields_nested schema policy field type
  · exact fun _ => arguments_nested schema policy field

def nullableInput (name : String) (type : DeclaredType) : InputValue :=
  { name, location := .introspection, type }

def inputFieldOf (parent : String) (input : InputValue) : InputField :=
  { toInputValue := input, parent }

def inputObject (name : String) (fields : List InputValue) : InputObjectType where
  name := name
  location := .introspection
  fields := .ofList (fields.map (inputFieldOf name))

def tangledA : InputObjectType :=
  inputObject "A" [nullableInput "self" (.named "A" true), nullableInput "other" (.named "B" true)]

def tangledB : InputObjectType :=
  inputObject "B" [nullableInput "back" (.list (.named "A" false) true)]

def tangledSchema : Schema where
  types := .ofList [.input tangledA, .input tangledB]
  queryName := "Query"

def eager : Policy where
  fillsOptional _ _ := true

def tangledField : Field where
  name := "f"
  location := .introspection
  arguments := .ofList [nullableInput "a" (.named "A" true), nullableInput "b" (.named "B" true)]
  parent := "Query"
  type := .named "Int" true

/-- The second argument has all that it has alone, although the first has objects of its type. -/
theorem filling_local_tangled :
    arguments tangledSchema eager tangledField =
      [⟨"a", .object [⟨"self", .object []⟩, ⟨"other", .object [⟨"back", .object []⟩]⟩]⟩,
        ⟨"b", .object [⟨"back", .object [⟨"self", .object []⟩, ⟨"other", .object []⟩]⟩]⟩] ∧
    Nested tangledSchema tangledField.inputs
      (arguments tangledSchema eager tangledField) ["A", "B"] ∧ ["A", "B"].Nodup := by
  have filled : arguments tangledSchema eager tangledField =
      [⟨"a", .object [⟨"self", .object []⟩, ⟨"other", .object [⟨"back", .object []⟩]⟩]⟩,
        ⟨"b", .object [⟨"back", .object [⟨"self", .object []⟩, ⟨"other", .object []⟩]⟩]⟩] := by
    decide +kernel
  have inside : Nested tangledSchema tangledField.inputs
      (arguments tangledSchema eager tangledField) ["A", "B"] := by
    rw [filled]
    have outer : .argument (nullableInput "a" (.named "A" true)) ∈ tangledField.inputs := by decide +kernel
    have inner : .inputField (inputFieldOf "A" (nullableInput "other" (.named "B" true))) ∈
        tangledA.inputs := by
      decide +kernel
    have knownA : tangledSchema.innermost? (.named "A" true) = some (.input tangledA) := by
      decide +kernel
    have knownB : tangledSchema.innermost? (.named "B" true) = some (.input tangledB) := by
      decide +kernel
    apply Nested.down outer knownA List.mem_cons_self (List.cons_ne_nil _ _)
    apply Nested.down inner knownB (List.mem_cons_of_mem _ List.mem_cons_self)
      (List.cons_ne_nil _ _)
    exact Nested.stop
  exact ⟨filled, inside, (filling_local tangledSchema eager tangledField).2.1.2.2 _ inside⟩

end Defaults

end QueryEditor
